import Mathlib.Algebra.Order.Ring.Int
import Mathlib.Data.List.Nodup
import Mathlib.Logic.Function.Basic

/-!
# A fragment of RV32

One hart with its integer registers, word-addressed memory and the supervisor registers
that a trap involves, and the few instructions trap entries and context switches are
written in. A trap and `sret` move the privilege mode and the interrupt bits through
`sstatus` as the privileged specification says.

Straight pieces of assembler are lists of instructions whose branches only go forward
(`bnez sp, 1f`), so `run` is a recursion over the list that skips to the label of a
branch that is taken. The program counter matters only where a piece is left.

`saves` and `loads` are the long runs of `sw` and `lw` such code begins and ends with;
`exists_saves` and `exists_loads` say what they do, in one step.
-/

namespace Os1000.Lib

/-- The integer registers. -/
inductive Reg where
  | zero | ra | sp | gp | tp
  | t0 | t1 | t2 | t3 | t4 | t5 | t6
  | s0 | s1 | s2 | s3 | s4 | s5 | s6 | s7 | s8 | s9 | s10 | s11
  | a0 | a1 | a2 | a3 | a4 | a5 | a6 | a7
deriving DecidableEq, Repr

/-- The supervisor registers that are read and written by name. -/
inductive Csr where
  | sscratch
  | sepc
  | sstatus
deriving DecidableEq, Repr

/-- The privilege modes. -/
inductive Priv where
  | user
  | supervisor
deriving DecidableEq, Repr

/-! ## `sstatus` -/

/-- The fields of `sstatus`. -/
structure Sstatus where
  /-- Interrupts are enabled in supervisor mode. -/
  sie : Bool
  /-- What `sie` was before the trap. -/
  spie : Bool
  /-- Whether the trap came from supervisor mode. -/
  spp : Bool
  /-- Supervisor mode may access user memory. -/
  sum : Bool
deriving DecidableEq, Repr

/-- `sstatus` as a word. -/
def Sstatus.word (st : Sstatus) : Nat :=
  (if st.sie then 2 ^ 1 else 0) + (if st.spie then 2 ^ 5 else 0) + (if st.spp then 2 ^ 8 else 0)
    + (if st.sum then 2 ^ 18 else 0)

/-- The fields of a word. -/
def Sstatus.ofWord (w : Nat) : Sstatus :=
  ⟨w / 2 ^ 1 % 2 = 1, w / 2 ^ 5 % 2 = 1, w / 2 ^ 8 % 2 = 1, w / 2 ^ 18 % 2 = 1⟩

@[simp] theorem Sstatus.ofWord_word (st : Sstatus) : Sstatus.ofWord st.word = st := by
  obtain ⟨_ | _, _ | _, _ | _, _ | _⟩ := st <;> rfl

/-- The mask of bit 8 tells where the trap came from. -/
theorem Sstatus.word_and_spp (st : Sstatus) : st.word &&& 2 ^ 8 = if st.spp then 2 ^ 8 else 0 := by
  obtain ⟨_ | _, _ | _, _ | _, _ | _⟩ := st <;> rfl

/-! ## The hart -/

/-- A hart and its memory. -/
structure Hart where
  regs : Reg → Nat
  mem : Nat → Nat
  pc : Nat
  mode : Priv
  stvec : Nat
  sscratch : Nat
  sepc : Nat
  sstatus : Sstatus

namespace Hart

/-- The value of a register. -/
def get (h : Hart) (r : Reg) : Nat := if r = .zero then 0 else h.regs r

/-- Write a register. -/
def set (h : Hart) (r : Reg) (v : Nat) : Hart := { h with regs := Function.update h.regs r v }

/-- Write a word of memory. -/
def store (h : Hart) (a v : Nat) : Hart := { h with mem := Function.update h.mem a v }

/-- Move the stack pointer down. -/
def push (h : Hart) (n : Nat) : Hart := h.set .sp (h.regs .sp - n)

/-- Move it up. -/
def pop (h : Hart) (n : Nat) : Hart := h.set .sp (h.regs .sp + n)

/-- `csrr` -/
def csr (h : Hart) : Csr → Nat
  | .sscratch => h.sscratch
  | .sepc => h.sepc
  | .sstatus => h.sstatus.word

/-- `csrw` -/
def setCsr (h : Hart) (c : Csr) (v : Nat) : Hart :=
  match c with
  | .sscratch => { h with sscratch := v }
  | .sepc => { h with sepc := v }
  | .sstatus => { h with sstatus := .ofWord v }

/-- A trap is taken. -/
def trap (h : Hart) : Hart :=
  let sstatus := { h.sstatus with
    spp := decide (h.mode = .supervisor), spie := h.sstatus.sie, sie := false }
  { h with sepc := h.pc, sstatus, mode := .supervisor, pc := h.stvec }

/-- `sret` -/
def sret (h : Hart) : Hart :=
  let sstatus := { h.sstatus with sie := h.sstatus.spie, spie := true, spp := false }
  { h with pc := h.sepc, sstatus, mode := if h.sstatus.spp then .supervisor else .user }

end Hart

/-! ## Instructions -/

/-- The instructions. Labels are numbers, and branches go forward. -/
inductive Instr where
  | csrrw (rd : Reg) (c : Csr) (rs : Reg)
  | csrr (rd : Reg) (c : Csr)
  | csrw (c : Csr) (rs : Reg)
  | li (rd : Reg) (imm : Nat)
  | mv (rd rs : Reg)
  | addi (rd rs : Reg) (imm : Int)
  | andi (rd rs : Reg) (imm : Nat)
  | lw (rd : Reg) (off : Nat) (base : Reg)
  | sw (rs : Reg) (off : Nat) (base : Reg)
  | bnez (rs : Reg) (target : Nat)
  | beqz (rs : Reg) (target : Nat)
  | j (target : Nat)
  | label (n : Nat)
  | sret
  | ret
deriving DecidableEq, Repr

/-- What an instruction that is not a jump does. -/
def Instr.exec (h : Hart) : Instr → Hart
  | .csrrw rd c rs => (h.setCsr c (h.get rs)).set rd (h.csr c)
  | .csrr rd c => h.set rd (h.csr c)
  | .csrw c rs => h.setCsr c (h.get rs)
  | .li rd imm => h.set rd imm
  | .mv rd rs => h.set rd (h.get rs)
  | .addi rd rs imm => h.set rd ((((h.get rs : Int) + imm) % 2 ^ 32).toNat)
  | .andi rd rs imm => h.set rd (h.get rs &&& imm)
  | .lw rd off base => h.set rd (h.mem ((h.get base + off) % 2 ^ 32))
  | .sw rs off base => h.store ((h.get base + off) % 2 ^ 32) (h.get rs)
  | _ => h

/-- Run a piece of code, or skip to a label in it, until it is left. -/
def run : List Instr → Option Nat → Hart → Hart
  | [], _, h => h
  | i :: is, some l, h => run is (if i = .label l then none else some l) h
  | i :: is, none, h =>
      match i with
      | .bnez rs l => run is (if h.get rs = 0 then none else some l) h
      | .beqz rs l => run is (if h.get rs = 0 then some l else none) h
      | .j l => run is (some l) h
      | .sret => h.sret
      | .ret => { h with pc := h.get .ra }
      | i => run is none (i.exec h)

/-- Store registers in a row of words. -/
def saves (base : Reg) : List Reg → Nat → List Instr
  | [], _ => []
  | r :: rs, k => .sw r (4 * k) base :: saves base rs (k + 1)

/-- Load registers from a row of words. -/
def loads (base : Reg) : List Reg → Nat → List Instr
  | [], _ => []
  | r :: rs, k => .lw r (4 * k) base :: loads base rs (k + 1)

/-! ## Registers -/

section

variable {h : Hart} {r q : Reg} {v a : Nat}

theorem Hart.get_eq (hr : r ≠ .zero) : h.get r = h.regs r := if_neg hr

theorem Hart.set_get_other (hq : q ≠ r) : (h.set r v).get q = h.get q := by
  unfold Hart.get Hart.set
  dsimp only
  rw [Function.update_of_ne hq]

theorem addi_neg {n : Nat} (hv : n ≤ v) (hlt : v < 2 ^ 32) :
    (((v : Int) + -(n : Int)) % 2 ^ 32).toNat = v - n := by
  have hv : (n : Int) ≤ v := Int.ofNat_le.mpr hv
  rw [Int.emod_eq_of_lt (by omega) (by omega)]
  omega

theorem addi_pos {n : Nat} (hlt : v + n < 2 ^ 32) :
    (((v : Int) + (n : Int)) % 2 ^ 32).toNat = v + n := by
  rw [Int.emod_eq_of_lt (by omega) (by omega)]
  omega

end

/-! ## Rows of stores and loads -/

/-- Skipping does not stop in a row of stores, nor in one of loads. -/
theorem run_skip {l : Nat} (is js : List Instr) (h : Hart) (hl : .label l ∉ is) :
    run (is ++ js) (some l) h = run js (some l) h := by
  induction is with
  | nil => rfl
  | cons i is ih =>
      have hi : i ≠ .label l := fun he => hl (he ▸ List.mem_cons_self)
      rw [List.cons_append, run, if_neg hi]
      exact ih fun hm => hl (List.mem_cons_of_mem _ hm)

theorem label_not_mem_loads {l : Nat} (base : Reg) (rs : List Reg) (k : Nat) :
    Instr.label l ∉ loads base rs k := by
  induction rs generalizing k with
  | nil => exact List.not_mem_nil
  | cons r rs ih =>
      rw [loads, List.mem_cons, not_or]
      exact ⟨nofun, ih _⟩

/-- **A row of stores** puts the registers into consecutive words and changes nothing else. -/
theorem exists_saves (base : Reg) (rs : List Reg) (k : Nat) (js : List Instr) (h : Hart)
    (hb : h.get base + 4 * (k + rs.length) ≤ 2 ^ 32) :
    ∃ mem, run (saves base rs k ++ js) none h = run js none { h with mem := mem }
      ∧ (∀ i r, rs[i]? = some r → mem (h.get base + 4 * (k + i)) = h.get r)
      ∧ ∀ a, a < h.get base + 4 * k ∨ h.get base + 4 * (k + rs.length) ≤ a → mem a = h.mem a := by
  -- by induction on the row, for every state of the memory
  induction rs generalizing k h with
  | nil => exact ⟨h.mem, rfl, nofun, fun _ _ => rfl⟩
  | cons r rs ih =>
      rw [List.length_cons] at hb
      have hat : (h.get base + 4 * k) % 2 ^ 32 = h.get base + 4 * k :=
        Nat.mod_eq_of_lt (by omega)
      obtain ⟨h1, hh1⟩ : ∃ h1, h1 = h.store (h.get base + 4 * k) (h.get r) := ⟨_, rfl⟩
      have hget : ∀ q, h1.get q = h.get q := fun q => by rw [hh1]; rfl
      obtain ⟨mem, hrun, hin, hout⟩ := ih (k + 1) h1 (by rw [hget]; omega)
      rw [hget] at hin hout
      refine ⟨mem, ?_, ?_, ?_⟩
      · show run (saves base rs (k + 1) ++ js) none (h.store ((h.get base + 4 * k) % 2 ^ 32) _) = _
        rw [hat, ← hh1, hrun, hh1]
        rfl
      · intro i q hi
        cases i with
        | zero =>
            cases hi
            rw [hout _ (Or.inl (by omega)), hh1]
            exact Function.update_self ..
        | succ i =>
            have := hin i q hi
            rw [hget] at this
            rwa [show k + (i + 1) = k + 1 + i by omega]
      · intro a ha
        rw [List.length_cons] at ha
        rw [hout a (by omega), hh1]
        exact Function.update_of_ne (by omega) ..

/-- **A row of loads** takes the registers from consecutive words. -/
theorem exists_loads (base : Reg) (rs : List Reg) (k : Nat) (js : List Instr) (h : Hart)
    (hb : h.get base + 4 * (k + rs.length) ≤ 2 ^ 32) (hbase : base ∉ rs) (hnd : rs.Nodup) :
    ∃ regs, run (loads base rs k ++ js) none h = run js none { h with regs := regs }
      ∧ (∀ i r, rs[i]? = some r → regs r = h.mem (h.get base + 4 * (k + i)))
      ∧ ∀ r, r ∉ rs → regs r = h.regs r := by
  induction rs generalizing k h with
  | nil => exact ⟨h.regs, rfl, nofun, fun _ _ => rfl⟩
  | cons r rs ih =>
      rw [List.length_cons] at hb
      rw [List.mem_cons, not_or] at hbase
      rw [List.nodup_cons] at hnd
      have hat : (h.get base + 4 * k) % 2 ^ 32 = h.get base + 4 * k :=
        Nat.mod_eq_of_lt (by omega)
      obtain ⟨h1, hh1⟩ : ∃ h1, h1 = h.set r (h.mem (h.get base + 4 * k)) := ⟨_, rfl⟩
      -- the base register is not one of those that are loaded
      have hget : h1.get base = h.get base := by rw [hh1]; exact Hart.set_get_other hbase.1
      obtain ⟨regs, hrun, hin, hout⟩ := ih (k + 1) h1 (by rw [hget]; omega) hbase.2 hnd.2
      rw [hget] at hin
      refine ⟨regs, ?_, ?_, ?_⟩
      · show run (loads base rs (k + 1) ++ js) none (h.set r (h.mem ((h.get base + 4 * k) % 2 ^ 32)))
          = _
        rw [hat, ← hh1, hrun, hh1]
        rfl
      · intro i q hi
        cases i with
        | zero =>
            cases hi
            rw [hout _ hnd.1, hh1]
            exact Function.update_self ..
        | succ i =>
            have := hin i q hi
            rw [hh1] at this
            rwa [show k + (i + 1) = k + 1 + i by omega]
      · intro q hq
        rw [List.mem_cons, not_or] at hq
        rw [hout q hq.2, hh1]
        exact Function.update_of_ne hq.1 ..

end Os1000.Lib
