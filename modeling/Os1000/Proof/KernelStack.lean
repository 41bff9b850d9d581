import Os1000.Lib.Run
import Os1000.Proof.TrapCode

/-!
# Kernel stacks

Every kernel stack holds, from its top down, a chain of traps with the frames of what they
interrupted between them (`Chain`). The chain has at most one trap out of user mode, the
first one, and each trap's frame still has the registers it was taken with.

* A trap adds to the chain and a return takes from it; C code works below it.
* `switch_context` leaves a chain behind and finds another one as it was left
  (`Suspended`).
* `sstatus` is that of the last trap wherever `handle_trap` will return from, since
  `wait_for_interrupt` and `yield` put it back (`StatusOk`).
* `sepc` is only relied on by handlers that nothing can interrupt; after a system call it
  is written anew from the frame of `handle_trap`.

All of this is about one hart and the processes it leaves and continues; the runs of the
whole machine are in `Os1000.Proof.Traps`.
-/

namespace Os1000.Proof

open Os1000 Lib

variable {L : StackLayout}

/-! ## The stacks are apart -/

theorem boot_bounds : L.procs + 8 * 8516 + 131072 ≤ L.bootTop ∧ L.bootTop + 67108864 < 2 ^ 32 := by
  have h1 := L.boot_ge
  have h2 := L.boot_le
  have h3 := L.end_lt
  rw [show procsMax * sizeofProcess = 8 * 8516 from rfl,
    show bootStackSize = 131072 from rfl] at h1
  rw [show freeRamSize = 67108864 from rfl] at h3
  omega

theorem low_high_idle : L.low idleSlot = L.bootTop - 131072 ∧ L.high idleSlot = L.bootTop := by
  unfold StackLayout.low StackLayout.high
  rw [if_pos rfl, if_pos rfl, show bootStackSize = 131072 from rfl]
  exact ⟨rfl, rfl⟩

theorem low_high_proc {p : Nat} (hp : p ≠ idleSlot) :
    L.low p = L.procs + p * 8516 + 324 ∧ L.high p = L.procs + (p + 1) * 8516 := by
  unfold StackLayout.low StackLayout.high stackBase stackTop
  rw [if_neg hp, if_neg hp, show sizeofProcess = 8516 from rfl]
  exact ⟨rfl, rfl⟩

theorem spField_eq (p : Nat) : spField L.toLayout p = L.procs + p * 8516 + 8 := by
  unfold spField
  rw [show sizeofProcess = 8516 from rfl]

theorem low_le_high {p : Nat} : L.low p + 8192 ≤ L.high p := by
  have hb := boot_bounds (L := L)
  by_cases h0 : p = idleSlot
  · obtain ⟨h1, h2⟩ := low_high_idle (L := L)
    subst h0
    omega
  · obtain ⟨h1, h2⟩ := low_high_proc (L := L) h0
    omega

theorem high_lt {p : Nat} (hp : p < procsMax) : L.high p + 128 < 2 ^ 32 := by
  have hb := boot_bounds (L := L)
  have hp : p < 8 := hp
  by_cases h0 : p = idleSlot
  · obtain ⟨h1, h2⟩ := low_high_idle (L := L)
    subst h0
    omega
  · obtain ⟨h1, h2⟩ := low_high_proc (L := L) h0
    omega

/-- Two stacks have no address in common. -/
theorem stacks_apart {p q a : Nat} (hp : p < procsMax) (hq : q < procsMax) (hne : p ≠ q)
    (h1 : L.low p ≤ a) (h2 : a < L.high p) : a < L.low q ∨ L.high q ≤ a := by
  have hb := boot_bounds (L := L)
  have hp : p < 8 := hp
  have hq : q < 8 := hq
  have hi := low_high_idle (L := L)
  by_cases hp0 : p = idleSlot
  · have hqs := low_high_proc (L := L) (p := q) fun hq0 => hne (hp0.trans hq0.symm)
    subst hp0
    omega
  · have hps := low_high_proc (L := L) hp0
    by_cases hq0 : q = idleSlot
    · subst hq0
      omega
    · have hqs := low_high_proc (L := L) hq0
      omega

/-- The saved stack pointers are not on a stack. -/
theorem spField_off {p q : Nat} (hp : p < procsMax) (hq : q < procsMax) :
    spField L.toLayout p < L.low q ∨ L.high q ≤ spField L.toLayout p := by
  have hb := boot_bounds (L := L)
  have hp : p < 8 := hp
  have hq : q < 8 := hq
  have hf := spField_eq (L := L) p
  by_cases hq0 : q = idleSlot
  · have hi := low_high_idle (L := L)
    subst hq0
    omega
  · have hqs := low_high_proc (L := L) hq0
    omega

theorem spField_ne {p q : Nat} (hne : p ≠ q) : spField L.toLayout p ≠ spField L.toLayout q := by
  have hp := spField_eq (L := L) p
  have hq := spField_eq (L := L) q
  omega

theorem spField_lt {p : Nat} (hp : p < procsMax) : spField L.toLayout p < 2 ^ 32 := by
  have hb := boot_bounds (L := L)
  have hp : p < 8 := hp
  have hf := spField_eq (L := L) p
  omega

theorem high_eq {p : Nat} (hp : p ≠ idleSlot) : L.high p = stackTop L.toLayout p := if_neg hp

/-! ## What is on a stack -/

/-- How much of the stack a point uses. -/
def pointSize : Point → Nat
  | .user => 0
  | .code m => m
  | .wait m w _ => m + w
  | .yield m y _ => m + y

/-- `sstatus` will lead the return from the last trap to where it came from. -/
def StatusOk (ts : List Trapped) (st : Sstatus) : Prop :=
  ∀ t, ts.head? = some t → st.sie = false ∧ st.spp = !t.point.isUser

/-- The locals of `wait_for_interrupt` and `yield`. -/
def Locals (mem : Nat → Nat) (sp : Nat) (ts : List Trapped) : Point → Prop
  | .wait _ w _ => 8 ≤ w ∧ ∃ st : Sstatus, mem sp = st.word ∧ mem (sp + 4) = (disabled st).word
      ∧ StatusOk ts st
  | .yield _ y _ => 4 ≤ y ∧ ∃ st : Sstatus, mem sp = st.word ∧ StatusOk ts st
  | _ => True

/-- The frame of `handle_trap` at `T`, and that of `kernel_entry` above it. -/
structure FrameOk (mem : Nat → Nat) (T : Nat) (t : Trapped) : Prop where
  size : 8 ≤ t.frame
  userPc : mem T = t.pc
  f : mem (T + 4) = T + t.frame
  /-- A system call may have written `f->a0`. -/
  regs : ∀ i r, trapRegs[i]? = some r →
    t.cause = .ecall ∧ r = .a0 ∨ mem (T + t.frame + 4 * i) = t.regs r
  sp : mem (T + t.frame + 4 * 30) = t.regs .sp
  zero : t.regs .zero = 0

/-- What can be interrupted in supervisor mode, and then goes on as if nothing had happened. -/
def Resumable (ts : List Trapped) : Point → Prop
  | .code _ => ts = []
  | .wait _ _ .restored => ts = []
  | .wait _ _ _ => MayWait ts
  | .yield _ _ .called => MayWait ts
  | .yield _ _ .restored => ts = []
  | _ => False

/-- The traps a process is in, from the stack pointer `T` of the last `handle_trap` up. -/
def Chain (L : StackLayout) (p : Nat) (mem : Nat → Nat) : Nat → List Trapped → Prop
  | T, [] => p = idleSlot ∧ T ≤ L.high p
  | T, t :: ts => FrameOk mem T t
      ∧ if t.point.isUser then p ≠ idleSlot ∧ ts = [] ∧ T + t.frame + 128 = L.high p
        else t.cause = .external ∧ t.regs .sp = T + t.frame + 128 ∧ Resumable ts t.point
          ∧ Locals mem (T + t.frame + 128) ts t.point
          ∧ Chain L p mem (T + t.frame + 128 + pointSize t.point) ts

/-- A point in the kernel, with the stack pointer at `sp`. -/
structure OnStack (L : StackLayout) (p : Nat) (mem : Nat → Nat) (sp : Nat) (P : Point)
    (ts : List Trapped) : Prop where
  low : L.low p ≤ sp
  locals : Locals mem sp ts P
  chain : Chain L p mem (sp + pointSize P) ts

section

variable {p T sp : Nat} {mem mem' : Nat → Nat} {ts : List Trapped} {t : Trapped} {P : Point}

theorem FrameOk.congr (h : FrameOk mem T t)
    (he : ∀ a, T ≤ a → a < T + t.frame + 128 → mem' a = mem a) : FrameOk mem' T t := by
  have hn := h.size
  refine ⟨h.size, ?_, ?_, fun i r hi => ?_, ?_, h.zero⟩
  · rw [he T (by omega) (by omega)]; exact h.userPc
  · rw [he _ (by omega) (by omega)]; exact h.f
  · have hlt := lt_of_trapRegs hi
    rw [he _ (by omega) (by omega)]
    exact h.regs i r hi
  · rw [he _ (by omega) (by omega)]; exact h.sp

theorem Locals.congr (h : Locals mem sp ts P)
    (he : ∀ a, sp ≤ a → a < sp + pointSize P → mem' a = mem a) : Locals mem' sp ts P := by
  cases P with
  | user => trivial
  | code m => trivial
  | wait m w stage =>
      obtain ⟨hw, st, h1, h2, h3⟩ := h
      have he : ∀ a, sp ≤ a → a < sp + (m + w) → mem' a = mem a := he
      refine ⟨hw, st, ?_, ?_, h3⟩
      · rw [he sp (by omega) (by omega), h1]
      · rw [he _ (by omega) (by omega), h2]
  | yield m y stage =>
      obtain ⟨hy, st, h1, h2⟩ := h
      have he : ∀ a, sp ≤ a → a < sp + (m + y) → mem' a = mem a := he
      refine ⟨hy, st, ?_, h2⟩
      rw [he sp (by omega) (by omega), h1]

/-- A chain ends below the top of its stack. -/
theorem Chain.le_high (h : Chain L p mem T ts) : T ≤ L.high p := by
  induction ts generalizing T with
  | nil => exact h.2
  | cons t ts ih =>
      obtain ⟨_, h⟩ := h
      split at h
      · obtain ⟨_, _, h⟩ := h
        omega
      · obtain ⟨_, _, _, _, h⟩ := h
        have := ih h
        omega

/-- The part of the stack a chain is on does not change: neither does the chain. -/
theorem Chain.congr (h : Chain L p mem T ts) (he : ∀ a, T ≤ a → a < L.high p → mem' a = mem a) :
    Chain L p mem' T ts := by
  induction ts generalizing T with
  | nil => exact h
  | cons t ts ih =>
      obtain ⟨hf, h⟩ := h
      unfold Chain
      split at h
      · rename_i hu
        rw [if_pos hu]
        have htop := h.2.2
        exact ⟨hf.congr fun a h1 h2 => he a h1 (by omega), h⟩
      · rename_i hu
        rw [if_neg hu]
        obtain ⟨h1, h2, h3, h4, h5⟩ := h
        have htop := h5.le_high
        refine ⟨hf.congr fun a ha hb => he a ha (by omega), h1, h2, h3, ?_, ?_⟩
        · exact h4.congr fun a ha hb => he a (by omega) (by omega)
        · exact ih h5 fun a ha hb => he a (by omega) hb

theorem OnStack.congr (h : OnStack L p mem sp P ts)
    (he : ∀ a, sp ≤ a → a < L.high p → mem' a = mem a) : OnStack L p mem' sp P ts := by
  have htop := h.chain.le_high
  exact ⟨h.low, h.locals.congr fun a ha hb => he a ha (by omega),
    h.chain.congr fun a ha hb => he a (by omega) hb⟩

/-- **C code works below the chain.** -/
theorem OnStack.move (h : OnStack L p mem sp P ts) {sp' : Nat} {P' : Point}
    (hsize : sp' + pointSize P' = sp + pointSize P) (hlow : L.low p ≤ sp')
    (hlocals : Locals mem' sp' ts P')
    (he : ∀ a, sp + pointSize P ≤ a → a < L.high p → mem' a = mem a) :
    OnStack L p mem' sp' P' ts := by
  refine ⟨hlow, hlocals, ?_⟩
  rw [hsize]
  exact h.chain.congr he

end

/-! ## What runs -/

/-- `sepc` is relied on by the handlers of interrupts. -/
def EpcOk (ts : List Trapped) (h : Hart) : Prop :=
  ∀ t, ts.head? = some t → t.cause = .external → h.sepc = t.pc

/-- The supervisor registers at a point in the kernel. -/
def Csrs (L : StackLayout) (h : Hart) (ts : List Trapped) : Point → Prop
  | .user => False
  | .code _ => h.sscratch = 0 ∧ StatusOk ts h.sstatus ∧ EpcOk ts h
  | .wait _ _ .restored => MayWait ts ∧ h.sscratch = 0 ∧ StatusOk ts h.sstatus
  | .wait _ _ _ => MayWait ts ∧ h.sscratch = 0
  | .yield _ _ .called => MayWait ts ∧ h.sscratch = 0
  | .yield _ _ .restored => MayWait ts ∧ h.sscratch = 0 ∧ StatusOk ts h.sstatus
  | .yield _ _ (.switched regs) => MayWait ts ∧ h.sstatus.sie = false ∧ h.pc = L.yieldReturn
      ∧ h.get .sp = regs .sp ∧ ∀ r, r ∈ calleeSaved → h.regs r = regs r
  | .yield _ _ _ => MayWait ts ∧ h.sscratch = 0 ∧ h.sstatus.sie = false

/-- A process in user mode. -/
structure InUser (L : StackLayout) (p : Nat) (h : Hart) (ts : List Trapped) : Prop where
  traps : ts = []
  slot : p ≠ idleSlot
  mode : h.mode = .user
  sscratch : h.sscratch = stackTop L.toLayout p

/-- A process in the kernel. -/
structure InKernel (L : StackLayout) (p : Nat) (h : Hart) (P : Point) (ts : List Trapped) :
    Prop where
  mode : h.mode = .supervisor
  stack : OnStack L p h.mem (h.regs .sp) P ts
  csrs : Csrs L h ts P

/-- The process that runs. -/
def Running (L : StackLayout) (p : Nat) (h : Hart) : Control → Prop
  | .unused => False
  | .fresh => p ≠ idleSlot ∧ h.mode = .supervisor ∧ h.sstatus.sie = false
      ∧ h.sscratch = stackTop L.toLayout p ∧ h.pc = L.userEntry
  | .live P ts => if P.isUser then InUser L p h ts else InKernel L p h P ts

/-- A process that `switch_context` can continue. -/
def Suspended (L : StackLayout) (p : Nat) (mem : Nat → Nat) : Control → Prop
  | .unused => p ≠ idleSlot
  | .fresh => p ≠ idleSlot ∧ ∃ sp, mem (spField L.toLayout p) = sp ∧ L.low p ≤ sp
      ∧ sp + 52 ≤ L.high p ∧ mem sp = L.userEntry
  | .live P ts => ∃ m y regs sp, P = .yield m y (.switched regs)
      ∧ mem (spField L.toLayout p) = sp ∧ L.low p ≤ sp
      ∧ (∀ i r, calleeSaved[i]? = some r → mem (sp + 4 * i) = regs r)
      ∧ regs .ra = L.yieldReturn ∧ regs .sp = sp + 52 ∧ MayWait ts
      ∧ OnStack L p mem (sp + 52) P ts

theorem Suspended.congr {p : Nat} {mem mem' : Nat → Nat} {c : Control} (h : Suspended L p mem c)
    (hsp : mem' (spField L.toLayout p) = mem (spField L.toLayout p))
    (he : ∀ a, L.low p ≤ a → a < L.high p → mem' a = mem a) : Suspended L p mem' c := by
  cases c with
  | unused => exact h
  | fresh =>
      obtain ⟨h0, sp, h1, h2, h3, h4⟩ := h
      exact ⟨h0, sp, hsp.trans h1, h2, h3, (he sp h2 (by omega)).trans h4⟩
  | live P ts =>
      obtain ⟨m, y, regs, sp, h0, h1, h2, h3, h4, h5, h6, h7⟩ := h
      have htop := h7.chain.le_high
      refine ⟨m, y, regs, sp, h0, hsp.trans h1, h2, fun i r hi => ?_, h4, h5, h6, ?_⟩
      · have hlt := lt_of_calleeSaved hi
        rw [he _ (by omega) (by omega)]
        exact h3 i r hi
      · exact h7.congr fun a ha hb => he a (by omega) hb

/-! ## Taking a trap -/

section

variable {h h' : Hart} {F n p : Nat} {ts : List Trapped} {P : Point}

/-- The frames of a trap that was just taken. -/
theorem trapIn_frame (cause : Cause) (P : Point) {h1 : Hart} (he : Entered h.trap h1 F)
    (hn : 8 ≤ n) (hF : n ≤ F) :
    FrameOk (handleTrapBegin n h1).mem (F - n) ⟨n, cause, P, h.pc, h.get⟩
      ∧ (∀ a, a < F - n ∨ F + 128 ≤ a → (handleTrapBegin n h1).mem a = h.mem a)
      ∧ (handleTrapBegin n h1).regs .sp = F - n := by
  have hsp : (h1.push n).regs .sp = F - n := by
    show h1.regs .sp - n = F - n
    rw [he.sp]
  have hmem : (handleTrapBegin n h1).mem
      = Function.update (Function.update h1.mem (F - n) h.pc) (F - n + 4) F := by
    show Function.update (Function.update h1.mem ((h1.push n).regs .sp) h1.sepc)
      ((h1.push n).regs .sp + 4) (h1.regs .a0) = _
    rw [hsp, he.a0, he.sepc]
    rfl
  have hout : ∀ a, a < F - n ∨ F ≤ a → (handleTrapBegin n h1).mem a = h1.mem a := by
    intro a ha
    rw [hmem, Function.update_of_ne (by omega), Function.update_of_ne (by omega)]
  have hFn : F - n + n = F := by omega
  refine ⟨⟨hn, ?_, ?_, fun i r hi => Or.inr ?_, ?_, rfl⟩, fun a ha => ?_, hsp⟩
  · rw [hmem, Function.update_of_ne (by omega)]
    exact Function.update_self ..
  · rw [hmem]
    show Function.update (Function.update h1.mem (F - n) h.pc) (F - n + 4) F (F - n + 4) = F - n + n
    rw [hFn]
    exact Function.update_self ..
  · show (handleTrapBegin n h1).mem (F - n + n + 4 * i) = h.get r
    rw [hFn, hout _ (by omega), he.saved i r hi]
    rfl
  · show (handleTrapBegin n h1).mem (F - n + n + 4 * 30) = h.get .sp
    rw [hFn, hout _ (by omega), he.savedSp]
    rfl
  · rw [hout a (by omega), he.outside a (by omega)]
    rfl

/-- The supervisor registers after a trap. -/
theorem trapIn_csrs (ts : List Trapped) {h1 : Hart} (he : Entered h.trap h1 F) {t : Trapped}
    (hpc : t.pc = h.pc)
    (hmode : decide (h.mode = .supervisor) = !t.point.isUser) :
    (handleTrapBegin n h1).mode = .supervisor
      ∧ Csrs L (handleTrapBegin n h1) (t :: ts) (.code 0) := by
  refine ⟨he.mode, he.sscratch, ?_, ?_⟩
  · rintro t' ⟨⟩
    show h1.sstatus.sie = false ∧ h1.sstatus.spp = _
    rw [he.sstatus]
    exact ⟨rfl, hmode⟩
  · rintro t' ⟨⟩ _
    show h1.sepc = _
    rw [he.sepc, hpc]
    rfl

/-- **A trap out of user mode.** -/
theorem InUser.trap (hu : InUser L p h ts) (cause : Cause) (hp : p < procsMax) (hn : 8 ≤ n)
    (hroom : L.low p + (128 + n) ≤ h.sscratch) :
    InKernel L p (trapIn n h) (.code 0) (⟨n, cause, .user, h.pc, h.get⟩ :: ts)
      ∧ ∀ a, a < L.low p ∨ L.high p ≤ a → (trapIn n h).mem a = h.mem a := by
  have hs := hu.sscratch
  have hhigh := high_eq (L := L) hu.slot
  have hlt := high_lt (L := L) hp
  have he := kernelEntry_user h.trap
    (by show decide (h.mode = .supervisor) = false; rw [hu.mode]; rfl)
    (by show 128 ≤ h.sscratch; omega) (by show h.sscratch < _; omega)
  have hF : h.trap.sscratch = L.high p := hs.trans hhigh.symm
  rw [hF] at he
  obtain ⟨hf, hout, hsp⟩ := trapIn_frame cause .user he hn (by omega)
  obtain ⟨hm, hc⟩ := trapIn_csrs (L := L) (n := n) ts he
    (t := ⟨n, cause, .user, h.pc, h.get⟩) rfl
    (by show decide (h.mode = .supervisor) = false; rw [hu.mode]; rfl)
  refine ⟨⟨hm, ⟨?_, trivial, ?_⟩, hc⟩, fun a ha => hout a (by omega)⟩
  · show L.low p ≤ (handleTrapBegin n _).regs .sp
    rw [hsp]
    omega
  · show Chain L p _ ((handleTrapBegin n _).regs .sp + 0) _
    rw [hsp]
    refine ⟨hf, ?_⟩
    exact ⟨hu.slot, hu.traps, by show L.high p - 128 - n + 0 + n + 128 = _; omega⟩

/-- What an interrupt finds in the kernel can be resumed, and `sscratch` is 0. -/
theorem Csrs.interrupted (hc : Csrs L h ts P) (hsie : h.sstatus.sie = true) :
    h.sscratch = 0 ∧ Resumable ts P := by
  -- interrupts are only on where `handle_trap` is not about to return
  have hnil : StatusOk ts h.sstatus → ts = [] := by
    intro hst
    cases ts with
    | nil => rfl
    | cons t ts =>
        have := (hst t rfl).1
        rw [hsie] at this
        cases this
  cases P with
  | user => cases hc
  | code m => exact ⟨hc.1, hnil hc.2.1⟩
  | wait m w stage =>
      cases stage with
      | called => exact ⟨hc.2, hc.1⟩
      | off => exact ⟨hc.2, hc.1⟩
      | on => exact ⟨hc.2, hc.1⟩
      | restored => exact ⟨hc.2.1, hnil hc.2.2⟩
  | yield m y stage =>
      cases stage with
      | called => exact ⟨hc.2, hc.1⟩
      | masked =>
          have := hc.2.2
          rw [hsie] at this
          cases this
      | switched regs =>
          have := hc.2.1
          rw [hsie] at this
          cases this
      | back =>
          have := hc.2.2
          rw [hsie] at this
          cases this
      | restored => exact ⟨hc.2.1, hnil hc.2.2⟩

/-- **An interrupt in the kernel.** -/
theorem InKernel.interrupt (hk : InKernel L p h P ts) (hu : P.isUser = false) (hp : p < procsMax)
    (hsie : h.sstatus.sie = true) (hn : 8 ≤ n) (hroom : L.low p + (128 + n) ≤ h.regs .sp) :
    InKernel L p (trapIn n h) (.code 0) (⟨n, .external, P, h.pc, h.get⟩ :: ts)
      ∧ ∀ a, a < L.low p ∨ L.high p ≤ a → (trapIn n h).mem a = h.mem a := by
  obtain ⟨hs, hres⟩ := hk.csrs.interrupted hsie
  have htop := hk.stack.chain.le_high
  have hlt := high_lt (L := L) hp
  have he := kernelEntry_kernel h.trap
    (by show decide (h.mode = .supervisor) = true; rw [hk.mode]; rfl) hs
    (by show 128 ≤ h.regs .sp; omega) (by show h.regs .sp < _; omega)
  have he : Entered h.trap _ (h.regs .sp - 128) := he
  obtain ⟨hf, hout, hsp⟩ := trapIn_frame .external P he hn (by omega)
  obtain ⟨hm, hc⟩ := trapIn_csrs (L := L) (n := n) ts he
    (t := ⟨n, .external, P, h.pc, h.get⟩) rfl
    (by show decide (h.mode = .supervisor) = !P.isUser; rw [hk.mode, hu]; rfl)
  have hF : h.regs .sp - 128 - n + 0 + n + 128 = h.regs .sp := by omega
  have hstack : OnStack L p (trapIn n h).mem (h.regs .sp) P ts :=
    hk.stack.congr fun a ha _ => hout a (by omega)
  refine ⟨⟨hm, ⟨?_, trivial, ?_⟩, hc⟩, fun a ha => hout a (by omega)⟩
  · show L.low p ≤ (handleTrapBegin n _).regs .sp
    rw [hsp]
    omega
  · show Chain L p _ ((handleTrapBegin n _).regs .sp + 0) _
    rw [hsp]
    refine ⟨hf, ?_⟩
    dsimp only
    rw [hu, if_neg (by decide), hF]
    exact ⟨rfl, rfl, hres, hstack.locals, hstack.chain⟩

/-! ## Returning from a trap -/

/-- Where the interrupted code goes on. -/
def resumePc (t : Trapped) : Nat :=
  match t.cause with
  | .ecall => u32 (t.pc + 4)
  | .external => t.pc

/-- The registers are those of the trap, but for `a0` after a system call. -/
def Restores (t : Trapped) (h : Hart) : Prop :=
  h.pc = resumePc t ∧ ∀ r, ¬ (t.cause = .ecall ∧ r = .a0) → h.get r = t.regs r

/-- `handle_trap` ends with the frame of `kernel_entry` on the stack. -/
theorem handleTrapEnd_spec (h : Hart) {t : Trapped} (hf : FrameOk h.mem (h.regs .sp) t)
    (hepc : t.cause = .external → h.sepc = t.pc) :
    (handleTrapEnd t.frame t.cause h).regs .sp = h.regs .sp + t.frame
      ∧ (handleTrapEnd t.frame t.cause h).sepc = resumePc t
      ∧ (handleTrapEnd t.frame t.cause h).mem = h.mem
      ∧ (handleTrapEnd t.frame t.cause h).sstatus = h.sstatus
      ∧ (handleTrapEnd t.frame t.cause h).sscratch = h.sscratch := by
  unfold resumePc
  cases hc : t.cause with
  | ecall =>
      refine ⟨rfl, ?_, rfl, rfl, rfl⟩
      show u32 (h.mem (h.regs .sp) + 4) = u32 (t.pc + 4)
      rw [hf.userPc]
  | external => exact ⟨rfl, hepc hc, rfl, rfl, rfl⟩

/-- The frame gives back what was stored in it. -/
theorem Exited.restores {h1 : Hart} {t : Trapped} {T : Nat} (he : Exited h1 h' (T + t.frame))
    (hf : FrameOk h1.mem T t) (hepc : h1.sepc = resumePc t) (hsp : h'.get .sp = t.regs .sp) :
    Restores t h' := by
  refine ⟨he.pc.trans hepc, fun r hr => ?_⟩
  by_cases hz : r = .zero
  · rw [hz, hf.zero]
    rfl
  by_cases hs : r = .sp
  · rw [hs, hsp]
  obtain ⟨i, hi⟩ := mem_trapRegs r hz hs
  rw [he.restored i r hi]
  exact (hf.regs i r hi).resolve_left hr

/-- **A return to user mode.** -/
theorem InKernel.ret_user {t : Trapped} (hk : InKernel L p h (.code 0) (t :: ts))
    (hp : p < procsMax) (hu : t.point.isUser = true) :
    InUser L p (trapOut t.frame t.cause h) ts ∧ Restores t (trapOut t.frame t.cause h)
      ∧ (trapOut t.frame t.cause h).mem = h.mem := by
  obtain ⟨_, hst, hepc⟩ := hk.csrs
  obtain ⟨hf, hlink⟩ := hk.stack.chain
  rw [if_pos hu] at hlink
  obtain ⟨hslot, hnil, htop⟩ := hlink
  have hlt := high_lt (L := L) hp
  have hf : FrameOk h.mem (h.regs .sp) t := hf
  have htop : h.regs .sp + t.frame + 128 = L.high p := htop
  obtain ⟨h1, h2, h3, h4, _⟩ := handleTrapEnd_spec h hf (hepc t rfl)
  obtain ⟨he, hesp, hescr, hemode⟩ := kernelExit_user _ h1
    (by rw [h4, (hst t rfl).2, hu]; rfl) (by omega)
  rw [h3] at hesp
  refine ⟨⟨hnil, hslot, hemode, ?_⟩, ?_, he.mem.trans h3⟩
  · exact hescr.trans (htop.trans (high_eq hslot))
  · exact he.restores (h3.symm ▸ hf) h2 (hesp.trans hf.sp)

/-- What was resumed finds the supervisor registers in order. -/
theorem Resumable.csrs {P : Point} (hr : Resumable ts P) (hs : h.sscratch = 0) : Csrs L h ts P := by
  cases P with
  | user => cases hr
  | code m =>
      have hr : ts = [] := hr
      subst hr
      exact ⟨hs, nofun, nofun⟩
  | wait m w stage =>
      cases stage with
      | called => exact ⟨hr, hs⟩
      | off => exact ⟨hr, hs⟩
      | on => exact ⟨hr, hs⟩
      | restored =>
          have hr : ts = [] := hr
          subst hr
          exact ⟨nofun, hs, nofun⟩
  | yield m y stage =>
      cases stage with
      | called => exact ⟨hr, hs⟩
      | restored =>
          have hr : ts = [] := hr
          subst hr
          exact ⟨nofun, hs, nofun⟩
      | masked => cases hr
      | switched regs => cases hr
      | back => cases hr

/-- **A return into the kernel.** -/
theorem InKernel.ret_kernel {t : Trapped} (hk : InKernel L p h (.code 0) (t :: ts))
    (hp : p < procsMax) (hu : t.point.isUser = false) :
    InKernel L p (trapOut t.frame t.cause h) t.point ts ∧ Restores t (trapOut t.frame t.cause h)
      ∧ (trapOut t.frame t.cause h).mem = h.mem := by
  obtain ⟨hscr, hst, hepc⟩ := hk.csrs
  have hlow := hk.stack.low
  obtain ⟨hf, hlink⟩ := hk.stack.chain
  rw [if_neg (by rw [hu]; decide)] at hlink
  obtain ⟨_, hsp, hres, hloc, hch⟩ := hlink
  have hlt := high_lt (L := L) hp
  have htop := hch.le_high
  have hf : FrameOk h.mem (h.regs .sp) t := hf
  have hsp : t.regs .sp = h.regs .sp + t.frame + 128 := hsp
  have htop : h.regs .sp + t.frame + 128 + pointSize t.point ≤ L.high p := htop
  obtain ⟨h1, h2, h3, h4, h5⟩ := handleTrapEnd_spec h hf (hepc t rfl)
  obtain ⟨he, hesp, hescr, hemode⟩ := kernelExit_kernel _ h1
    (by rw [h4, (hst t rfl).2, hu]; rfl) (by omega)
  have hmem := he.mem.trans h3
  refine ⟨⟨hemode, ?_, hres.csrs (hescr.trans (h5.trans hscr))⟩, ?_, hmem⟩
  · show OnStack L p (run kernelExit none _).mem ((run kernelExit none _).regs .sp) _ _
    rw [hmem, hesp]
    exact ⟨by omega, hloc, hch⟩
  · exact he.restores (h3.symm ▸ hf) h2 (hesp.trans hsp.symm)

end

/-! ## The C code -/

section

variable {h h' : Hart} {p m : Nat} {ts : List Trapped} {P : Point}

/-- Registers other than the stack pointer do not matter to C code. -/
theorem InKernel.work (hk : InKernel L p h P ts) (hP : P.inC) {regs : Reg → Nat} {pc : Nat}
    (hsp : regs .sp = h.regs .sp) : InKernel L p { h with regs := regs, pc := pc } P ts := by
  refine ⟨hk.mode, ?_, ?_⟩
  · show OnStack L p h.mem (regs .sp) P ts
    rw [hsp]
    exact hk.stack
  · have hc := hk.csrs
    cases P with
    | user => cases hP
    | code m => exact hc
    | wait m w stage => cases stage <;> exact hc
    | yield m y stage =>
        cases stage with
        | switched regs => cases hP
        | _ => exact hc

/-- Code of the kernel uses more or less of its stack, and writes to it. -/
theorem InKernel.stack_move (hk : InKernel L p h (.code m) ts) {m' : Nat} {regs : Reg → Nat}
    {mem : Nat → Nat} (hsp : regs .sp + m' = h.regs .sp + m) (hlow : L.low p ≤ regs .sp)
    (hmem : ∀ a, a < L.low p ∨ h.regs .sp + m ≤ a → mem a = h.mem a) :
    InKernel L p { h with regs := regs, mem := mem } (.code m') ts :=
  ⟨hk.mode, hk.stack.move hsp hlow trivial fun a ha _ => hmem a (Or.inr ha), hk.csrs⟩

/-- `f->a0` is in the frame of `kernel_entry`, and nothing else is written. -/
theorem InKernel.result {t : Trapped} (hk : InKernel L p h (.code m) (t :: ts))
    (hc : t.cause = .ecall) (v : Nat) :
    InKernel L p (h.store (h.mem (h.regs .sp + m + 4) + 4 * 10) v) (.code m) (t :: ts)
      ∧ ∀ a, a < L.low p ∨ L.high p ≤ a →
        (h.store (h.mem (h.regs .sp + m + 4) + 4 * 10) v).mem a = h.mem a := by
  have hlow := hk.stack.low
  obtain ⟨hf, hlink⟩ := hk.stack.chain
  have hf : FrameOk h.mem (h.regs .sp + m) t := hf
  have hu : t.point.isUser = true := by
    by_contra hu
    rw [if_neg hu, hc] at hlink
    cases hlink.1
  have hlink' := hlink
  rw [if_pos hu] at hlink'
  have htop : h.regs .sp + m + t.frame + 128 = L.high p := hlink'.2.2
  have hsize := hf.size
  rw [hf.f]
  have hframe : FrameOk (Function.update h.mem (h.regs .sp + m + t.frame + 4 * 10) v)
      (h.regs .sp + m) t := by
    refine ⟨hf.size, ?_, ?_, fun i r hi => ?_, ?_, hf.zero⟩
    · rw [Function.update_of_ne (by omega)]; exact hf.userPc
    · rw [Function.update_of_ne (by omega)]; exact hf.f
    · by_cases hi10 : i = 10
      · subst hi10
        cases hi
        exact Or.inl ⟨hc, rfl⟩
      · rw [Function.update_of_ne (by omega)]
        exact hf.regs i r hi
    · rw [Function.update_of_ne (by omega)]; exact hf.sp
  refine ⟨⟨hk.mode, ⟨hlow, trivial, hframe, ?_⟩, hk.csrs⟩, fun a ha => ?_⟩
  · rw [if_pos hu]
    exact hlink'
  · exact Function.update_of_ne (by omega) ..

/-- `wait_for_interrupt` is called. -/
theorem InKernel.waitCall (hk : InKernel L p h (.code m) ts) {w : Nat} (hw : MayWait ts)
    (hsize : 8 ≤ w) (hroom : L.low p + w ≤ h.regs .sp) :
    InKernel L p (waitBegin w h) (.wait m w .called) ts
      ∧ ∀ a, a < L.low p ∨ L.high p ≤ a → (waitBegin w h).mem a = h.mem a := by
  obtain ⟨hscr, hst, _⟩ := hk.csrs
  have htop : h.regs .sp + m ≤ L.high p := hk.stack.chain.le_high
  have hout : ∀ a, a < h.regs .sp - w ∨ h.regs .sp ≤ a → (waitBegin w h).mem a = h.mem a := by
    intro a ha
    show Function.update (Function.update h.mem (h.regs .sp - w) _) (h.regs .sp - w + 4) _ a = _
    rw [Function.update_of_ne (by omega), Function.update_of_ne (by omega)]
  refine ⟨⟨hk.mode, hk.stack.move ?_ ?_ ⟨hsize, h.sstatus, ?_, ?_, hst⟩ ?_, hw, hscr⟩, ?_⟩
  · show h.regs .sp - w + (m + w) = h.regs .sp + m
    omega
  · show L.low p ≤ h.regs .sp - w
    omega
  · show Function.update (Function.update h.mem (h.regs .sp - w) _) (h.regs .sp - w + 4) _
      (h.regs .sp - w) = _
    rw [Function.update_of_ne (by omega)]
    exact Function.update_self ..
  · exact Function.update_self ..
  · intro a ha _
    have ha : h.regs .sp + m ≤ a := ha
    exact hout a (by omega)
  · intro a ha
    exact hout a (by omega)

/-- `yield` is called. -/
theorem InKernel.yieldCall (hk : InKernel L p h (.code m) ts) {y : Nat} (hw : MayWait ts)
    (hsize : 4 ≤ y) (hroom : L.low p + y ≤ h.regs .sp) :
    InKernel L p (yieldBegin y h) (.yield m y .called) ts
      ∧ ∀ a, a < L.low p ∨ L.high p ≤ a → (yieldBegin y h).mem a = h.mem a := by
  obtain ⟨hscr, hst, _⟩ := hk.csrs
  have htop : h.regs .sp + m ≤ L.high p := hk.stack.chain.le_high
  have hout : ∀ a, a < h.regs .sp - y ∨ h.regs .sp ≤ a → (yieldBegin y h).mem a = h.mem a := by
    intro a ha
    exact Function.update_of_ne (by show a ≠ h.regs .sp - y; omega) ..
  refine ⟨⟨hk.mode, hk.stack.move ?_ ?_ ⟨hsize, h.sstatus, ?_, hst⟩ ?_, hw, hscr⟩, ?_⟩
  · show h.regs .sp - y + (m + y) = h.regs .sp + m
    omega
  · show L.low p ≤ h.regs .sp - y
    omega
  · exact Function.update_self ..
  · intro a ha _
    have ha : h.regs .sp + m ≤ a := ha
    exact hout a (by omega)
  · intro a ha
    exact hout a (by omega)

/-- A function of the kernel returns to the code that called it. -/
theorem OnStack.ret {mem : Nat → Nat} {sp n : Nat} (hs : OnStack L p mem sp P ts)
    (hsize : pointSize P = m + n) : OnStack L p mem (sp + n) (.code m) ts := by
  refine hs.move ?_ (Nat.le_trans hs.low (Nat.le_add_right _ _)) trivial fun _ _ _ => rfl
  rw [hsize]
  show sp + n + m = _
  omega

theorem mayWait_epcOk (hw : MayWait ts) : EpcOk ts h := by
  intro t ht hc
  rw [hw t ht] at hc
  cases hc

end

/-! ## Switching -/

section

variable {h : Hart} {p q m y : Nat} {ts : List Trapped}

/-- Where `switch_context` will find the stack pointer of a process it can continue. -/
theorem Suspended.savedSp {mem : Nat → Nat} {c : Control} (hs : Suspended L q mem c)
    (hc : Switchable c) : L.low q ≤ mem (spField L.toLayout q)
      ∧ mem (spField L.toLayout q) + 52 ≤ L.high q := by
  cases c with
  | unused => cases hc
  | fresh =>
      obtain ⟨_, sp, h1, h2, h3, _⟩ := hs
      rw [h1]
      exact ⟨h2, h3⟩
  | live P ts =>
      obtain ⟨_, _, _, sp, _, h1, h2, _, _, _, _, h7⟩ := hs
      have htop := h7.chain.le_high
      rw [h1]
      exact ⟨h2, by omega⟩

/-- The effect of `switch_context` as `yield` calls it. -/
theorem InKernel.switched (hk : InKernel L p h (.yield m y .masked) ts) (hp : p < procsMax)
    (hq : q < procsMax) (hne : q ≠ p) (hroom : L.low p + 13 * 4 ≤ h.regs .sp) {c : Control}
    (hs : Suspended L q h.mem c) (hc : Switchable c) :
    Switched (switchArgs L p q h) (run switchContext none (switchArgs L p q h)) (h.regs .sp - 52)
      (h.mem (spField L.toLayout q)) := by
  have hlt := high_lt (L := L) hp
  have hltq := high_lt (L := L) hq
  have htop : h.regs .sp + (m + y) ≤ L.high p := hk.stack.chain.le_high
  obtain ⟨_, hN⟩ := hs.savedSp hc
  have hoff := spField_off (L := L) hp hp
  have hoffq := spField_off (L := L) hq hp
  refine switchContext_spec (switchArgs L p q h) ?_ ?_ ?_ ?_ ?_ ?_ ?_ rfl ?_
  · show h.regs .sp = h.regs .sp - 52 + 52
    omega
  · omega
  · exact spField_lt hp
  · exact spField_lt hq
  · show spField L.toLayout p < _ ∨ _ ≤ spField L.toLayout p
    omega
  · show spField L.toLayout q < _ ∨ _ ≤ spField L.toLayout q
    omega
  · exact spField_ne hne
  · omega

/-- **The process that yields can be continued.** -/
theorem InKernel.suspend (hk : InKernel L p h (.yield m y .masked) ts) (hp : p < procsMax)
    {h' : Hart} {N : Nat} (hroom : L.low p + 13 * 4 ≤ h.regs .sp)
    (hsw : Switched (switchArgs L p q h) h' (h.regs .sp - 52) N) {c : Control}
    (hc : Leaves (.yield m y (.switched (switchArgs L p q h).get)) ts c) :
    Suspended L p h'.mem c := by
  obtain ⟨hw, _, _⟩ := hk.csrs
  have htop : h.regs .sp + (m + y) ≤ L.high p := hk.stack.chain.le_high
  have hoff := spField_off (L := L) hp hp
  rcases hc with rfl | ⟨rfl, t, ts', rfl, hcause⟩
  · refine ⟨m, y, _, h.regs .sp - 52, rfl, hsw.savedSp, by omega, hsw.saved, rfl, ?_, hw, ?_⟩
    · show h.regs .sp = h.regs .sp - 52 + 52
      omega
    rw [show h.regs .sp - 52 + 52 = h.regs .sp by omega]
    have hstack : OnStack L p h.mem (h.regs .sp)
        (.yield m y (.switched (switchArgs L p q h).get)) ts :=
      hk.stack.move rfl hk.stack.low hk.stack.locals fun _ _ _ => rfl
    refine hstack.congr fun a ha hb => ?_
    exact hsw.outside a (by show a ≠ spField L.toLayout p; omega) (by omega)
  · -- only a process in a system call exits, and that is not `idle_proc`
    obtain ⟨_, hlink⟩ := hk.stack.chain
    split at hlink
    · exact hlink.1
    · rw [hcause] at hlink
      cases hlink.1

/-- **The next process goes on where it was.** -/
theorem Suspended.resume {h' : Hart} {P : Nat} {c : Control} (hs : Suspended L q h.mem c)
    (hc : Switchable c)
    (hsw : Switched (switchArgs L p q h) h' P (h.mem (spField L.toLayout q)))
    (hmem : ∀ a, L.low q ≤ a → a < L.high q → h'.mem a = h.mem a)
    (hmode : h.mode = .supervisor) (hsie : h.sstatus.sie = false) : Running L q h' c := by
  have hmode' : h'.mode = .supervisor := hsw.mode.trans hmode
  have hsie' : h'.sstatus.sie = false := by rw [hsw.sstatus]; exact hsie
  cases c with
  | unused => cases hc
  | fresh =>
      obtain ⟨h0, sp, h1, h2, h3, h4⟩ := hs
      refine ⟨h0, hmode', hsie', hsw.sscratch, ?_⟩
      rw [hsw.pc, h1, hmem sp h2 (by omega), h4]
  | live P' ts' =>
      obtain ⟨m', y', regs, sp, rfl, h1, h2, h3, h4, h5, h6, h7⟩ := hs
      have htop := h7.chain.le_high
      have hregs : ∀ (i : Nat) (r : Reg), calleeSaved[i]? = some r → h'.regs r = regs r := by
        intro i r hi
        have hlt := lt_of_calleeSaved hi
        rw [hsw.restored i r hi, h1, hmem _ (by omega) (by omega)]
        exact h3 i r hi
      refine ⟨hmode', ?_, h6, hsie', ?_, ?_, ?_⟩
      · rw [hsw.sp, h1]
        exact h7.congr fun a ha hb => hmem a (by omega) hb
      · rw [hsw.pc, h1, hmem sp h2 (by omega), ← h4]
        exact h3 0 .ra rfl
      · rw [h5, ← h1]
        exact hsw.sp
      · intro r hr
        obtain ⟨i, hi, he⟩ := List.getElem_of_mem hr
        exact hregs i r (by rw [List.getElem?_eq_getElem hi, he])

end

/-! ## New processes -/

/-- The initial context is on the stack of the new process. -/
theorem stackContext_spec {p : Nat} (mem : Nat → Nat) (hp : p < procsMax) (h0 : p ≠ idleSlot) :
    stackContext L p mem (spField L.toLayout p) = L.high p - 52
      ∧ stackContext L p mem (L.high p - 52) = L.userEntry
      ∧ ∀ a, a ≠ spField L.toLayout p → a < L.low p ∨ L.high p ≤ a →
        stackContext L p mem a = mem a := by
  have hroom := low_le_high (L := L) (p := p)
  have hoff := spField_off (L := L) hp hp
  unfold stackContext
  rw [← high_eq h0]
  obtain ⟨h1, h2⟩ := loop_inv
    (f := fun mem i => Function.update mem (L.high p - 52 + 4 * i) ((initialContext L).getD i 0))
    (fun i mem' => (0 < i → mem' (L.high p - 52) = L.userEntry)
      ∧ ∀ a, a < L.low p ∨ L.high p ≤ a → mem' a = mem a) (s := mem) 13
    ⟨nofun, fun _ _ => rfl⟩ fun i mem' hi ⟨ih1, ih2⟩ => by
      refine ⟨fun _ => ?_, fun a ha => ?_⟩
      · cases i with
        | zero => exact Function.update_self ..
        | succ i =>
            rw [Function.update_of_ne (by omega)]
            exact ih1 (Nat.succ_pos i)
      · rw [Function.update_of_ne (by omega)]
        exact ih2 a ha
  refine ⟨Function.update_self .., ?_, fun a ha hr => ?_⟩
  · show Function.update _ _ _ _ = _
    rw [Function.update_of_ne (by omega)]
    exact h1 (by decide)
  · show Function.update _ _ _ _ = _
    rw [Function.update_of_ne ha]
    exact h2 a hr

/-- `user_entry` leads to user mode. -/
theorem userEntry_spec (h : Hart) : (run userEntry none h).mode = .user
    ∧ (run userEntry none h).sscratch = h.sscratch ∧ (run userEntry none h).mem = h.mem := by
  have hrun : run userEntry none h = Hart.sret ((((h.set .a0 userBase).set .a1
      (2 ^ 5 + 2 ^ 18)).setCsr .sepc userBase).setCsr .sstatus (2 ^ 5 + 2 ^ 18)) := rfl
  rw [hrun]
  refine ⟨?_, rfl, rfl⟩
  show (if (Sstatus.ofWord (2 ^ 5 + 2 ^ 18)).spp then Priv.supervisor else .user) = .user
  decide

end Os1000.Proof
