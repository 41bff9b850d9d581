import Os1000.Kernel.State
import Os1000.Lib.Riscv

/-!
# Traps (`kernel_entry`, `handle_trap`, `yield`, `switch_context`, `user_entry`)

The register side of the kernel: how it is entered and left, and how `yield` moves from
one kernel stack to another. The assembler is given instruction by instruction and runs
on a hart with real registers and memory; nothing can interrupt it, since interrupts are
off wherever it runs.

The C code around it is known by what the calling convention promises. It keeps its
locals on the stack it runs on, leaves alone what was on that stack before it was
called, and gives the stack pointer back where it found it. How large its frames are is
up to the compiler, so frames have any size. The stacks are assumed to be large enough:
a step that would leave its stack is not taken. What C code does with the other
registers, and with its own part of the stack, is left open. Programs do not reach the
stacks of the kernel at all; the only memory modelled are these stacks and `proc->sp`.

* `kernel_main` runs on the boot stack, with interrupts on, and is what `idle_proc` stands
  for once it has yielded.
* `handle_trap` keeps `user_pc` and `f`; `handle_syscall` may write `f->a0`, wait, yield,
  or start a process; the interrupt handlers do none of this.
* `wait_for_interrupt` and `yield` keep `sstatus`.

Exceptions other than system calls, and interrupts other than external ones, end in
`PANIC` and are left out.
-/

namespace Os1000

open Lib

/-! ## Where the stacks are -/

/-- The size of the boot stack, `128 * 1024`. -/
def bootStackSize : Nat := 0x20000

/-- A layout, with the boot stack and the place in `yield` that `switch_context` returns to. -/
structure StackLayout extends Layout where
  /-- `__stack_top` -/
  bootTop : Nat
  /-- The return address of the call of `switch_context`, in `.text`. -/
  yieldReturn : Nat
  boot_ge : procs + procsMax * sizeofProcess + bootStackSize ≤ bootTop
  boot_le : bootTop ≤ freeRam
  yieldReturn_ne : yieldReturn ≠ userEntry

/-- A layout the linker script can produce. -/
def sampleStacks : StackLayout where
  toLayout := sampleLayout
  bootTop := 0x80260000
  yieldReturn := 0x80203000
  boot_ge := by decide
  boot_le := by decide
  yieldReturn_ne := by decide

/-- The slot of `idle_proc`. -/
def idleSlot : Nat := 0

/-- `&procs[p].sp` -/
def spField (L : Layout) (p : Nat) : Nat := L.procs + p * sizeofProcess + 8

/-- The lowest address of the stack that slot `p` runs on in the kernel. -/
def StackLayout.low (L : StackLayout) (p : Nat) : Nat :=
  if p = idleSlot then L.bootTop - bootStackSize else stackBase L.toLayout p

/-- The end of that stack. -/
def StackLayout.high (L : StackLayout) (p : Nat) : Nat :=
  if p = idleSlot then L.bootTop else stackTop L.toLayout p

/-! ## The assembler -/

/-- `SSTATUS_SPP` -/
def sstatusSpp : Nat := 2 ^ 8

/-- The registers `kernel_entry` stores, in the order of `struct trap_frame`. -/
def trapRegs : List Reg :=
  [.ra, .gp, .tp, .t0, .t1, .t2, .t3, .t4, .t5, .t6, .a0, .a1, .a2, .a3, .a4, .a5, .a6, .a7,
    .s0, .s1, .s2, .s3, .s4, .s5, .s6, .s7, .s8, .s9, .s10, .s11]

/-- The registers `switch_context` stores. -/
def calleeSaved : List Reg :=
  [.ra, .s0, .s1, .s2, .s3, .s4, .s5, .s6, .s7, .s8, .s9, .s10, .s11]

/-- The part of `kernel_entry` that saves the interrupted stack pointer. -/
def entrySp : List Instr :=
  [.csrr .t0 .sstatus,
    .andi .t0 .t0 sstatusSpp,
    .bnez .t0 2,
    .csrr .a0 .sscratch,
    .sw .a0 (4 * 30) .sp,
    .csrw .sscratch .zero,
    .j 3,
    .label 2,
    .addi .a0 .sp (4 * 32),
    .sw .a0 (4 * 30) .sp,
    .label 3,
    .mv .a0 .sp]

/-- `kernel_entry` up to the call of `handle_trap`. -/
def kernelEntry : List Instr :=
  [.csrrw .sp .sscratch .sp,
    .bnez .sp 1,
    .csrrw .sp .sscratch .sp,
    .label 1,
    .addi .sp .sp (-(4 * 32))]
  ++ (saves .sp trapRegs 0 ++ entrySp)

/-- The part of `kernel_entry` that returns to user mode. -/
def exitUser : List Instr :=
  [.label 4,
    .addi .t0 .sp (4 * 32),
    .csrw .sscratch .t0]
  ++ (loads .sp trapRegs 0
  ++ [.lw .sp (4 * 30) .sp,
    .sret])

/-- `kernel_entry` after the call of `handle_trap`. -/
def kernelExit : List Instr :=
  [.csrr .t0 .sstatus,
    .andi .t0 .t0 sstatusSpp,
    .beqz .t0 4]
  ++ (loads .sp trapRegs 0
  ++ ([.addi .sp .sp (4 * 32),
    .sret]
  ++ exitUser))

/-- `switch_context` -/
def switchContext : List Instr :=
  [.addi .sp .sp (-(13 * 4))]
  ++ (saves .sp calleeSaved 0
  ++ ([.sw .sp 0 .a0,
    .lw .sp 0 .a1]
  ++ (loads .sp calleeSaved 0
  ++ [.addi .sp .sp (13 * 4),
    .ret])))

/-- `user_entry`. Its operands are loaded into registers the compiler chooses. -/
def userEntry : List Instr :=
  [.li .a0 userBase,
    .li .a1 (2 ^ 5 + 2 ^ 18),
    .csrw .sepc .a0,
    .csrw .sstatus .a1,
    .sret]

/-! ## Where a process is -/

/-- Why a trap was taken. -/
inductive Cause where
  /-- `SCAUSE_ECALL` -/
  | ecall
  /-- `SCAUSE_INTERRUPT` with `SCAUSE_SUPERVISOR_EXT` -/
  | external
deriving DecidableEq, Repr

/-- Where `wait_for_interrupt` is. -/
inductive WaitStage where
  /-- It has read `sstatus`. -/
  | called
  /-- At the test, with interrupts off. -/
  | off
  /-- Between the two writes that open and close the window. -/
  | on
  /-- It has restored `sstatus`. -/
  | restored

/-- Where `yield` is. -/
inductive YieldStage where
  /-- It has read `sstatus`. -/
  | called
  /-- It has turned interrupts off. -/
  | masked
  /-- In `switch_context`, called with these registers (kept for the proofs only). -/
  | switched (regs : Reg → Nat)
  /-- Back from it, with `sscratch` cleared. -/
  | back
  /-- It has restored `sstatus`. -/
  | restored

/-- What a process is doing, or was when it was interrupted. -/
inductive Point where
  /-- It runs its program. -/
  | user
  /-- Code of the kernel that uses `m` bytes of the stack: that of `kernel_main`, or what
  `handle_trap` has called. -/
  | code (m : Nat)
  /-- `wait_for_interrupt` with a frame of `w` bytes, called by such code. -/
  | wait (m w : Nat) (stage : WaitStage)
  /-- `yield` with a frame of `y` bytes, called by such code. -/
  | yield (m y : Nat) (stage : YieldStage)

/-- Whether this is user mode. -/
def Point.isUser : Point → Bool
  | .user => true
  | _ => false

/-- The code of the kernel that is not in the middle of `switch_context`. -/
def Point.inC : Point → Prop
  | .user => False
  | .yield _ _ (.switched _) => False
  | _ => True

/-- A trap that `handle_trap` is working on. -/
structure Trapped where
  /-- The size of the frame of `handle_trap`. -/
  frame : Nat
  cause : Cause
  /-- What was interrupted. -/
  point : Point
  /-- Where it was, and its registers (kept for the proofs only). -/
  pc : Nat
  regs : Reg → Nat

/-- What the kernel stack of a slot is used for: the process has not run yet, or it is at a
point, below the traps it is in, the latest first. -/
inductive Control where
  | unused
  | fresh
  | live (point : Point) (traps : List Trapped)

/-- The machine. Before `init_processes` what runs is slot 0 as well. -/
structure Machine where
  hart : Hart
  current : Nat
  control : Nat → Control

/-! ## The C code -/

/-- `saved_sstatus & ~SSTATUS_SIE` -/
def disabled (st : Sstatus) : Sstatus := { st with sie := false }

/-- The beginning of `handle_trap`: `user_pc` and `f` are in its frame. -/
def handleTrapBegin (n : Nat) (h : Hart) : Hart :=
  let h := h.push n
  (h.store (h.regs .sp) h.sepc).store (h.regs .sp + 4) (h.regs .a0)

/-- The end of `handle_trap`. -/
def handleTrapEnd (n : Nat) (cause : Cause) (h : Hart) : Hart :=
  match cause with
  | .ecall => { h with sepc := u32 (h.mem (h.regs .sp) + 4) }.pop n
  | .external => h.pop n

/-- A trap, up to where `handle_trap` calls a handler. -/
def trapIn (n : Nat) (h : Hart) : Hart := handleTrapBegin n (run kernelEntry none h.trap)

/-- The return from a trap. -/
def trapOut (n : Nat) (cause : Cause) (h : Hart) : Hart :=
  run kernelExit none (handleTrapEnd n cause h)

/-- The beginning of `wait_for_interrupt`: `saved_sstatus` and `disabled_sstatus`. -/
def waitBegin (w : Nat) (h : Hart) : Hart :=
  let h := h.push w
  (h.store (h.regs .sp) h.sstatus.word).store (h.regs .sp + 4) (disabled h.sstatus).word

/-- The beginning of `yield`: `saved_sstatus`. -/
def yieldBegin (y : Nat) (h : Hart) : Hart :=
  let h := h.push y
  h.store (h.regs .sp) h.sstatus.word

/-- `yield` sets `sscratch` and calls `switch_context`. -/
def switchArgs (L : StackLayout) (prev next : Nat) (h : Hart) : Hart :=
  (((h.setCsr .sscratch (stackTop L.toLayout next)).set .a0 (spField L.toLayout prev)).set .a1
    (spField L.toLayout next)).set .ra L.yieldReturn

/-- The words `create_process` writes below the top of the kernel stack, lowest first. -/
def initialContext (L : StackLayout) : List Nat := L.userEntry :: List.replicate 12 0

/-- `create_process`, as far as the kernel stack and `proc->sp` are concerned. -/
def stackContext (L : StackLayout) (p : Nat) (mem : Nat → Nat) : Nat → Nat :=
  let sp := stackTop L.toLayout p - 13 * 4
  let mem := (List.range 13).foldl
    (fun mem i => Function.update mem (sp + 4 * i) ((initialContext L).getD i 0)) mem
  Function.update mem (spField L.toLayout p) sp

/-! ## Steps -/

/-- What is seen of a step: the traps of processes out of user mode, and the returns. -/
inductive TrapLabel where
  | quiet
  /-- Process `p` is trapped at `pc` with these registers. -/
  | trap (p : Nat) (cause : Cause) (pc : Nat) (regs : Reg → Nat)
  /-- Process `p` continues at `pc` with these registers. -/
  | ret (p : Nat) (pc : Nat) (regs : Reg → Nat)

/-- The current process goes on. -/
def Machine.goto (s : Machine) (h : Hart) (point : Point) (traps : List Trapped) : Machine :=
  { s with hart := h, control := Function.update s.control s.current (.live point traps) }

/-- The process that runs is at a point. -/
def Machine.At (s : Machine) (point : Point) (traps : List Trapped) : Prop :=
  s.control s.current = .live point traps

/-- `kernel_main` and `handle_syscall` may wait and yield, interrupt handlers may not. -/
def MayWait (traps : List Trapped) : Prop := ∀ t, traps.head? = some t → t.cause = .ecall

/-- `switch_context` can continue on the stack of such a slot. -/
def Switchable : Control → Prop
  | .fresh => True
  | .live (.yield _ _ (.switched _)) _ => True
  | _ => False

/-- What is left in the slot of a process that yields. -/
def Leaves (point : Point) (traps : List Trapped) (c : Control) : Prop :=
  c = .live point traps
    -- `SYS_EXIT`: the slot is released
    ∨ (c = .unused ∧ ∃ t ts, traps = t :: ts ∧ t.cause = .ecall)

/-- One step of the machine. -/
inductive TrapStep (L : StackLayout) : Machine → TrapLabel → Machine → Prop where
  /-- The program runs. -/
  | user {s : Machine} {traps : List Trapped} {regs : Reg → Nat} {pc : Nat} :
      s.At .user traps → TrapStep L s .quiet (s.goto { s.hart with regs := regs, pc := pc } .user traps)
  /-- A trap out of user mode. -/
  | trap {s : Machine} {traps : List Trapped} {n : Nat} {cause : Cause} :
      s.At .user traps → 8 ≤ n → L.low s.current + (128 + n) ≤ s.hart.sscratch →
      TrapStep L s (.trap s.current cause s.hart.pc s.hart.get)
        (s.goto (trapIn n s.hart) (.code 0) (⟨n, cause, .user, s.hart.pc, s.hart.get⟩ :: traps))
  /-- An interrupt in supervisor mode. -/
  | interrupt {s : Machine} {point : Point} {traps : List Trapped} {n : Nat} :
      s.At point traps → point.isUser = false → s.hart.sstatus.sie = true → 8 ≤ n →
      L.low s.current + (128 + n) ≤ s.hart.regs .sp →
      TrapStep L s .quiet
        (s.goto (trapIn n s.hart) (.code 0) (⟨n, .external, point, s.hart.pc, s.hart.get⟩ :: traps))
  /-- C code works in registers. -/
  | work {s : Machine} {point : Point} {traps : List Trapped} {regs : Reg → Nat} {pc : Nat} :
      s.At point traps → point.inC → regs .sp = s.hart.regs .sp →
      TrapStep L s .quiet (s.goto { s.hart with regs := regs, pc := pc } point traps)
  /-- It calls and returns, and writes its part of the stack. -/
  | stack {s : Machine} {m m' : Nat} {traps : List Trapped} {regs : Reg → Nat} {mem : Nat → Nat} :
      s.At (.code m) traps → regs .sp + m' = s.hart.regs .sp + m → L.low s.current ≤ regs .sp →
      (∀ a, a < L.low s.current ∨ s.hart.regs .sp + m ≤ a → mem a = s.hart.mem a) →
      TrapStep L s .quiet (s.goto { s.hart with regs := regs, mem := mem } (.code m') traps)
  /-- `f->a0 = v` -/
  | result {s : Machine} {m v : Nat} {t : Trapped} {traps : List Trapped} :
      s.At (.code m) (t :: traps) → t.cause = .ecall →
      TrapStep L s .quiet
        (s.goto (s.hart.store (s.hart.mem (s.hart.regs .sp + m + 4) + 4 * 10) v) (.code m) (t :: traps))
  | waitCall {s : Machine} {m w : Nat} {traps : List Trapped} :
      s.At (.code m) traps → MayWait traps → 8 ≤ w → L.low s.current + w ≤ s.hart.regs .sp →
      TrapStep L s .quiet (s.goto (waitBegin w s.hart) (.wait m w .called) traps)
  | waitOff {s : Machine} {m w : Nat} {traps : List Trapped} :
      s.At (.wait m w .called) traps ∨ s.At (.wait m w .on) traps →
      TrapStep L s .quiet
        (s.goto (s.hart.setCsr .sstatus (s.hart.mem (s.hart.regs .sp + 4))) (.wait m w .off) traps)
  | waitOn {s : Machine} {m w : Nat} {traps : List Trapped} :
      s.At (.wait m w .off) traps →
      TrapStep L s .quiet
        (s.goto
          (s.hart.setCsr .sstatus
            { Sstatus.ofWord (s.hart.mem (s.hart.regs .sp + 4)) with sie := true }.word)
          (.wait m w .on) traps)
  | waitRestore {s : Machine} {m w : Nat} {traps : List Trapped} :
      s.At (.wait m w .off) traps →
      TrapStep L s .quiet
        (s.goto (s.hart.setCsr .sstatus (s.hart.mem (s.hart.regs .sp))) (.wait m w .restored) traps)
  | waitRet {s : Machine} {m w : Nat} {traps : List Trapped} :
      s.At (.wait m w .restored) traps →
      TrapStep L s .quiet (s.goto (s.hart.pop w) (.code m) traps)
  | yieldCall {s : Machine} {m y : Nat} {traps : List Trapped} :
      s.At (.code m) traps → MayWait traps → 4 ≤ y → L.low s.current + y ≤ s.hart.regs .sp →
      TrapStep L s .quiet (s.goto (yieldBegin y s.hart) (.yield m y .called) traps)
  | yieldMask {s : Machine} {m y : Nat} {traps : List Trapped} :
      s.At (.yield m y .called) traps →
      TrapStep L s .quiet
        (s.goto
          (s.hart.setCsr .sstatus (disabled (.ofWord (s.hart.mem (s.hart.regs .sp)))).word)
          (.yield m y .masked) traps)
  /-- `switch_context`. Any other process may be the next one. -/
  | yieldSwitch {s : Machine} {m y next : Nat} {traps : List Trapped} {c : Control} :
      s.At (.yield m y .masked) traps → next < procsMax → next ≠ s.current →
      Switchable (s.control next) → L.low s.current + 13 * 4 ≤ s.hart.regs .sp →
      Leaves (.yield m y (.switched (switchArgs L s.current next s.hart).get)) traps c →
      TrapStep L s .quiet
        { hart := run switchContext none (switchArgs L s.current next s.hart), current := next,
          control := Function.update s.control s.current c }
  /-- `switch_context` returns to `user_entry`. -/
  | firstEntry {s : Machine} :
      s.control s.current = .fresh → s.hart.pc = L.userEntry →
      TrapStep L s .quiet (s.goto (run userEntry none s.hart) .user [])
  /-- `switch_context` returns to `yield`. -/
  | yieldBack {s : Machine} {m y : Nat} {regs : Reg → Nat} {traps : List Trapped} :
      s.At (.yield m y (.switched regs)) traps → s.hart.pc = L.yieldReturn →
      TrapStep L s .quiet (s.goto (s.hart.setCsr .sscratch 0) (.yield m y .back) traps)
  /-- `yield` restores `sstatus`, also when there is no other process to run. -/
  | yieldRestore {s : Machine} {m y : Nat} {traps : List Trapped} :
      s.At (.yield m y .masked) traps ∨ s.At (.yield m y .back) traps →
      TrapStep L s .quiet
        (s.goto (s.hart.setCsr .sstatus (s.hart.mem (s.hart.regs .sp))) (.yield m y .restored) traps)
  | yieldRet {s : Machine} {m y : Nat} {traps : List Trapped} :
      s.At (.yield m y .restored) traps →
      TrapStep L s .quiet (s.goto (s.hart.pop y) (.code m) traps)
  /-- The handler of a trap is done. -/
  | ret {s : Machine} {t : Trapped} {traps : List Trapped} :
      s.At (.code 0) (t :: traps) →
      TrapStep L s
        (if t.point.isUser then
          .ret s.current (trapOut t.frame t.cause s.hart).pc (trapOut t.frame t.cause s.hart).get
        else .quiet)
        (s.goto (trapOut t.frame t.cause s.hart) t.point traps)
  /-- `create_process` -/
  | create {s : Machine} {m p : Nat} {traps : List Trapped} :
      s.At (.code m) traps → MayWait traps → p < procsMax → s.control p = .unused →
      TrapStep L s .quiet
        { s with
          hart := { s.hart with mem := stackContext L p s.hart.mem },
          control := Function.update s.control p .fresh }

/-- `kernel_main`, from where it has enabled interrupts. -/
def TrapStart (L : StackLayout) (s : Machine) : Prop :=
  s.current = idleSlot
    ∧ s.control idleSlot = .live (.code 0) []
    ∧ (∀ p, p ≠ idleSlot → s.control p = .unused)
    ∧ s.hart.mode = .supervisor ∧ s.hart.sscratch = 0
    ∧ L.low idleSlot ≤ s.hart.regs .sp ∧ s.hart.regs .sp ≤ L.high idleSlot

end Os1000
