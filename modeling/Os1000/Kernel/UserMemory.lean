import Os1000.Kernel.Process

/-!
# User programs

Between two calls a process runs in user mode, where it reads and writes memory through its
page table. A byte is reached if the walk ends in a leaf word that has the U bit and the
permission for the access; otherwise the access traps, and `handle_trap` panics. What a
program computes does not matter here: it may read and write whatever it reaches, whenever
it runs. Wider accesses are several of these.

The accessed and dirty bits, which the hardware may set in a leaf word and the kernel never
looks at, are not part of the model.
-/

namespace Os1000

open Lib

/--
The physical address that an access in user mode at `vaddr` reaches, if it needs the
permission `perm`. A leaf word of the first level maps four megabytes.
-/
def userAddr (m : Mem) (root vaddr perm : Nat) : Option Nat :=
  match walk m root vaddr with
  | none => none
  | some e =>
    if e &&& pageU = 0 ∨ e &&& perm = 0 then none
    else if load32 m (root + 4 * vpn1 vaddr) &&& (pageR ||| pageW ||| pageX) ≠ 0 then
      some (ptePage e + vaddr % 2 ^ 22)
    else some (ptePage e + vaddr % pageSize)

/--
The physical address that an access of the kernel at `vaddr` reaches. `user_entry` sets
`sstatus.SUM`, so the kernel may read and write user pages; it can never execute them.
-/
def supervisorAddr (m : Mem) (root vaddr perm : Nat) : Option Nat :=
  match walk m root vaddr with
  | none => none
  | some e =>
    if e &&& perm = 0 ∨ (perm = pageX ∧ e &&& pageU ≠ 0) then none
    else if load32 m (root + 4 * vpn1 vaddr) &&& (pageR ||| pageW ||| pageX) ≠ 0 then
      some (ptePage e + vaddr % 2 ^ 22)
    else some (ptePage e + vaddr % pageSize)

/-- Process `p` reads a byte. -/
def userLoad (k : Kernel) (p vaddr : Nat) : Option UInt8 :=
  (userAddr k.mem (k.procs p).pageTable vaddr pageR).map k.mem

/-- Process `p` writes a byte. -/
def userStore (k : Kernel) (p vaddr : Nat) (b : UInt8) : Option Kernel :=
  (userAddr k.mem (k.procs p).pageTable vaddr pageW).map fun a =>
    { k with mem := Function.update k.mem a b }

/-- What happens: a call into the kernel, or a byte written in user mode. -/
inductive UserEvent where
  | call (e : Event)
  | store (p vaddr : Nat) (b : UInt8)

/-- One call that returned, or one write that did not trap. -/
inductive UserStep (L : Layout) : Kernel → UserEvent → Kernel → Prop where
  | call {k k' : Kernel} {e : Event} : Step L k e k' → UserStep L k (.call e) k'
  | store {k k' : Kernel} {p vaddr : Nat} {b : UInt8} :
      Live k p → vaddr < 2 ^ 32 → userStore k p vaddr b = some k' →
      UserStep L k (.store p vaddr b) k'

end Os1000
