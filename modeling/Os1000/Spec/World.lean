import Os1000.Kernel.UserMemory

/-!
# What user programs see

The memory that the kernel gives to programs, without a kernel: each process has an array of
bytes of its own from `USER_BASE` on and a window of slots, each slot is empty or shows a
shared object, and an object is a page of bytes. There are no addresses of physical memory,
no page tables and no allocator here; in particular nothing of an object or of an image can
be left over from an earlier one.

The world after a run is a function of what happened in it. An object is named by how many
were created before it, which is its id less one.
-/

namespace Os1000

/-- A process, as its program sees it. -/
structure Task where
  /-- How many pages the image takes. -/
  pages : Nat
  /-- The bytes from `USER_BASE` on. -/
  bytes : Nat → UInt8
  /-- The object that each slot of the window shows. -/
  window : Nat → Option Nat

/-- The processes by their slots, and the bytes of the objects. -/
structure World where
  task : Nat → Option Task
  object : Nat → Nat → UInt8

/-- A byte of user memory: of the image of the process, or of an object. -/
inductive Place where
  | image (off : Nat)
  | object (n off : Nat)

/-- The slot of the window that a virtual address lies in. -/
def windowSlot (vaddr : Nat) : Nat := vaddr / pageSize - shmUserBase / pageSize

/-- Whether a virtual address lies in the window. -/
def InWindow (vaddr : Nat) : Prop :=
  shmUserBase / pageSize ≤ vaddr / pageSize
    ∧ vaddr / pageSize < shmUserBase / pageSize + procShmMax

instance (vaddr : Nat) : Decidable (InWindow vaddr) :=
  inferInstanceAs (Decidable (shmUserBase / pageSize ≤ vaddr / pageSize
    ∧ vaddr / pageSize < shmUserBase / pageSize + procShmMax))

namespace World

/-- The idle process, and no objects. -/
def start : World where
  task p := if p = 0 then some ⟨0, fun _ => 0, fun _ => none⟩ else none
  object _ _ := 0

/-- What a virtual address names. -/
def place (w : World) (p vaddr : Nat) : Option Place :=
  match w.task p with
  | none => none
  | some t =>
    if InWindow vaddr then (t.window (windowSlot vaddr)).map fun n => .object n (vaddr % pageSize)
    else if userBase ≤ vaddr ∧ vaddr < userBase + t.pages * pageSize then
      some (.image (vaddr - userBase))
    else none

/-- The byte at a place of process `p`. -/
def byte (w : World) (p : Nat) : Place → UInt8
  | .image off => (w.task p).elim 0 fun t => t.bytes off
  | .object n off => w.object n off

/-- Process `p` reads a byte. -/
def load (w : World) (p vaddr : Nat) : Option UInt8 := (w.place p vaddr).map (w.byte p)

/-- Change process `p`, if there is one. -/
def setTask (w : World) (p : Nat) (f : Task → Task) : World :=
  { w with task := Function.update w.task p ((w.task p).map f) }

/-- Change the byte at a place of process `p`. -/
def write (w : World) (p : Nat) (b : UInt8) : Place → World
  | .image off => w.setTask p fun t => { t with bytes := Function.update t.bytes off b }
  | .object n off =>
      { w with object := Function.update w.object n (Function.update (w.object n) off b) }

/-- Change a slot of the window of process `p`. -/
def setSlot (w : World) (p i : Nat) (o : Option Nat) : World :=
  w.setTask p fun t => { t with window := Function.update t.window i o }

/-- What a call does. One that failed does nothing. -/
def call (w : World) : Event → World
  | .create image p =>
      let t : Task := ⟨imagePages image.length, fun i => image.getD i 0, fun _ => none⟩
      { w with task := Function.update w.task p (some t) }
  | .shmAttach p id ret =>
      if ret = 0 then w else w.setSlot p (windowSlot ret) (some (id - 1).toNat)
  | .shmDetach p vaddr ret => if ret = 0 then w.setSlot p (windowSlot vaddr) none else w
  | .exit p _ => { w with task := Function.update w.task p none }
  | .shmGet .. => w
  | .yield _ => w

/-- One step. -/
def step (w : World) : UserEvent → World
  | .call e => w.call e
  | .store p vaddr b =>
      match w.place p vaddr with
      | none => w
      | some x => w.write p b x

/-- A store goes to the place that the address names, if it names one. -/
theorem step_store (w : World) (p vaddr : Nat) (b : UInt8) :
    w.step (.store p vaddr b) = (w.place p vaddr).elim w (w.write p b) := by
  simp only [step]
  cases w.place p vaddr with
  | none => rfl
  | some x => rfl

/-- The world after everything in `tr` has happened. -/
def after (tr : List UserEvent) : World := tr.foldl step start

end World

end Os1000
