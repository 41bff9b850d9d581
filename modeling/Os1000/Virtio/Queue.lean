import Os1000.Layout
import Mathlib.Logic.Function.Basic
import Mathlib.Data.List.Basic

/-!
# Virtqueues (`kernel/virtio.c`)

A virtqueue is memory that the driver and a device share: a table of descriptors, a
ring in which the driver makes descriptors available, and a ring in which the device
gives them back. All counters are `uint16_t` and wrap.

`virtq_push` and `virtq_pop_used` are not atomic, the device runs on at the same time.
So each is given as the accesses it consists of, in the order the barriers enforce,
besides the whole function.

The device is assumed to keep to the rules of split virtqueues: it takes available
entries in order, and completes a descriptor it holds by writing the next used slot
and then raising the used index.
-/

namespace Os1000

/-- Truncation to `uint16_t`. -/
def u16 (n : Nat) : Nat := n % 2 ^ 16

/-- `VIRTQ_ENTRY_NUM` -/
def virtqEntryNum : Nat := 16

/-- `struct virtq_desc` -/
structure VirtqDesc where
  addr : Nat
  len : Nat
  flags : Nat
  next : Nat

/-- `struct virtq_used_elem` -/
structure VirtqUsedElem where
  id : Nat
  len : Nat
deriving DecidableEq, Repr

/-- `struct virtio_virtq`, with the two rings in it. -/
structure Virtq where
  descs : Nat → VirtqDesc
  /-- `avail.index` -/
  availIndex : Nat
  /-- `avail.ring` -/
  availRing : Nat → Nat
  /-- `used.index` -/
  usedIndex : Nat
  /-- `used.ring` -/
  usedRing : Nat → VirtqUsedElem
  submittedIndex : Nat
  consumedUsedIndex : Nat

/-- `virtq_init`: the pages are zeroed. -/
def virtqInit : Virtq where
  descs := fun _ => ⟨0, 0, 0, 0⟩
  availIndex := 0
  availRing := fun _ => 0
  usedIndex := 0
  usedRing := fun _ => ⟨0, 0⟩
  submittedIndex := 0
  consumedUsedIndex := 0

/-! ## `virtq_push` and `virtq_kick` -/

/-- `virtq_push` up to its first barrier: the slot. -/
def virtqPushRing (vq : Virtq) (descIndex : Nat) : Virtq :=
  let slot := vq.availIndex % virtqEntryNum
  { vq with availRing := Function.update vq.availRing slot (u16 descIndex) }

/-- `virtq_push` after its first barrier: the index. -/
def virtqPushIndex (vq : Virtq) : Virtq := { vq with availIndex := u16 (vq.availIndex + 1) }

/-- `virtq_push` -/
def virtqPush (vq : Virtq) (descIndex : Nat) : Virtq := virtqPushIndex (virtqPushRing vq descIndex)

/-- `vq->submitted_index++` in `virtq_kick` -/
def virtqSubmit (vq : Virtq) : Virtq := { vq with submittedIndex := u16 (vq.submittedIndex + 1) }

/-! ## `virtq_pop_used` and `virtq_is_busy` -/

/-- The test of `virtq_pop_used`: there is an element to pop. -/
def virtqHasUsed (vq : Virtq) : Bool := decide (vq.consumedUsedIndex ≠ vq.usedIndex)

/-- The element `virtq_pop_used` reads. -/
def virtqNextUsed (vq : Virtq) : VirtqUsedElem :=
  vq.usedRing (vq.consumedUsedIndex % virtqEntryNum)

/-- `vq->consumed_used_index++` -/
def virtqConsume (vq : Virtq) : Virtq :=
  { vq with consumedUsedIndex := u16 (vq.consumedUsedIndex + 1) }

/-- `virtq_pop_used` -/
def virtqPopUsed (vq : Virtq) : Option (VirtqUsedElem × Virtq) :=
  if virtqHasUsed vq then some (virtqNextUsed vq, virtqConsume vq) else none

/-- `virtq_is_busy` -/
def virtqIsBusy (vq : Virtq) : Bool := decide (vq.consumedUsedIndex ≠ vq.submittedIndex)

/-! ## The device -/

/-- What the device keeps for a queue. -/
structure DeviceSide where
  /-- How far it has read the available ring. -/
  lastAvail : Nat
  /-- The descriptors it has taken and not completed. -/
  held : List Nat
  /-- The element it has written to the used ring and not published yet. -/
  filled : Option VirtqUsedElem

/-- A queue with both of its sides. -/
structure Queue where
  vq : Virtq
  dev : DeviceSide

/-- A queue nothing has happened on. -/
def Queue.fresh : Queue := ⟨virtqInit, ⟨0, [], none⟩⟩

/-- What the device does. -/
inductive DeviceEvent where
  /-- It takes a descriptor. -/
  | take (d : Nat)
  /-- It writes a slot of the used ring. -/
  | fill
  /-- It publishes what it has written. -/
  | complete (e : VirtqUsedElem)

/-- The next entry of the available ring. -/
def Queue.nextAvail (q : Queue) : Nat := q.vq.availRing (q.dev.lastAvail % virtqEntryNum)

/-- Write the next slot of the used ring. -/
def virtqFill (vq : Virtq) (e : VirtqUsedElem) : Virtq :=
  { vq with usedRing := Function.update vq.usedRing (vq.usedIndex % virtqEntryNum) e }

/-- Raise the used index. -/
def virtqPublish (vq : Virtq) : Virtq := { vq with usedIndex := u16 (vq.usedIndex + 1) }

/-- One step of the device on a queue. -/
inductive DeviceStep : Queue → DeviceEvent → Queue → Prop where
  | take {q : Queue} :
      q.dev.lastAvail ≠ q.vq.availIndex →
      DeviceStep q (.take q.nextAvail)
        ⟨q.vq, ⟨u16 (q.dev.lastAvail + 1), q.dev.held ++ [q.nextAvail], q.dev.filled⟩⟩
  | fill {q : Queue} {d len : Nat} :
      q.dev.filled = none → d ∈ q.dev.held → len < 2 ^ 32 →
      DeviceStep q .fill ⟨virtqFill q.vq ⟨d, len⟩, { q.dev with filled := some ⟨d, len⟩ }⟩
  | publish {q : Queue} {e : VirtqUsedElem} :
      q.dev.filled = some e →
      DeviceStep q (.complete e)
        ⟨virtqPublish q.vq, ⟨q.dev.lastAvail, q.dev.held.erase e.id, none⟩⟩

end Os1000
