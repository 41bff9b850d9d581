import Os1000.Virtio.Queue

/-!
# The receive queue (`kernel/virtio_net.c`)

`virtio_net_init` makes all sixteen buffers available. From then on
`virtio_net_drain_rx` pops what the device has filled, looks at the frame, and makes the
buffer available again. The device runs at the same time, so the driver is a program
counter that moves by one access to the shared memory at a time.

What is done with a frame (`virtio_net_capture_rx`, `arp_receive`, `ipv4_receive`)
touches no queue; of it only the buffer that is looked at is kept.
-/

namespace Os1000

/-- `NET_RX_BUF_NUM` -/
def netRxBufNum : Nat := virtqEntryNum
/-- `sizeof(struct virtio_net_hdr)` -/
def sizeofVirtioNetHdr : Nat := 10
/-- `ETH_MAX_FRAME_SIZE` -/
def ethMaxFrameSize : Nat := 1514
/-- `sizeof(struct virtio_net_buf)` -/
def sizeofVirtioNetBuf : Nat := sizeofVirtioNetHdr + ethMaxFrameSize
/-- `VIRTQ_DESC_F_WRITE` -/
def virtqDescFWrite : Nat := 2

/-- The descriptor of `net_rx_bufs[index]`. -/
def bufDesc (netRxPaddr index : Nat) : VirtqDesc :=
  ⟨netRxPaddr + index * sizeofVirtioNetBuf, sizeofVirtioNetBuf, virtqDescFWrite, 0⟩

/-- `virtio_net_enqueue_rx` before its `virtq_push`. -/
def virtioNetSetDesc (vq : Virtq) (netRxPaddr index : Nat) : Virtq :=
  { vq with descs := Function.update vq.descs index (bufDesc netRxPaddr index) }

/-- `virtio_net_enqueue_rx` up to the slot of the available ring. -/
def virtioNetEnqueueRing (vq : Virtq) (netRxPaddr index : Nat) : Virtq :=
  virtqPushRing (virtioNetSetDesc vq netRxPaddr index) index

/-- `virtio_net_enqueue_rx` -/
def virtioNetEnqueueRx (vq : Virtq) (netRxPaddr index : Nat) : Virtq :=
  virtqPush (virtioNetSetDesc vq netRxPaddr index) index

/-- The receive queue after `n` rounds of the loop of `virtio_net_init`. -/
def netRxFilled (netRxPaddr n : Nat) : Queue where
  vq := (List.range n).foldl (fun vq i => virtioNetEnqueueRx vq netRxPaddr i) virtqInit
  dev := ⟨0, [], none⟩

/-- The receive queue as `virtio_net_init` leaves it. -/
def netRxReady (netRxPaddr : Nat) : Queue := netRxFilled netRxPaddr netRxBufNum

/-- Where the driver is. -/
inductive RxPc where
  /-- The loop of `virtio_net_init`, before `virtio_net_enqueue_rx(i)`. -/
  | init (i : Nat)
  /-- In `virtio_net_enqueue_rx(i)`, before the index is raised. -/
  | initIndex (i : Nat)
  /-- Outside of `virtio_net_drain_rx`. -/
  | idle
  /-- Before the test of `virtq_pop_used`. -/
  | check
  /-- After it, before the element is read. -/
  | read
  /-- Before `consumed_used_index` is raised. -/
  | consume (e : VirtqUsedElem)
  /-- In the body of the loop. -/
  | process (e : VirtqUsedElem)
  /-- Before `virtio_net_enqueue_rx(desc_index)`. -/
  | recycle (e : VirtqUsedElem)
  /-- In it, before the index is raised. -/
  | index (e : VirtqUsedElem)

/-- The receive queue and the driver. -/
structure Rx where
  queue : Queue
  pc : RxPc
  netRxPaddr : Nat

/-- What is seen of a step. -/
inductive RxLabel where
  /-- A step that is none of the following. -/
  | quiet
  /-- The driver makes a descriptor available. -/
  | push (d : Nat)
  /-- The device takes one. -/
  | take (d : Nat)
  /-- The device publishes a used element. -/
  | complete (e : VirtqUsedElem)
  /-- The driver pops one. -/
  | pop (e : VirtqUsedElem)
  /-- The driver looks at `net_rx_bufs[i]`. -/
  | use (i : Nat)

/-- The label of what the device does. -/
def DeviceEvent.rxLabel : DeviceEvent → RxLabel
  | .take d => .take d
  | .fill => .quiet
  | .complete e => .complete e

/-- Before `virtio_net_init` fills the ring. -/
def RxStart (s : Rx) : Prop := s.queue = Queue.fresh ∧ s.pc = .init 0

/-- One step of the driver or of the device. -/
inductive RxStep : Rx → RxLabel → Rx → Prop where
  | initRing {s : Rx} {i : Nat} :
      s.pc = .init i → i < netRxBufNum →
      RxStep s .quiet { s with
        queue := { s.queue with vq := virtioNetEnqueueRing s.queue.vq s.netRxPaddr i },
        pc := .initIndex i }
  | initIndex {s : Rx} {i : Nat} :
      s.pc = .initIndex i →
      RxStep s (.push (u16 i)) { s with
        queue := { s.queue with vq := virtqPushIndex s.queue.vq },
        pc := .init (i + 1) }
  | initDone {s : Rx} {i : Nat} :
      s.pc = .init i → ¬ i < netRxBufNum → RxStep s .quiet { s with pc := .idle }
  | enter {s : Rx} : s.pc = .idle → RxStep s .quiet { s with pc := .check }
  | more {s : Rx} :
      s.pc = .check → virtqHasUsed s.queue.vq = true → RxStep s .quiet { s with pc := .read }
  | leave {s : Rx} :
      s.pc = .check → virtqHasUsed s.queue.vq = false → RxStep s .quiet { s with pc := .idle }
  | read {s : Rx} :
      s.pc = .read → RxStep s .quiet { s with pc := .consume (virtqNextUsed s.queue.vq) }
  | consume {s : Rx} {e : VirtqUsedElem} :
      s.pc = .consume e →
      RxStep s (.pop e) { s with
        queue := { s.queue with vq := virtqConsume s.queue.vq },
        pc := .process e }
  | frame {s : Rx} {e : VirtqUsedElem} :
      s.pc = .process e → sizeofVirtioNetHdr + 14 ≤ e.len →
      RxStep s (.use e.id) { s with pc := .recycle e }
  | short {s : Rx} {e : VirtqUsedElem} :
      s.pc = .process e → ¬ sizeofVirtioNetHdr + 14 ≤ e.len →
      RxStep s .quiet { s with pc := .recycle e }
  | recycle {s : Rx} {e : VirtqUsedElem} :
      s.pc = .recycle e →
      RxStep s .quiet { s with
        queue := { s.queue with vq := virtioNetEnqueueRing s.queue.vq s.netRxPaddr e.id },
        pc := .index e }
  | index {s : Rx} {e : VirtqUsedElem} :
      s.pc = .index e →
      RxStep s (.push (u16 e.id)) { s with
        queue := { s.queue with vq := virtqPushIndex s.queue.vq },
        pc := .check }
  | device {s : Rx} {ev : DeviceEvent} {q : Queue} :
      DeviceStep s.queue ev q → RxStep s ev.rxLabel { s with queue := q }

end Os1000
