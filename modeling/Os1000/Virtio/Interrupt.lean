import Os1000.Virtio.Rx

/-!
# Interrupt handlers (`virtio_blk_irq`, `virtio_net_irq`)

A device raises bit 0 of its `InterruptStatus` after it has published a used element on
one of its queues, and bit 1 when its configuration changes. The handler reads the
register, writes what it has read to `InterruptACK`, which clears those bits, and if
bit 0 was among them drains the queues of the device one after the other.

The two handlers differ in how many queues there are and in what is done with a popped
element, so they are one program with the device as a parameter. The device runs on
between any two of its steps.
-/

namespace Os1000

/-- The two devices. -/
inductive VirtioDev where
  | blk
  | net
deriving DecidableEq, Repr

/-- `NET_RX_QUEUE` -/
def netRxQueue : Nat := 0
/-- `NET_TX_QUEUE` -/
def netTxQueue : Nat := 1

/-- The queues the handler of a device drains: `0`, `1`, … -/
def VirtioDev.queues : VirtioDev → Nat
  | .blk => 1
  | .net => 2

/-- `InterruptStatus` -/
structure IrqStatus where
  /-- `VIRTIO_INT_USED_BUFFER` -/
  usedBuffer : Bool
  /-- `VIRTIO_INT_CONFIG_CHANGE` -/
  configChange : Bool
deriving DecidableEq, Repr

/-- Whether the register is not zero. -/
def IrqStatus.any (st : IrqStatus) : Bool := st.usedBuffer || st.configChange

/-- The register after `st` was written to `InterruptACK`. -/
def IrqStatus.ack (reg st : IrqStatus) : IrqStatus :=
  ⟨reg.usedBuffer && !st.usedBuffer, reg.configChange && !st.configChange⟩

/-- Where the handler is. -/
inductive IrqPc where
  /-- No handler is running. -/
  | idle
  /-- Before `virtio_irq_status`. -/
  | status
  /-- Before `virtio_irq_ack`, with the status that was read. -/
  | ack (st : IrqStatus)
  /-- Before the test of `virtq_pop_used` on queue `q`. -/
  | check (q : Nat)
  /-- After it, before the element is read. -/
  | read (q : Nat)
  /-- Before `consumed_used_index` is raised. -/
  | consume (q : Nat) (e : VirtqUsedElem)
  /-- In the body of the loop. -/
  | body (q : Nat) (e : VirtqUsedElem)
deriving DecidableEq, Repr

/-- A device, with what the driver keeps for it. -/
structure DevState where
  queue : Nat → Queue
  /-- `InterruptStatus` -/
  status : IrqStatus
  /-- How many published elements the device has still to raise bit 0 for. -/
  owed : Nat
  /-- `blk_done`, or `net_tx_done` -/
  done : Bool
  /-- `completed` of `virtio_blk_irq` -/
  completed : Bool
  pc : IrqPc
  /-- `net_rx_paddr` -/
  netRxPaddr : Nat

/-- Replace the driver's side of queue `q`. -/
def DevState.setVq (s : DevState) (q : Nat) (vq : Virtq) : DevState :=
  { s with queue := Function.update s.queue q { s.queue q with vq := vq } }

/-- The body of the loop: `virtio_blk_irq`, `virtio_net_drain_rx` or `virtio_net_drain_tx`. -/
def drainBody (d : VirtioDev) (q : Nat) (e : VirtqUsedElem) (s : DevState) : DevState :=
  match d with
  | .blk => { s with completed := true }
  | .net =>
      if q = netRxQueue then
        s.setVq q (virtioNetEnqueueRx (s.queue q).vq s.netRxPaddr e.id)
      else { s with done := true }

/-- What follows the last loop: `if (completed) blk_done = true`. -/
def drainEnd (d : VirtioDev) (s : DevState) : DevState :=
  match d with
  | .blk => { s with done := s.done || s.completed, completed := false }
  | .net => s

/-- One step of the handler. -/
inductive HandlerStep (d : VirtioDev) : DevState → DevState → Prop where
  | enter {s : DevState} : s.pc = .idle → HandlerStep d s { s with pc := .status }
  | nothing {s : DevState} :
      s.pc = .status → s.status.any = false → HandlerStep d s { s with pc := .idle }
  | status {s : DevState} :
      s.pc = .status → s.status.any = true → HandlerStep d s { s with pc := .ack s.status }
  | ack {s : DevState} {st : IrqStatus} :
      s.pc = .ack st →
      HandlerStep d s { s with
        status := s.status.ack st, pc := if st.usedBuffer then .check 0 else .idle }
  | more {s : DevState} {q : Nat} :
      s.pc = .check q → virtqHasUsed (s.queue q).vq = true → HandlerStep d s { s with pc := .read q }
  | next {s : DevState} {q : Nat} :
      s.pc = .check q → virtqHasUsed (s.queue q).vq = false → q + 1 < d.queues →
      HandlerStep d s { s with pc := .check (q + 1) }
  | leave {s : DevState} {q : Nat} :
      s.pc = .check q → virtqHasUsed (s.queue q).vq = false → ¬ q + 1 < d.queues →
      HandlerStep d s (drainEnd d { s with pc := .idle })
  | read {s : DevState} {q : Nat} :
      s.pc = .read q → HandlerStep d s { s with pc := .consume q (virtqNextUsed (s.queue q).vq) }
  | consume {s : DevState} {q : Nat} {e : VirtqUsedElem} :
      s.pc = .consume q e →
      HandlerStep d s ({ s with pc := .body q e }.setVq q (virtqConsume (s.queue q).vq))
  | body {s : DevState} {q : Nat} {e : VirtqUsedElem} :
      s.pc = .body q e → HandlerStep d s (drainBody d q e { s with pc := .check q })

/-! ## A device that publishes as it likes -/

/-- What can happen between a device and its handler. -/
inductive IrqStep (d : VirtioDev) : DevState → Unit → DevState → Prop where
  | handler {s s' : DevState} : HandlerStep d s s' → IrqStep d s () s'
  | publish {s : DevState} {q : Nat} {e : VirtqUsedElem} :
      q < d.queues →
      IrqStep d s () ({ s with owed := s.owed + 1 }.setVq q (virtqPublish (virtqFill (s.queue q).vq e)))
  | raise {s : DevState} :
      0 < s.owed →
      IrqStep d s () { s with
        owed := s.owed - 1, status := { s.status with usedBuffer := true } }
  | config {s : DevState} :
      IrqStep d s () { s with status := { s.status with configChange := true } }

/-- A device with nothing left to pop, whose handler is not running. That is so after its
initialisation, whatever the driver has made available by then. -/
def IrqStart (s : DevState) : Prop :=
  (∀ q, virtqHasUsed (s.queue q).vq = false) ∧ s.owed = 0 ∧ s.pc = .idle

end Os1000
