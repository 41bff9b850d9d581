import Os1000.Net.Arp
import Os1000.Virtio.Interrupt
import Mathlib.Data.Fin.VecNotation

/-!
# Requests (`read_write_disk`, `virtio_net_send_ethernet`, `virtio_net_send_test_packet`)

A request is written into a static buffer and described by the first descriptors of its
queue. The driver clears a flag, makes the descriptor available, and waits in
`wait_for_interrupt` until a handler has set the flag. That function saves `sstatus`, turns
interrupts off, opens a short window again and again, and restores `sstatus` when it is done.

Whether interrupts are on in the rest of a call depends on who makes it. `kernel_main` turns
them on before `fs_init`, so the reads at boot can be interrupted before and after the wait;
system calls run with interrupts off. A call carries `sstatus.SIE` as it was when it was made
(`sie`). Where interrupts are on, handlers of both devices may run, as often as they like and
whether or not there was a reason to. A handler is not interrupted, and whatever it has
interrupted goes on when it has returned, so besides the devices only one of a call and a
handler moves at a time.

Handlers touch neither the request buffers nor descriptors, and so writing them is one step each.

`InterruptStatus` may change to anything at any time, so that interrupts may be merged,
have no reason, or be about the configuration only. What the device does with a request,
and what a read copies back, is not part of this machine.
-/

namespace Os1000

/-- `VIRTQ_DESC_F_NEXT` -/
def virtqDescFNext : Nat := 1
/-- `VIRTIO_NET_TEST_ETHERTYPE` -/
def virtioNetTestEthertype : Nat := 0x88b5

/-- `struct virtio_blk_req` -/
structure BlkReq where
  type : Nat
  sector : Nat
  data : Bytes
  status : Nat

/-- `net_mac` -/
def netMac : Mac := ![0x52, 0x54, 0x00, 0x12, 0x34, 0x56]

/-- The frame `virtio_net_send_ethernet` leaves in `net_tx_buf`. -/
def ethernetFrame (dstMac : Mac) (ethertype : Nat) (payload : Bytes) (len : Nat) : Bytes := fun i =>
  if h : i < 6 then dstMac ⟨i, h⟩
  else if h : i - 6 < 6 then netMac ⟨i - 6, h⟩
  else if i = 12 then UInt8.ofNat (ethertype / 2 ^ 8)
  else if i = 13 then UInt8.ofNat ethertype
  else if i < ethernetHeaderSize + len then payload (i - ethernetHeaderSize)
  else 0

/-- `frame_len` -/
def frameLen (len : Nat) : Nat := max 60 (ethernetHeaderSize + len)

/-- The calls that make a request. -/
inductive Call where
  /-- `read_write_disk(buf, sector, is_write)` -/
  | disk (buf : Bytes) (sector : Nat) (isWrite : Bool)
  /-- `virtio_net_send_ethernet(dst_mac, ethertype, payload, len)` -/
  | ethernet (dstMac : Mac) (ethertype : Nat) (payload : Bytes) (len : Int)
  /-- `virtio_net_send_test_packet()` -/
  | testPacket

/-- The device a call is for. -/
def Call.dev : Call → VirtioDev
  | .disk .. => .blk
  | .ethernet .. => .net
  | .testPacket => .net

/-- The queue of a device that requests are made on. -/
def reqQueue : VirtioDev → Nat
  | .blk => 0
  | .net => netTxQueue

/-- Where the kernel is. -/
inductive CallPc where
  /-- In no call. -/
  | idle
  /-- Before `blk_req` or `net_tx_buf` is written. -/
  | fill (c : Call)
  /-- Before the descriptors are written. -/
  | descs (c : Call)
  /-- Before the flag is cleared. -/
  | reset (c : Call)
  /-- In `virtq_push`, before the slot is written. -/
  | ring (c : Call)
  /-- In `virtq_push`, before the index is raised. -/
  | index (c : Call)
  /-- Before `submitted_index++`. -/
  | submit (c : Call)
  /-- Before `virtq_notify`. -/
  | notify (c : Call)
  /-- At the test of `wait_for_interrupt`. -/
  | loop (c : Call)
  /-- Where `wait_for_interrupt` has interrupts on. -/
  | window (c : Call)
  /-- `wait_for_interrupt` has restored `sstatus`. -/
  | finish (c : Call)

/-- Both drivers, their devices, and the kernel. -/
structure Drivers where
  dev : VirtioDev → DevState
  call : CallPc
  /-- `sstatus.SIE` where the call was made: what `saved_sstatus` has of it. -/
  sie : Bool
  blkReq : BlkReq
  /-- `net_tx_buf->frame` -/
  netTxBuf : Bytes
  netPendingTxLen : Nat
  blkReqPaddr : Nat
  netTxPaddr : Nat
  /-- `blk_capacity / SECTOR_SIZE` -/
  sectors : Nat

/-- The checks at the beginning of a call. -/
def Accepts (s : Drivers) : Call → Prop
  | .disk _ sector _ => sector < s.sectors
  | .ethernet _ _ _ len => 0 ≤ len ∧ len ≤ ethMaxFrameSize - ethernetHeaderSize
  | .testPacket => True

/-- A call writes its request buffer. -/
def fillRequest (s : Drivers) : Call → Drivers
  | .disk buf sector isWrite =>
      let data := if isWrite then buf else s.blkReq.data
      { s with blkReq := { s.blkReq with sector, type := if isWrite then 1 else 0, data } }
  | .ethernet dstMac ethertype payload len =>
      { s with netTxBuf := ethernetFrame dstMac ethertype payload len.toNat }
  | .testPacket =>
      { s with netTxBuf :=
        ethernetFrame (fun _ => 0xff) virtioNetTestEthertype (fun _ => 0) 0 }

/-- A call writes its descriptors. -/
def requestDescs (s : Drivers) (descs : Nat → VirtqDesc) : Call → (Nat → VirtqDesc)
  | .disk _ _ isWrite =>
      let flags := virtqDescFNext ||| (if isWrite then 0 else virtqDescFWrite)
      let descs := Function.update descs 0 ⟨s.blkReqPaddr, 16, virtqDescFNext, 1⟩
      let descs := Function.update descs 1 ⟨s.blkReqPaddr + 16, 512, flags, 2⟩
      Function.update descs 2 ⟨s.blkReqPaddr + 528, 1, virtqDescFWrite, (descs 2).next⟩
  | .ethernet _ _ _ len =>
      Function.update descs 0 ⟨s.netTxPaddr, sizeofVirtioNetHdr + frameLen len.toNat, 0, 0⟩
  | .testPacket =>
      Function.update descs 0 ⟨s.netTxPaddr, sizeofVirtioNetHdr + frameLen 0, 0, 0⟩

/-- `net_pending_tx_len` after a call has set it. -/
def pendingTxLen (s : Drivers) : Call → Nat
  | .disk .. => s.netPendingTxLen
  | .ethernet _ _ _ len => frameLen len.toNat
  | .testPacket => frameLen 0

/-- Replace the state of a device. -/
def Drivers.setDev (s : Drivers) (d : VirtioDev) (t : DevState) : Drivers :=
  { s with dev := Function.update s.dev d t }

/-- The queue that calls for device `d` make requests on. -/
def Drivers.requests (s : Drivers) (d : VirtioDev) : Queue := (s.dev d).queue (reqQueue d)

/-- The queue of a call. -/
def Drivers.vq (s : Drivers) (c : Call) : Virtq := ((s.dev c.dev).queue (reqQueue c.dev)).vq

/-- Replace the driver's side of the queue of a call. -/
def Drivers.setCallVq (s : Drivers) (c : Call) (vq : Virtq) : Drivers :=
  s.setDev c.dev ((s.dev c.dev).setVq (reqQueue c.dev) vq)

/-- No handler is running. -/
def NoHandler (s : Drivers) : Prop := ∀ d, (s.dev d).pc = .idle

/-- Interrupts are on: in a window, and but for the masked part of `wait_for_interrupt` wherever
they were on when the call was made. Between calls the machine may be in user mode. -/
def InterruptsOn (sie : Bool) : CallPc → Prop
  | .idle => True
  | .loop _ => False
  | .window _ => True
  | _ => sie = true

/-- What is seen of a step. -/
inductive CallLabel where
  | quiet
  /-- The driver writes a request buffer or descriptors. -/
  | write (c : Call)
  /-- A call returns. -/
  | ret (c : Call)

/-- One step of the kernel, a handler or a device. A call moves only while no handler is running. -/
inductive DriversStep : Drivers → CallLabel → Drivers → Prop where
  | reject {s : Drivers} {c : Call} :
      s.call = .idle → NoHandler s → ¬ Accepts s c → DriversStep s (.ret c) s
  | start {s : Drivers} {c : Call} (sie : Bool) :
      s.call = .idle → NoHandler s → Accepts s c →
      DriversStep s .quiet { s with call := .fill c, sie }
  | fill {s : Drivers} {c : Call} :
      s.call = .fill c → NoHandler s →
      DriversStep s (.write c) (fillRequest { s with call := .descs c } c)
  | descs {s : Drivers} {c : Call} :
      s.call = .descs c → NoHandler s →
      DriversStep s (.write c)
        ({ s with call := .reset c, netPendingTxLen := pendingTxLen s c }.setCallVq c
          { s.vq c with descs := requestDescs s (s.vq c).descs c })
  | reset {s : Drivers} {c : Call} :
      s.call = .reset c → NoHandler s →
      DriversStep s .quiet
        ({ s with call := .ring c }.setDev c.dev { s.dev c.dev with done := false })
  | ring {s : Drivers} {c : Call} :
      s.call = .ring c → NoHandler s →
      DriversStep s .quiet ({ s with call := .index c }.setCallVq c (virtqPushRing (s.vq c) 0))
  | index {s : Drivers} {c : Call} :
      s.call = .index c → NoHandler s →
      DriversStep s .quiet ({ s with call := .submit c }.setCallVq c (virtqPushIndex (s.vq c)))
  | submit {s : Drivers} {c : Call} :
      s.call = .submit c → NoHandler s →
      DriversStep s .quiet ({ s with call := .notify c }.setCallVq c (virtqSubmit (s.vq c)))
  | notify {s : Drivers} {c : Call} :
      s.call = .notify c → NoHandler s → DriversStep s .quiet { s with call := .loop c }
  | wait {s : Drivers} {c : Call} :
      s.call = .loop c → NoHandler s → (s.dev c.dev).done = false →
      DriversStep s .quiet { s with call := .window c }
  | close {s : Drivers} {c : Call} :
      s.call = .window c → NoHandler s → DriversStep s .quiet { s with call := .loop c }
  | restore {s : Drivers} {c : Call} :
      s.call = .loop c → NoHandler s → (s.dev c.dev).done = true →
      DriversStep s .quiet { s with call := .finish c }
  | ret {s : Drivers} {c : Call} :
      s.call = .finish c → NoHandler s → DriversStep s (.ret c) { s with call := .idle }
  | handler {s : Drivers} {d : VirtioDev} {t : DevState} :
      InterruptsOn s.sie s.call → (∀ d', d' ≠ d → (s.dev d').pc = .idle) →
      HandlerStep d (s.dev d) t → DriversStep s .quiet (s.setDev d t)
  | device {s : Drivers} {d : VirtioDev} {q : Nat} {ev : DeviceEvent} {q' : Queue} :
      q < d.queues → DeviceStep ((s.dev d).queue q) ev q' →
      DriversStep s .quiet
        (s.setDev d { s.dev d with queue := Function.update (s.dev d).queue q q' })
  | status {s : Drivers} {d : VirtioDev} {status : IrqStatus} :
      DriversStep s .quiet (s.setDev d { s.dev d with status })

/-- After the initialisation of both devices. -/
def DriversStart (s : Drivers) : Prop :=
  s.call = .idle ∧ ∀ d, (∀ q, q = reqQueue d → (s.dev d).queue q = Queue.fresh)
    ∧ (s.dev d).pc = .idle ∧ (s.dev d).completed = false

end Os1000
