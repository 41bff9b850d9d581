import Os1000.Net.Host
import Os1000.Virtio.Rx

/-!
# Frames through the receive queue (`virtio_net_drain_rx`)

The receive queue of `Virtio/Rx.lean` together with the memory its descriptors point at and
with what the driver makes of a frame. The device writes to memory where a descriptor that it
holds says, byte by byte and in any order; when it publishes the used element it has written
the frame. The driver reads the frame later, where it expects the buffer of that descriptor to
be, while the device goes on with others.
-/

namespace Os1000

open Lib

/-- The queue, the memory and the statics of the driver. -/
structure Reception where
  rx : Rx
  /-- Physical memory, of which the buffers are a part. -/
  mem : Nat → UInt8
  net : NetRx

/-- `net_rx_bufs[i].frame`, which has `ETH_MAX_FRAME_SIZE` bytes. -/
def rxFrame (mem : Nat → UInt8) (netRxPaddr i : Nat) : Bytes := fun x =>
  if x < ethMaxFrameSize then
    mem (netRxPaddr + i * sizeofVirtioNetBuf + sizeofVirtioNetHdr + x)
  else 0

/-- What is seen of a step. -/
inductive ReceptionLabel where
  /-- The queue or the driver moves on. -/
  | move
  /-- The device writes a byte. -/
  | dma (addr : Nat)
  /-- The device publishes a buffer, with this frame in it. -/
  | deliver (frame : Bytes) (packetLen : Nat)
  /-- The driver works off a buffer, with this frame in it. -/
  | handle (frame : Bytes) (packetLen : Nat)

/-- One step of the driver or of the device. -/
inductive ReceptionStep : Reception → ReceptionLabel → Reception → Prop where
  /-- All but the body of the loop and the publishing of used elements. -/
  | move {s : Reception} {l : RxLabel} {rx : Rx} : RxStep s.rx l rx → (∀ e, l ≠ .complete e) →
      (∀ e, s.rx.pc = .process e → rx.pc = .process e) →
      ReceptionStep s .move { s with rx }
  | dma {s : Reception} {d x : Nat} {b : UInt8} : d ∈ s.rx.queue.dev.held →
      x < (s.rx.queue.vq.descs d).len → (s.rx.queue.vq.descs d).flags = virtqDescFWrite →
      ReceptionStep s (.dma ((s.rx.queue.vq.descs d).addr + x))
        { s with mem := Function.update s.mem ((s.rx.queue.vq.descs d).addr + x) b }
  | deliver {s : Reception} {e : VirtqUsedElem} {rx : Rx} : RxStep s.rx (.complete e) rx →
      ReceptionStep s (.deliver (rxFrame s.mem s.rx.netRxPaddr e.id) e.len) { s with rx }
  | handle {s : Reception} {e : VirtqUsedElem} {net : NetRx} : s.rx.pc = .process e →
      receiveBuffer s.net (rxFrame s.mem s.rx.netRxPaddr e.id) e.len = .ok net →
      ReceptionStep s (.handle (rxFrame s.mem s.rx.netRxPaddr e.id) e.len)
        { s with rx := { s.rx with pc := .recycle e }, net }

/-- At the beginning of the loop of `virtio_net_init`, with the statics `net`. -/
def ReceptionStart (net : NetRx) (s : Reception) : Prop := RxStart s.rx ∧ s.net = net

end Os1000
