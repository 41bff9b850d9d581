import Os1000.Kernel.Common
import Os1000.Net.Arp
import Os1000.Virtio.Rx

/-!
# The capture ring (`kernel/virtio_net.c`)

The driver keeps a copy of every frame it receives, for a test that looks at them, in a
ring of sixteen slots with two 16-bit counters. `virtio_net_capture_rx` is called for each
frame and drops it if the ring is full; `virtio_net_pop_rx_frame` copies out the oldest one,
as much of it as the caller has room for. Interrupts are off in both, so that one does not
see the other half done.
-/

namespace Os1000

open Lib

/-- `NET_RX_CAPTURE_NUM` -/
def netRxCaptureNum : Nat := virtqEntryNum

/-- `struct virtio_net_capture` -/
structure NetCapture where
  len : Nat
  ethertype : Nat
  frame : Bytes

/-- `net_rx_captures` and its counters. -/
structure RxCapture where
  captures : Nat → NetCapture
  write : Nat
  read : Nat
  drops : Nat

/-- What `virtio_net_init` makes of the ring. -/
def RxCapture.reset (c : RxCapture) : RxCapture := { c with write := 0, read := 0, drops := 0 }

/-- `virtio_net_capture_rx` -/
def virtioNetCaptureRx (c : RxCapture) (frame : Bytes) (frameLen ethertype : Nat) :
    Except Stop RxCapture :=
  if netRxCaptureNum ≤ u16 (c.write + 2 ^ 16 - c.read) then
    .ok { c with drops := u32 (c.drops + 1) }
  else do
    let slot := c.write % netRxCaptureNum
    let bytes ← memcpy (c.captures slot).frame 0 ethMaxFrameSize frame 0 ethMaxFrameSize frameLen
    pure { c with
      captures := Function.update c.captures slot ⟨frameLen, ethertype, bytes⟩
      write := u16 (c.write + 1) }

/-- What a successful `virtio_net_pop_rx_frame` leaves with its caller. -/
structure PoppedFrame where
  dst : Bytes
  frameLen : Nat
  ethertype : Nat

/-- `virtio_net_pop_rx_frame`, with a `dst` of `capacity` bytes; `none` is `false`. -/
def virtioNetPopRxFrame (c : RxCapture) (dst : Bytes) (capacity : Nat) :
    Except Stop (Option PoppedFrame × RxCapture) :=
  if c.read = c.write then .ok (none, c)
  else do
    let capture := c.captures (c.read % netRxCaptureNum)
    let copyLen := min capture.len capacity
    let dst ← memcpy dst 0 capacity capture.frame 0 ethMaxFrameSize copyLen
    pure (some ⟨dst, copyLen, capture.ethertype⟩, { c with read := u16 (c.read + 1) })

/-- The two operations. -/
inductive CaptureOp where
  | capture (frame : Bytes) (frameLen ethertype : Nat)
  | pop (dst : Bytes) (capacity : Nat)

/-- One operation after others, with what the pops have returned so far. -/
def captureOp (s : RxCapture × List (Option PoppedFrame)) :
    CaptureOp → Except Stop (RxCapture × List (Option PoppedFrame))
  | .capture frame frameLen ethertype => do
      let c ← virtioNetCaptureRx s.1 frame frameLen ethertype
      pure (c, s.2)
  | .pop dst capacity => do
      let (r, c) ← virtioNetPopRxFrame s.1 dst capacity
      pure (c, s.2 ++ [r])

end Os1000
