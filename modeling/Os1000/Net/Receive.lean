import Os1000.Net.Capture
import Os1000.Net.Ipv4

/-!
# What is done with a received frame (`virtio_net_drain_rx`)

The body of the loop of `virtio_net_drain_rx`, between the pop of a used element and the
recycling of its buffer: the frame is counted, captured, and handed to the protocol that its
type says.
-/

namespace Os1000

/-- What `virtio_net_drain_rx` writes besides the queue. -/
structure NetRx where
  netRxPackets : Nat
  netLastRxLen : Nat
  netLastRxEthertype : Nat
  captures : RxCapture
  arp : Arp
  ipv4 : Ipv4Stats
  netLastTestFrame : Bytes
  netLastTestFrameLen : Nat
  netRxTestPackets : Nat

/-- The frame is handed on. -/
def dispatchFrame (n : NetRx) (frame : Bytes) (frameLen ethType : Nat) : Except Stop NetRx :=
  let n :=
    if ethType = arpEthertype then { n with arp := arpReceive n.arp frame frameLen } else n
  let n :=
    if ethType = ipv4Ethertype then { n with ipv4 := ipv4Receive n.ipv4 frame frameLen } else n
  if ethType = virtioNetTestEthertype then do
    let bytes ← memcpy n.netLastTestFrame 0 ethMaxFrameSize frame 0 ethMaxFrameSize frameLen
    pure { n with
      netLastTestFrame := bytes
      netLastTestFrameLen := frameLen
      netRxTestPackets := u32 (n.netRxTestPackets + 1) }
  else pure n

/-- The buffer with `frame` in it was used, `packetLen` bytes of it. -/
def receiveBuffer (n : NetRx) (frame : Bytes) (packetLen : Nat) : Except Stop NetRx :=
  if sizeofVirtioNetHdr + 14 ≤ packetLen then do
    let frameLen := packetLen - sizeofVirtioNetHdr
    let frameLen := if frameLen > ethMaxFrameSize then ethMaxFrameSize else frameLen
    let ethType := readBe16 frame 12
    let captures ← virtioNetCaptureRx n.captures frame frameLen ethType
    let n := { n with
      netRxPackets := u32 (n.netRxPackets + 1)
      netLastRxLen := frameLen
      netLastRxEthertype := ethType
      captures }
    dispatchFrame n frame frameLen ethType
  else
    pure { n with
      netRxPackets := u32 (n.netRxPackets + 1)
      netLastRxLen := packetLen
      netLastRxEthertype := 0 }

end Os1000
