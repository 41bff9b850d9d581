import Os1000.Lib.Run
import Os1000.Net.Receive

/-!
# The host (`kernel/virtio_net.c`, `kernel/arp.c`, `kernel/ipv4.c`)

What the network code does as a whole: frames arrive, and the kernel makes calls that
transmit. `arp_poll` is called by the loop of `SYS_GETCHAR`, `virtio_net_send_packet` is
`SYS_SEND`, `arp_request` is `SYS_ARP_REQUEST`, and `ipv4_send` is there for the kernel
itself.

A call runs with interrupts off up to the point where `virtio_net_send_ethernet` waits. The
frame has been given to the device by then, and what the call still has to do is to count
and to return. Frames arrive while a call waits, and between calls.
-/

namespace Os1000

open Lib

/-- The calls that transmit. -/
inductive HostCall where
  /-- `ipv4_send(dst_ip, protocol, payload, payload_len)` -/
  | ipv4Send (dstIp : Nat) (protocol : UInt8) (payload : Option Bytes) (payloadLen : Nat)
  /-- `arp_request(target_ip)` -/
  | arpRequest (targetIp : Nat)
  /-- `arp_poll()` -/
  | arpPoll
  /-- `virtio_net_send_packet(payload, len)` -/
  | sendPacket (payload : Bytes) (len : Int)

/-- The arguments have the types of the source. -/
def HostCall.Typed : HostCall → Prop
  | .ipv4Send dstIp _ _ payloadLen => dstIp < 2 ^ 32 ∧ payloadLen < 2 ^ 16
  | .arpRequest targetIp => targetIp < 2 ^ 32
  | .arpPoll => True
  | .sendPacket _ _ => True

/-- What a call does when `virtio_net_send_ethernet` has returned. -/
inductive AfterSend where
  /-- `stats.tx_packets++`, and return. -/
  | counted (ret : Int)
  /-- `stats.tx_dropped++`, and return. -/
  | dropped (ret : Int)
  /-- Return. -/
  | plain (ret : Int)
deriving DecidableEq

/-- Where the kernel is. -/
inductive HostPc where
  /-- In no call. -/
  | idle
  /-- In `wait_for_interrupt`. -/
  | waiting (after : AfterSend)
  /-- In a call that has nothing to wait for. -/
  | leaving (after : AfterSend)
deriving DecidableEq

/-- The statics of the three files. -/
structure Host where
  rx : NetRx
  nextIdentification : Nat
  tx : NetTx
  pc : HostPc

/-- A frame as the device is given it, with its length. -/
abbrev SentFrame := Bytes × Nat

/-- `virtio_net_send_ethernet`, up to its wait. -/
def Host.transmit (h : Host) (dstMac : Mac) (ethertype : Nat) (payload : Bytes) (len : Int)
    (after : Int → AfterSend) : Host × List SentFrame :=
  let sent := virtioNetSendEthernet h.tx dstMac ethertype payload len
  if sent.1 < 0 then ({ h with pc := .leaving (after sent.1) }, [])
  else
    ({ h with tx := sent.2, pc := .waiting (after sent.1) },
      [(sent.2.netTxBuf, sent.2.netPendingTxLen)])

/-- The call sends nothing. -/
def Host.refuse (h : Host) (after : AfterSend) : Host × List SentFrame :=
  ({ h with pc := .leaving after }, [])

/-- `arp_request`, up to the wait. -/
def Host.askFor (h : Host) (targetIp : Nat) (after : Int → AfterSend) : Host × List SentFrame :=
  h.transmit (fun _ => 0xff) arpEthertype
    (arpBuildPacket arpOperationRequest (fun _ => 0) targetIp) sizeofArpPacket after

/-- A call, up to its wait. -/
def hostCall (h : Host) : HostCall → Except Stop (Host × List SentFrame)
  | .ipv4Send dstIp protocol payload payloadLen =>
      if payload.isNone ∧ 0 < payloadLen then .ok (h.refuse (.dropped (-1)))
      else if payloadLen > ipv4MaxPacketSize - ipv4HeaderMinSize then
        .ok (h.refuse (.dropped (-1)))
      else
        let dstMac : Option Mac :=
          if dstIp = ipv4BroadcastAddress then some fun _ => 0xff
          else arpLookup h.rx.arp.cache dstIp
        match dstMac with
        | none => .ok (h.askFor dstIp fun _ => .dropped (-2))
        | some dstMac => do
            let packet ←
              ipv4Packet h.nextIdentification dstIp protocol (payload.getD fun _ => 0) payloadLen
            let h := { h with nextIdentification := u16 (h.nextIdentification + 1) }
            pure (h.transmit dstMac ipv4Ethertype packet (ipv4HeaderMinSize + payloadLen : Nat)
              fun sent => if sent < 0 then .dropped sent else .counted payloadLen)
  | .arpRequest targetIp => .ok (h.askFor targetIp .plain)
  | .arpPoll =>
      let reply := h.rx.arp.pendingReply
      if reply.pending = false then .ok (h.refuse (.plain 0))
      else
        let taken := { h.rx.arp with pendingReply := { reply with pending := false } }
        .ok ({ h with rx := { h.rx with arp := taken } }.transmit reply.targetMac arpEthertype
          (arpBuildPacket arpOperationReply reply.targetMac reply.targetIp) sizeofArpPacket
          fun _ => .plain 0)
  | .sendPacket payload len =>
      .ok (h.transmit (fun _ => 0xff) virtioNetTestEthertype payload len .plain)

/-- What the call returns. -/
def AfterSend.ret : AfterSend → Int
  | .counted ret => ret
  | .dropped ret => ret
  | .plain ret => ret

/-- The end of the call. -/
def Host.finish (h : Host) (after : AfterSend) : Host :=
  let stats := match after with
    | .counted _ => statsOp h.rx.ipv4 .sent
    | .dropped _ => statsOp h.rx.ipv4 .notSent
    | .plain _ => h.rx.ipv4
  { h with rx := { h.rx with ipv4 := stats }, pc := .idle }

/-- What happens in a step. -/
inductive HostLabel where
  /-- The handler finds a used buffer, with `packetLen` bytes in it. -/
  | receive (frame : Bytes) (packetLen : Nat)
  /-- A call gives these frames to the device. -/
  | call (c : HostCall) (sent : List SentFrame)
  /-- It returns. -/
  | ret (ret : Int)

/-- The handler may run. -/
def Host.Open (h : Host) : Prop := h.pc = .idle ∨ ∃ after, h.pc = .waiting after

/-- One step of the handler or of a call. -/
inductive HostStep : Host → HostLabel → Host → Prop where
  | receive {h : Host} {frame : Bytes} {packetLen : Nat} {rx : NetRx} : h.Open →
      receiveBuffer h.rx frame packetLen = .ok rx →
      HostStep h (.receive frame packetLen) { h with rx }
  | call {h h' : Host} {c : HostCall} {sent : List SentFrame} : h.pc = .idle → c.Typed →
      hostCall h c = .ok (h', sent) → HostStep h (.call c sent) h'
  | ret {h : Host} {after : AfterSend} : h.pc = .waiting after ∨ h.pc = .leaving after →
      HostStep h (.ret after.ret) (h.finish after)

/-- What `virtio_net_init`, `ipv4_init` and `arp_init` leave. -/
structure HostStart (h : Host) : Prop where
  arp : h.rx.arp = arpInit
  ipv4 : h.rx.ipv4 = ipv4Init
  rxPackets : h.rx.netRxPackets = 0
  testPackets : h.rx.netRxTestPackets = 0
  nextIdentification : h.nextIdentification = 1
  ready : h.tx.ready = true
  pc : h.pc = .idle

/-! ## `ipv4_send` in one piece -/

/-- What `ipv4_send` works on. -/
def Host.stack (h : Host) : NetStack := ⟨h.rx.arp, h.rx.ipv4, h.nextIdentification, h.tx⟩

end Os1000
