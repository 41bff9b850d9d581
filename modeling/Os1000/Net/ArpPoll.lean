import Os1000.Net.Arp
import Os1000.Virtio.Request

/-!
# Deferred ARP replies (`kernel/arp.c`)

`arp_receive` runs from the interrupt handler and cannot wait for a transmission, so it
leaves the reply in a mailbox of one slot. `arp_poll` takes it out with interrupts off and
sends it; `virtio_net_send_ethernet` then waits, and opens a window for interrupts each time
round, in which another request may arrive.

`arp_poll` is a program counter here that moves by one access to the mailbox or to
`sstatus` at a time. The handler runs as a whole, whenever interrupts are on; outside of
`arp_poll` the machine may be in user mode, where they always are.
-/

namespace Os1000

/-- `ARP_ETHERTYPE` -/
def arpEthertype : Nat := 0x0806
/-- `ARP_OPERATION_REPLY` -/
def arpOperationReply : Nat := 2
/-- Where the target's addresses lie in a frame. -/
def targetMacAt : Nat := ethernetHeaderSize + 18

/-- `arp_build_packet` -/
def arpBuildPacket (operation : Nat) (targetMac : Mac) (targetIp : Nat) : Bytes :=
  let packet : Bytes := fun _ => 0
  let packet := writeBe16 packet 0 arpHardwareEthernet
  let packet := writeBe16 packet 2 arpProtocolIpv4
  let packet := Function.update packet 4 6
  let packet := Function.update packet 5 4
  let packet := writeBe16 packet 6 operation
  let packet := writeMac packet 8 netMac
  let packet := writeIpv4 packet 14 ipv4LocalAddress
  let packet := writeMac packet 18 targetMac
  writeIpv4 packet 24 targetIp

/-- Where `arp_poll` is. `saved` is `saved_sstatus & SSTATUS_SIE`. -/
inductive PollPc where
  /-- In no call. -/
  | idle
  /-- Before interrupts are switched off. -/
  | mask (saved : Bool)
  /-- At the test of `pending`. -/
  | check (saved : Bool)
  /-- Nothing was pending. -/
  | skip (saved : Bool)
  /-- Before the copy of `target_mac`. -/
  | copyMac (saved : Bool)
  /-- Before the copy of `target_ip`. -/
  | copyIp (saved : Bool) (targetMac : Mac)
  /-- Before `pending` is cleared. -/
  | take (saved : Bool) (targetMac : Mac) (targetIp : Nat)
  /-- Before interrupts are as they were. -/
  | restore (saved : Bool) (targetMac : Mac) (targetIp : Nat)
  /-- In `virtio_net_send_ethernet`, before `net_tx_buf` is written. -/
  | fill (targetMac : Mac) (targetIp : Nat)
  /-- Before the frame is made available to the device. -/
  | kick
  /-- At the beginning of `wait_for_interrupt`. -/
  | wait
  /-- At its test. -/
  | loop (saved : Bool)
  /-- Where it has interrupts on. -/
  | window (saved : Bool)
  /-- Before the return. -/
  | done

/-- The mailbox, the transmit buffer and the call. -/
structure ArpPoll where
  arp : Arp
  /-- `sstatus & SSTATUS_SIE` -/
  sie : Bool
  /-- `net_tx_vq` is set up. -/
  txReady : Bool
  /-- `net_tx_buf->frame` -/
  netTxBuf : Bytes
  netTxDone : Bool
  pc : PollPc

/-- What happens in a step. -/
inductive ArpLabel where
  /-- The handler calls `arp_receive`. -/
  | receive (frame : Bytes) (frameLen : Nat)
  /-- The handler finds the transmission complete. -/
  | complete
  /-- `arp_poll` is called. -/
  | poll
  /-- It takes the slot. -/
  | take
  /-- The device is given a frame of `frameLen` bytes. -/
  | send (frame : Bytes) (frameLen : Nat)
  /-- `arp_poll` returns. -/
  | ret
  /-- It moves on. -/
  | move

/-- The handler may run. -/
def ArpPoll.Open (s : ArpPoll) : Prop := s.pc = .idle ∨ s.sie = true

/-- The payload of the reply is the packet. -/
def replyFrame (targetMac : Mac) (targetIp : Nat) : Bytes :=
  ethernetFrame targetMac arpEthertype (arpBuildPacket arpOperationReply targetMac targetIp)
    sizeofArpPacket

/-- One step of the handler or of `arp_poll`. -/
inductive ArpStep : ArpPoll → ArpLabel → ArpPoll → Prop where
  | receive {s : ArpPoll} {frame : Bytes} {frameLen : Nat} : s.Open →
      ArpStep s (.receive frame frameLen) { s with arp := arpReceive s.arp frame frameLen }
  | complete {s : ArpPoll} : s.Open → ArpStep s .complete { s with netTxDone := true }
  | poll {s : ArpPoll} (sie : Bool) : s.pc = .idle →
      ArpStep s .poll { s with sie, pc := .mask sie }
  | mask {s : ArpPoll} {saved : Bool} : s.pc = .mask saved →
      ArpStep s .move { s with sie := false, pc := .check saved }
  | empty {s : ArpPoll} {saved : Bool} : s.pc = .check saved →
      s.arp.pendingReply.pending = false → ArpStep s .move { s with pc := .skip saved }
  | skip {s : ArpPoll} {saved : Bool} : s.pc = .skip saved →
      ArpStep s .move { s with sie := saved, pc := .done }
  | found {s : ArpPoll} {saved : Bool} : s.pc = .check saved →
      s.arp.pendingReply.pending = true → ArpStep s .move { s with pc := .copyMac saved }
  | copyMac {s : ArpPoll} {saved : Bool} : s.pc = .copyMac saved →
      ArpStep s .move { s with pc := .copyIp saved s.arp.pendingReply.targetMac }
  | copyIp {s : ArpPoll} {saved : Bool} {mac : Mac} : s.pc = .copyIp saved mac →
      ArpStep s .move { s with pc := .take saved mac s.arp.pendingReply.targetIp }
  | take {s : ArpPoll} {saved : Bool} {mac : Mac} {ip : Nat} : s.pc = .take saved mac ip →
      ArpStep s .take { s with
        arp := { s.arp with pendingReply := { s.arp.pendingReply with pending := false } }
        pc := .restore saved mac ip }
  | restore {s : ArpPoll} {saved : Bool} {mac : Mac} {ip : Nat} : s.pc = .restore saved mac ip →
      ArpStep s .move { s with sie := saved, pc := .fill mac ip }
  | refuse {s : ArpPoll} {mac : Mac} {ip : Nat} : s.pc = .fill mac ip → s.txReady = false →
      ArpStep s .move { s with pc := .done }
  | fill {s : ArpPoll} {mac : Mac} {ip : Nat} : s.pc = .fill mac ip → s.txReady = true →
      ArpStep s .move { s with netTxBuf := replyFrame mac ip, netTxDone := false, pc := .kick }
  | kick {s : ArpPoll} : s.pc = .kick →
      ArpStep s (.send s.netTxBuf (frameLen sizeofArpPacket)) { s with pc := .wait }
  | wait {s : ArpPoll} : s.pc = .wait →
      ArpStep s .move { s with sie := false, pc := .loop s.sie }
  | open {s : ArpPoll} {saved : Bool} : s.pc = .loop saved → s.netTxDone = false →
      ArpStep s .move { s with sie := true, pc := .window saved }
  | close {s : ArpPoll} {saved : Bool} : s.pc = .window saved →
      ArpStep s .move { s with sie := false, pc := .loop saved }
  | finish {s : ArpPoll} {saved : Bool} : s.pc = .loop saved → s.netTxDone = true →
      ArpStep s .move { s with sie := saved, pc := .done }
  | ret {s : ArpPoll} : s.pc = .done → ArpStep s .ret { s with pc := .idle }

/-- The state after `arp_init`. -/
def ArpStart (s : ArpPoll) : Prop := s.arp = arpInit ∧ s.pc = .idle

end Os1000
