import Os1000.Kernel.Common
import Os1000.Net.ArpPoll

/-!
# IPv4 (`kernel/ipv4.c`)

`ipv4_send` builds a packet in a local array, with a header of twenty bytes, and hands it to
the driver; `ipv4_receive` checks a received packet and counts it. The driver is a call here
that has sent the frame when it returns; how the call waits is the subject of
`Virtio/Request.lean`.
-/

namespace Os1000

open Lib

/-- `IPV4_ETHERTYPE` -/
def ipv4Ethertype : Nat := 0x0800
/-- `IPV4_HEADER_MIN_SIZE` -/
def ipv4HeaderMinSize : Nat := 20
/-- `IPV4_MAX_PACKET_SIZE` -/
def ipv4MaxPacketSize : Nat := 1500
/-- `IPV4_BROADCAST_ADDRESS` -/
def ipv4BroadcastAddress : Nat := 0xffffffff
/-- `IPV4_PROTOCOL_ICMP` -/
def ipv4ProtocolIcmp : UInt8 := 1
/-- `IPV4_PROTOCOL_TCP` -/
def ipv4ProtocolTcp : UInt8 := 6
/-- `IPV4_PROTOCOL_UDP` -/
def ipv4ProtocolUdp : UInt8 := 17
/-- `IPV4_VERSION` -/
def ipv4Version : Nat := 4
/-- `IPV4_TTL_DEFAULT` -/
def ipv4TtlDefault : UInt8 := 64
/-- `IPV4_FLAG_MORE_FRAGMENTS` -/
def ipv4FlagMoreFragments : Nat := 0x2000
/-- `IPV4_FRAGMENT_OFFSET_MASK` -/
def ipv4FragmentOffsetMask : Nat := 0x1fff

/-- `struct ipv4_header`: where its fields lie in a packet. -/
def versionIhlAt : Nat := 0
def totalLengthAt : Nat := 2
def identificationAt : Nat := 4
def flagsFragmentOffsetAt : Nat := 6
def ttlAt : Nat := 8
def protocolAt : Nat := 9
def headerChecksumAt : Nat := 10
def srcIpAt : Nat := 12
def dstIpAt : Nat := 16

/-- `struct ipv4_stats` -/
structure Ipv4Stats where
  rxPackets : Nat
  rxDropped : Nat
  rxIcmp : Nat
  rxUdp : Nat
  rxTcp : Nat
  rxOther : Nat
  txPackets : Nat
  txDropped : Nat
deriving DecidableEq, Repr

/-- The counters that `ipv4_init` leaves. -/
def ipv4Init : Ipv4Stats := ⟨0, 0, 0, 0, 0, 0, 0, 0⟩

/-! ## The checksum -/

/-- The first loop of `ipv4_checksum`, and the odd byte after it. -/
def sumWords (b : Bytes) (off : Nat) : Nat → Nat → Nat
  | len + 2, sum => sumWords b (off + 2) len (u32 (sum + readBe16 b off))
  | 1, sum => u32 (sum + ((b off).toNat <<< 8))
  | 0, sum => sum

/-- The second loop. -/
def foldSum (sum : Nat) : Nat :=
  if sum >>> 16 = 0 then sum else foldSum ((sum &&& 0xffff) + (sum >>> 16))
termination_by sum
decreasing_by
  rename_i h
  have hmask : sum &&& 0xffff = sum % 2 ^ 16 := Nat.and_two_pow_sub_one_eq_mod sum 16
  rw [hmask, Nat.shiftRight_eq_div_pow] at *
  omega

/-- `ipv4_checksum` of `len` bytes from `off` on. -/
def ipv4Checksum (b : Bytes) (off len : Nat) : Nat :=
  u16 (2 ^ 32 - 1 - foldSum (sumWords b off len 0))

/-! ## Receiving -/

/-- `ipv4_is_for_us` -/
def ipv4IsForUs (dstIp : Nat) : Bool :=
  decide (dstIp = ipv4LocalAddress) || decide (dstIp = ipv4BroadcastAddress)

/-- `stats.rx_dropped++` -/
def Ipv4Stats.drop (s : Ipv4Stats) : Ipv4Stats := { s with rxDropped := u32 (s.rxDropped + 1) }

/-- The counters of an accepted packet. -/
def Ipv4Stats.count (s : Ipv4Stats) (protocol : UInt8) : Ipv4Stats :=
  let s := { s with rxPackets := u32 (s.rxPackets + 1) }
  if protocol = ipv4ProtocolIcmp then { s with rxIcmp := u32 (s.rxIcmp + 1) }
  else if protocol = ipv4ProtocolUdp then { s with rxUdp := u32 (s.rxUdp + 1) }
  else if protocol = ipv4ProtocolTcp then { s with rxTcp := u32 (s.rxTcp + 1) }
  else { s with rxOther := u32 (s.rxOther + 1) }

/-- `ipv4_receive` -/
def ipv4Receive (s : Ipv4Stats) (frame : Bytes) (frameLen : Nat) : Ipv4Stats :=
  if frameLen < ethernetHeaderSize + ipv4HeaderMinSize then s.drop
  else
    let packet := ethernetHeaderSize
    let packetCapacity := frameLen - ethernetHeaderSize
    let version := (frame (packet + versionIhlAt)).toNat >>> 4
    let ihl := (frame (packet + versionIhlAt)).toNat &&& 0x0f
    let headerLen := ihl * 4
    if version ≠ ipv4Version ∨ ihl < 5 ∨ headerLen > packetCapacity then s.drop
    else
      let totalLength := readBe16 frame (packet + totalLengthAt)
      if totalLength < headerLen ∨ totalLength > packetCapacity then s.drop
      else if ipv4Checksum frame packet headerLen ≠ 0 then s.drop
      else
        let flagsFragment := readBe16 frame (packet + flagsFragmentOffsetAt)
        if flagsFragment &&& ipv4FlagMoreFragments ≠ 0
            ∨ flagsFragment &&& ipv4FragmentOffsetMask ≠ 0 then s.drop
        else if ipv4IsForUs (readIpv4 frame (packet + dstIpAt)) = false then s.drop
        else s.count (frame (packet + protocolAt))

/-! ## Receiving, with every read checked

The same functions once more, reading the frame byte by byte as an array that ends where the
frame does.
-/

/-- `read_be16` -/
def readBe16In (b : Bytes) (e off : Nat) : Except Stop Nat := do
  let hi ← loadAt b off e
  let lo ← loadAt b (off + 1) e
  return (hi.toNat <<< 8) ||| lo.toNat

/-- `read_ipv4_addr` -/
def readIpv4In (b : Bytes) (e off : Nat) : Except Stop Nat := do
  let b3 ← loadAt b off e
  let b2 ← loadAt b (off + 1) e
  let b1 ← loadAt b (off + 2) e
  let b0 ← loadAt b (off + 3) e
  return (b3.toNat <<< 24) ||| (b2.toNat <<< 16) ||| (b1.toNat <<< 8) ||| b0.toNat

/-- The first loop of `ipv4_checksum`, and the odd byte after it. -/
def sumWordsIn (b : Bytes) (e off : Nat) : Nat → Nat → Except Stop Nat
  | len + 2, sum => do
      let word ← readBe16In b e off
      sumWordsIn b e (off + 2) len (u32 (sum + word))
  | 1, sum => do
      let hi ← loadAt b off e
      return u32 (sum + (hi.toNat <<< 8))
  | 0, sum => .ok sum

/-- `ipv4_checksum` -/
def ipv4ChecksumIn (b : Bytes) (e off len : Nat) : Except Stop Nat := do
  let sum ← sumWordsIn b e off len 0
  return u16 (2 ^ 32 - 1 - foldSum sum)

/-- `ipv4_receive` -/
def ipv4ReceiveIn (s : Ipv4Stats) (frame : Bytes) (frameLen : Nat) : Except Stop Ipv4Stats :=
  if frameLen < ethernetHeaderSize + ipv4HeaderMinSize then .ok s.drop
  else do
    let packet := ethernetHeaderSize
    let packetCapacity := frameLen - ethernetHeaderSize
    let versionIhl ← loadAt frame (packet + versionIhlAt) frameLen
    let version := versionIhl.toNat >>> 4
    let ihl := versionIhl.toNat &&& 0x0f
    let headerLen := ihl * 4
    if version ≠ ipv4Version ∨ ihl < 5 ∨ headerLen > packetCapacity then return s.drop
    else
      let totalLength ← readBe16In frame frameLen (packet + totalLengthAt)
      if totalLength < headerLen ∨ totalLength > packetCapacity then return s.drop
      else
        let sum ← ipv4ChecksumIn frame frameLen packet headerLen
        if sum ≠ 0 then return s.drop
        else
          let flagsFragment ← readBe16In frame frameLen (packet + flagsFragmentOffsetAt)
          if flagsFragment &&& ipv4FlagMoreFragments ≠ 0
              ∨ flagsFragment &&& ipv4FragmentOffsetMask ≠ 0 then return s.drop
          else
            let dstIp ← readIpv4In frame frameLen (packet + dstIpAt)
            if ipv4IsForUs dstIp = false then return s.drop
            else
              let protocol ← loadAt frame (packet + protocolAt) frameLen
              return s.count protocol

/-! ## Sending -/

/-- What a transmission leaves in the driver. -/
structure NetTx where
  /-- `net_tx_vq` is set up. -/
  ready : Bool
  netTxPaddr : Nat
  /-- `net_tx_buf->frame` -/
  netTxBuf : Bytes
  /-- `net_tx_vq->descs[0]` -/
  desc : VirtqDesc
  netPendingTxLen : Nat

/-- `virtio_net_send_ethernet` -/
def virtioNetSendEthernet (t : NetTx) (dstMac : Mac) (ethertype : Nat) (payload : Bytes)
    (len : Int) : Int × NetTx :=
  let maxPayloadLen : Nat := ethMaxFrameSize - ethernetHeaderSize
  if t.ready = false ∨ len < 0 ∨ len > maxPayloadLen then (-1, t)
  else
    (len, { t with
      netTxBuf := ethernetFrame dstMac ethertype payload len.toNat
      desc := ⟨t.netTxPaddr, sizeofVirtioNetHdr + frameLen len.toNat, 0, 0⟩
      netPendingTxLen := frameLen len.toNat })

/-- `arp_request` -/
def arpRequest (t : NetTx) (targetIp : Nat) : Int × NetTx :=
  virtioNetSendEthernet t (fun _ => 0xff) arpEthertype
    (arpBuildPacket arpOperationRequest (fun _ => 0) targetIp) sizeofArpPacket

/-- What `ipv4_send` works on. -/
structure NetStack where
  arp : Arp
  stats : Ipv4Stats
  nextIdentification : Nat
  tx : NetTx

/-- The header that `ipv4_send` builds, with no checksum in it yet. -/
def ipv4Header (identification dstIp : Nat) (protocol : UInt8) (payloadLen : Nat) : Bytes :=
  let packet : Bytes := fun _ => 0
  let packet := Function.update packet versionIhlAt (UInt8.ofNat ((ipv4Version <<< 4) ||| 5))
  let packet := writeBe16 packet totalLengthAt (ipv4HeaderMinSize + payloadLen)
  let packet := writeBe16 packet identificationAt identification
  let packet := writeBe16 packet flagsFragmentOffsetAt 0
  let packet := Function.update packet ttlAt ipv4TtlDefault
  let packet := Function.update packet protocolAt protocol
  let packet := writeIpv4 packet srcIpAt ipv4LocalAddress
  writeIpv4 packet dstIpAt dstIp

/-- The packet it builds. -/
def ipv4Packet (identification dstIp : Nat) (protocol : UInt8) (payload : Bytes)
    (payloadLen : Nat) : Except Stop Bytes := do
  let packet := ipv4Header identification dstIp protocol payloadLen
  let packet ← (if payloadLen ≠ 0 then
      memcpy packet ipv4HeaderMinSize ipv4MaxPacketSize payload 0 payloadLen payloadLen
    else .ok packet)
  pure (writeBe16 packet headerChecksumAt (ipv4Checksum packet 0 ipv4HeaderMinSize))

/-- `stats.tx_dropped++` -/
def NetStack.dropTx (s : NetStack) : NetStack :=
  { s with stats := { s.stats with txDropped := u32 (s.stats.txDropped + 1) } }

/-- `ipv4_send`, with a `payload` of `payloadLen` bytes, which may be null. -/
def ipv4Send (s : NetStack) (dstIp : Nat) (protocol : UInt8) (payload : Option Bytes)
    (payloadLen : Nat) : Except Stop (Int × NetStack) :=
  if payload.isNone ∧ 0 < payloadLen then .ok (-1, s.dropTx)
  else if payloadLen > ipv4MaxPacketSize - ipv4HeaderMinSize then .ok (-1, s.dropTx)
  else
    let dstMac : Option Mac :=
      if dstIp = ipv4BroadcastAddress then some fun _ => 0xff else arpLookup s.arp.cache dstIp
    match dstMac with
    | none => .ok (-2, { s with tx := (arpRequest s.tx dstIp).2 }.dropTx)
    | some dstMac => do
        let totalLength := ipv4HeaderMinSize + payloadLen
        let packet ←
          ipv4Packet s.nextIdentification dstIp protocol (payload.getD fun _ => 0) payloadLen
        let sent := virtioNetSendEthernet s.tx dstMac ipv4Ethertype packet totalLength
        let s := { s with nextIdentification := u16 (s.nextIdentification + 1), tx := sent.2 }
        if sent.1 < 0 then pure (sent.1, s.dropTx)
        else
          pure (payloadLen,
            { s with stats := { s.stats with txPackets := u32 (s.stats.txPackets + 1) } })

/-! ## The counters -/

/-- What happens to the counters, one access after the other. -/
inductive StatsOp where
  /-- The handler calls `ipv4_receive`. -/
  | receive (frame : Bytes) (frameLen : Nat)
  /-- `ipv4_send` counts a packet that it sent. -/
  | sent
  /-- `ipv4_send` counts a packet that it did not send. -/
  | notSent

def statsOp (s : Ipv4Stats) : StatsOp → Ipv4Stats
  | .receive frame frameLen => ipv4Receive s frame frameLen
  | .sent => { s with txPackets := u32 (s.txPackets + 1) }
  | .notSent => { s with txDropped := u32 (s.txDropped + 1) }

end Os1000
