import Os1000.Layout
import Mathlib.Logic.Function.Basic

/-!
# ARP (`kernel/arp.c`)

A received ARP frame is checked, its sender is entered into a cache of eight slots,
and a request for the local address leaves a reply pending. `arp_receive` runs from
the interrupt handler, one frame after the other.

Frames are byte arrays with a length, as the driver hands them over. Addresses are
32-bit numbers, most significant byte first. `kernel/ipv4.c` has its own copies of the
helpers that read and write them, with the same bodies.
-/

namespace Os1000

/-- `ETHERNET_HEADER_SIZE` -/
def ethernetHeaderSize : Nat := 14
/-- `ARP_CACHE_SIZE` -/
def arpCacheSize : Nat := 8
/-- `ARP_HARDWARE_ETHERNET` -/
def arpHardwareEthernet : Nat := 1
/-- `ARP_PROTOCOL_IPV4` -/
def arpProtocolIpv4 : Nat := 0x0800
/-- `ARP_OPERATION_REQUEST` -/
def arpOperationRequest : Nat := 1
/-- `sizeof(struct arp_packet)` -/
def sizeofArpPacket : Nat := 28
/-- `IPV4_LOCAL_ADDRESS`, 10.0.2.15 -/
def ipv4LocalAddress : Nat := 0x0a00020f

/-- A hardware address. -/
abbrev Mac := Fin 6 → UInt8

/-- The bytes of a frame, from its first byte on. -/
abbrev Bytes := Nat → UInt8

/-- `read_be16` -/
def readBe16 (b : Bytes) (off : Nat) : Nat := ((b off).toNat <<< 8) ||| (b (off + 1)).toNat

/-- `read_ipv4` -/
def readIpv4 (b : Bytes) (off : Nat) : Nat :=
  ((b off).toNat <<< 24) ||| ((b (off + 1)).toNat <<< 16) ||| ((b (off + 2)).toNat <<< 8)
    ||| (b (off + 3)).toNat

/-- `copy_mac` out of a packet. -/
def readMac (b : Bytes) (off : Nat) : Mac := fun i => b (off + i)

/-- `write_be16` -/
def writeBe16 (b : Bytes) (off number : Nat) : Bytes :=
  let b := Function.update b off (UInt8.ofNat (number >>> 8))
  Function.update b (off + 1) (UInt8.ofNat (number &&& 0xff))

/-- `write_ipv4`, `write_ipv4_addr` -/
def writeIpv4 (b : Bytes) (off ip : Nat) : Bytes :=
  let b := Function.update b off (UInt8.ofNat (ip >>> 24))
  let b := Function.update b (off + 1) (UInt8.ofNat (ip >>> 16))
  let b := Function.update b (off + 2) (UInt8.ofNat (ip >>> 8))
  Function.update b (off + 3) (UInt8.ofNat ip)

/-- `copy_mac` into a packet. -/
def writeMac (b : Bytes) (off : Nat) (mac : Mac) : Bytes := fun x =>
  if h : off ≤ x ∧ x - off < 6 then mac ⟨x - off, h.2⟩ else b x

/-- `struct arp_packet`: where its fields lie in a frame. -/
def hardwareTypeAt : Nat := ethernetHeaderSize
def protocolTypeAt : Nat := ethernetHeaderSize + 2
def hardwareLenAt : Nat := ethernetHeaderSize + 4
def protocolLenAt : Nat := ethernetHeaderSize + 5
def operationAt : Nat := ethernetHeaderSize + 6
def senderMacAt : Nat := ethernetHeaderSize + 8
def senderIpAt : Nat := ethernetHeaderSize + 14
def targetIpAt : Nat := ethernetHeaderSize + 24

/-- `struct arp_cache_entry` -/
structure ArpCacheEntry where
  valid : Bool
  ip : Nat
  mac : Mac

/-- `struct arp_pending_reply` -/
structure ArpPendingReply where
  pending : Bool
  targetMac : Mac
  targetIp : Nat

/-- `arp_cache` -/
abbrev ArpCache := Nat → ArpCacheEntry

/-- The statics of `arp.c`. -/
structure Arp where
  cache : ArpCache
  pendingReply : ArpPendingReply

/-- `arp_init` -/
def arpInit : Arp where
  cache := fun _ => ⟨false, 0, fun _ => 0⟩
  pendingReply := ⟨false, fun _ => 0, 0⟩

/--
One iteration of the scan of `arp_cache_update`: stop at the entry for `ip`, remember the first
invalid one.
-/
def scanEntry (cache : ArpCache) (ip : Nat) (freeIndex : Option Nat) (i : Nat) :
    Except Nat (Option Nat) :=
  if (cache i).valid ∧ (cache i).ip = ip then .error i
  else if ¬ (cache i).valid ∧ freeIndex = none then .ok (some i)
  else .ok freeIndex

/-- `arp_cache_update` -/
def arpCacheUpdate (cache : ArpCache) (ip : Nat) (mac : Mac) : ArpCache :=
  match (List.range arpCacheSize).foldlM (scanEntry cache ip) none with
  | .error i => Function.update cache i { cache i with mac }
  | .ok freeIndex => Function.update cache (freeIndex.getD 0) ⟨true, ip, mac⟩

/-- The checks of `arp_receive`. -/
def arpAccepts (frame : Bytes) (frameLen : Nat) : Bool :=
  decide (ethernetHeaderSize + sizeofArpPacket ≤ frameLen)
    && decide (readBe16 frame hardwareTypeAt = arpHardwareEthernet)
    && decide (readBe16 frame protocolTypeAt = arpProtocolIpv4)
    && decide ((frame hardwareLenAt).toNat = 6)
    && decide ((frame protocolLenAt).toNat = 4)

/-- `arp_receive` -/
def arpReceive (a : Arp) (frame : Bytes) (frameLen : Nat) : Arp :=
  if arpAccepts frame frameLen then
    let senderIp := readIpv4 frame senderIpAt
    let targetIp := readIpv4 frame targetIpAt
    let operation := readBe16 frame operationAt
    let senderMac := readMac frame senderMacAt
    let cache := arpCacheUpdate a.cache senderIp senderMac
    if operation = arpOperationRequest ∧ targetIp = ipv4LocalAddress then
      { cache, pendingReply := ⟨true, senderMac, senderIp⟩ }
    else { a with cache }
  else a

/-- `arp_lookup`: the address it copies out, if it returns true. -/
def arpLookup (cache : ArpCache) (ip : Nat) : Option Mac :=
  ((List.range arpCacheSize).find? fun i =>
    decide ((cache i).valid ∧ (cache i).ip = ip)).map fun i => (cache i).mac

end Os1000
