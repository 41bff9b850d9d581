import Os1000.Proof.ArpCache
import Os1000.Proof.Ipv4
import Os1000.Spec.Endpoint

/-!
# Frames and what they say

A frame that is sent says a message, and a frame that is received may say who has an
address. Both are statements about the bytes of the frame. A frame that is sent has zeros
behind its payload: nothing of an earlier frame is left in the buffer.
-/

namespace Os1000.Proof

open Os1000 Lib

/-! ## Frames that are sent -/

/-- A frame of this host to `dst`, with `len` bytes of payload. -/
structure Framed (f : SentFrame) (dst : Mac) (ethertype len : Nat) : Prop where
  dst : readMac f.1 0 = dst
  src : readMac f.1 6 = netMac
  ethertype : readBe16 f.1 12 = ethertype
  length : f.2 = max 60 (ethernetHeaderSize + len)
  padding : ∀ x, ethernetHeaderSize + len ≤ x → f.1 x = 0

/-- The payload of a frame, from byte `off` on. -/
def Carried (f : SentFrame) (off : Nat) (payload : List UInt8) : Prop :=
  ∀ (i : Nat) b, payload[i]? = some b → f.1 (off + i) = b

/-- What the frame says. -/
def Encodes (f : SentFrame) : Message → Prop
  | .request ip => Framed f (fun _ => 0xff) arpEthertype sizeofArpPacket
      ∧ Decodes f.1 f.2 (fun _ => 0xff) arpOperationRequest netMac ipv4LocalAddress (fun _ => 0) ip
  | .reply mac ip => Framed f mac arpEthertype sizeofArpPacket
      ∧ Decodes f.1 f.2 mac arpOperationReply netMac ipv4LocalAddress mac ip
  | .packet mac identification dstIp protocol payload =>
      Framed f mac ipv4Ethertype (ipv4HeaderMinSize + payload.length)
      ∧ HeaderFields f.1 ethernetHeaderSize dstIp protocol payload.length
      ∧ readBe16 f.1 (ethernetHeaderSize + identificationAt) = identification
      ∧ readIpv4 f.1 (ethernetHeaderSize + srcIpAt) = ipv4LocalAddress
      ∧ ipv4Checksum f.1 ethernetHeaderSize ipv4HeaderMinSize = 0
      ∧ Carried f (ethernetHeaderSize + ipv4HeaderMinSize) payload
  | .raw payload => Framed f (fun _ => 0xff) virtioNetTestEthertype payload.length
      ∧ Carried f ethernetHeaderSize payload

section

variable {dst mac : Mac} {ethertype len ip identification payloadLen : Nat} {payload packet : Bytes}
  {protocol : UInt8}

theorem readMac_src : readMac (ethernetFrame dst ethertype payload len) 6 = netMac := by
  funext i
  have hi := i.isLt
  show ethernetFrame dst ethertype payload len (6 + i) = netMac i
  unfold ethernetFrame
  rw [dif_neg (by omega), dif_pos (by omega)]
  congr 1
  exact Fin.ext (Nat.add_sub_cancel_left ..)

theorem ethernetFrame_framed (ht : ethertype < 2 ^ 16) :
    Framed (ethernetFrame dst ethertype payload len, frameLen len) dst ethertype len where
  dst := readMac_ethernetFrame
  src := readMac_src
  ethertype := readBe16_ethernetFrame ht
  length := rfl
  padding x hx := by
    have he : ethernetHeaderSize = 14 := rfl
    show ethernetFrame dst ethertype payload len x = 0
    unfold ethernetFrame
    rw [dif_neg (by omega), dif_neg (by omega), if_neg (by omega), if_neg (by omega),
      if_neg (by omega)]

theorem given_getElem? {b : UInt8} {i : Nat} (h : (given payload len)[i]? = some b) :
    i < len ∧ payload i = b := by
  unfold given at h
  rw [List.getElem?_map, Option.map_eq_some_iff] at h
  obtain ⟨j, hj, hb⟩ := h
  obtain ⟨hi, he⟩ := List.getElem?_eq_some_iff.mp hj
  rw [List.getElem_range] at he
  rw [List.length_range] at hi
  exact ⟨hi, he ▸ hb⟩

@[simp] theorem given_length (payload : Bytes) (len : Nat) : (given payload len).length = len := by
  simp [given]

theorem encodes_request (hip : ip < 2 ^ 32) :
    Encodes (ethernetFrame (fun _ => 0xff) arpEthertype
      (arpBuildPacket arpOperationRequest (fun _ => 0) ip) sizeofArpPacket,
      frameLen sizeofArpPacket) (.request ip) := by
  have hop : arpOperationRequest < 2 ^ 16 := by decide
  refine ⟨ethernetFrame_framed (by decide), ?_⟩
  dsimp only
  exact arpBuildPacket_decodes hop hip

theorem encodes_reply (hip : ip < 2 ^ 32) :
    Encodes (ethernetFrame mac arpEthertype (arpBuildPacket arpOperationReply mac ip)
      sizeofArpPacket, frameLen sizeofArpPacket) (.reply mac ip) := by
  have hop : arpOperationReply < 2 ^ 16 := by decide
  exact ⟨ethernetFrame_framed (by decide), arpBuildPacket_decodes hop hip⟩

theorem encodes_raw :
    Encodes (ethernetFrame (fun _ => 0xff) virtioNetTestEthertype payload len, frameLen len)
      (.raw (given payload len)) := by
  refine ⟨?_, fun i b hb => ?_⟩
  · rw [given_length]
    exact ethernetFrame_framed (by decide)
  · obtain ⟨hi, rfl⟩ := given_getElem? hb
    dsimp only
    exact ethernetFrame_payload hi

/-! ## The packets that are sent -/

theorem ipv4Header_identification (h : identification < 2 ^ 16) :
    readBe16 (ipv4Header identification ip protocol payloadLen) identificationAt
      = identification := by
  unfold ipv4Header
  dsimp only [versionIhlAt, totalLengthAt, identificationAt, flagsFragmentOffsetAt, ttlAt,
    protocolAt, srcIpAt, dstIpAt]
  rw [readBe16_congr fun x _ hx => writeIpv4_of_outside (by omega),
    readBe16_congr fun x _ hx => writeIpv4_of_outside (by omega),
    readBe16_congr fun x _ hx => Function.update_of_ne (by omega) _ _,
    readBe16_congr fun x _ hx => Function.update_of_ne (by omega) _ _,
    readBe16_congr fun x _ hx => writeBe16_of_outside (by omega)]
  exact readBe16_writeBe16 h

theorem ipv4Header_srcIp :
    readIpv4 (ipv4Header identification ip protocol payloadLen) srcIpAt = ipv4LocalAddress := by
  unfold ipv4Header
  dsimp only [versionIhlAt, totalLengthAt, identificationAt, flagsFragmentOffsetAt, ttlAt,
    protocolAt, srcIpAt, dstIpAt]
  rw [readIpv4_congr fun x _ hx => writeIpv4_of_outside (by omega)]
  exact readIpv4_writeIpv4 (by decide)

/-- Apart from the checksum, the packet begins with the header. -/
theorem ipv4Packet_header {x : Nat}
    (h : ipv4Packet identification ip protocol payload payloadLen = .ok packet)
    (hlen : payloadLen ≤ ipv4MaxPacketSize - ipv4HeaderMinSize) (hx : x < ipv4HeaderMinSize)
    (hout : x < headerChecksumAt ∨ headerChecksumAt + 2 ≤ x) :
    packet x = ipv4Header identification ip protocol payloadLen x := by
  have hmax : ipv4MaxPacketSize = 1500 := rfl
  have hsize : ipv4HeaderMinSize = 20 := rfl
  unfold ipv4Packet at h
  dsimp only at h
  rw [bind_eq_ok] at h
  obtain ⟨p, hp, h⟩ := h
  rw [pure_eq_ok] at h
  rw [← h, writeBe16_of_outside hout]
  split at hp
  · rw [memcpy_ok (by omega) (by omega)] at hp
    rw [← Except.ok.inj hp, blit_outside (Or.inl hx)]
  · rw [← Except.ok.inj hp]

/-- The number of a packet in its frame. -/
theorem ipv4Frame_identification
    (h : ipv4Packet identification ip protocol payload payloadLen = .ok packet)
    (hid : identification < 2 ^ 16) (hlen : payloadLen ≤ ipv4MaxPacketSize - ipv4HeaderMinSize) :
    readBe16 (ethernetFrame mac ipv4Ethertype packet (ipv4HeaderMinSize + payloadLen))
      (ethernetHeaderSize + identificationAt) = identification := by
  have hsize : ipv4HeaderMinSize = 20 := rfl
  have hsum : headerChecksumAt = 10 := rfl
  have hat : identificationAt = 4 := rfl
  rw [readBe16_payload (by omega),
    readBe16_congr fun x h1 h2 => ipv4Packet_header h hlen (by omega) (by omega)]
  exact ipv4Header_identification hid

/-- **The packet in its frame.** -/
theorem encodes_packet (hid : identification < 2 ^ 16) (hip : ip < 2 ^ 32)
    (hlen : payloadLen ≤ ipv4MaxPacketSize - ipv4HeaderMinSize) :
    ∃ packet, ipv4Packet identification ip protocol payload payloadLen = .ok packet
      ∧ Encodes (ethernetFrame mac ipv4Ethertype packet (ipv4HeaderMinSize + payloadLen),
          frameLen (ipv4HeaderMinSize + payloadLen))
        (.packet mac identification ip protocol (given payload payloadLen)) := by
  have hsize : ipv4HeaderMinSize = 20 := rfl
  have hsum10 : headerChecksumAt = 10 := rfl
  obtain ⟨packet, hpacket, hfields, hsum, hbytes⟩ :=
    ipv4Packet_ok identification protocol payload hip hlen
  have hhead := fun x => ipv4Packet_header (x := x) hpacket hlen
  have hsrcAt : srcIpAt = 12 := rfl
  refine ⟨packet, hpacket, ?_, ?_, ?_, ?_, ?_, fun i b hb => ?_⟩
  · rw [given_length]
    exact ethernetFrame_framed (by decide)
  · rw [given_length]
    exact hfields.frame (by omega)
  · exact ipv4Frame_identification hpacket hid hlen
  · rw [readIpv4_payload (by omega), readIpv4_congr fun x h1 h2 => hhead x (by omega) (by omega)]
    exact ipv4Header_srcIp
  · rw [ipv4Checksum_frame (by omega)]
    exact hsum
  · obtain ⟨hi, rfl⟩ := given_getElem? hb
    show ethernetFrame mac ipv4Ethertype packet (ipv4HeaderMinSize + payloadLen) _ = payload i
    rw [Nat.add_assoc, ethernetFrame_payload (by omega)]
    exact hbytes i hi

end

/-! ## Frames that are received -/

/-- How long the frame is, of a buffer with `packetLen` bytes in it. -/
def receivedLen (packetLen : Nat) : Nat := min (packetLen - sizeofVirtioNetHdr) ethMaxFrameSize

/-- The type of the frame, if there is a whole Ethernet header. -/
def typeOf (frame : Bytes) (packetLen : Nat) : Option Nat :=
  if sizeofVirtioNetHdr + 14 ≤ packetLen then some (readBe16 frame 12) else none

/-- Who says to have which address, and whether they ask for ours. -/
def heardIn (frame : Bytes) (packetLen : Nat) : Option (Nat × Mac × Bool) :=
  if typeOf frame packetLen = some arpEthertype ∧ arpAccepts frame (receivedLen packetLen) = true
  then some (readIpv4 frame senderIpAt, readMac frame senderMacAt,
    decide (readBe16 frame operationAt = arpOperationRequest
      ∧ readIpv4 frame targetIpAt = ipv4LocalAddress))
  else none

/-- What a received frame changes. -/
structure Received (n : NetRx) (frame : Bytes) (packetLen : Nat) (n' : NetRx) : Prop where
  packets : n'.netRxPackets = u32 (n.netRxPackets + 1)
  arp : n'.arp = if typeOf frame packetLen = some arpEthertype
    then arpReceive n.arp frame (receivedLen packetLen) else n.arp
  ipv4 : n'.ipv4 = if typeOf frame packetLen = some ipv4Ethertype
    then ipv4Receive n.ipv4 frame (receivedLen packetLen) else n.ipv4
  testPackets : n'.netRxTestPackets = if typeOf frame packetLen = some virtioNetTestEthertype
    then u32 (n.netRxTestPackets + 1) else n.netRxTestPackets

theorem dispatchFrame_ok (n : NetRx) (frame : Bytes) {len : Nat} (ethType : Nat)
    (hlen : len ≤ ethMaxFrameSize) :
    ∃ n', dispatchFrame n frame len ethType = .ok n'
      ∧ n'.netRxPackets = n.netRxPackets
      ∧ n'.arp = (if ethType = arpEthertype then arpReceive n.arp frame len else n.arp)
      ∧ n'.ipv4 = (if ethType = ipv4Ethertype then ipv4Receive n.ipv4 frame len else n.ipv4)
      ∧ n'.netRxTestPackets = if ethType = virtioNetTestEthertype
        then u32 (n.netRxTestPackets + 1) else n.netRxTestPackets := by
  unfold dispatchFrame
  dsimp only
  by_cases ha : ethType = arpEthertype
  · subst ha
    exact ⟨_, rfl, rfl, rfl, rfl, rfl⟩
  · by_cases hi : ethType = ipv4Ethertype
    · subst hi
      exact ⟨_, rfl, rfl, rfl, rfl, rfl⟩
    · rw [if_neg ha, if_neg hi, if_neg ha, if_neg hi]
      by_cases ht : ethType = virtioNetTestEthertype
      · rw [if_pos ht, if_pos ht, memcpy_ok (by omega) (by omega)]
        exact ⟨_, rfl, rfl, rfl, rfl, rfl⟩
      · rw [if_neg ht, if_neg ht]
        exact ⟨_, rfl, rfl, rfl, rfl, rfl⟩

/-- **A buffer that the device used** is taken in without fault, whatever is in it. -/
theorem receiveBuffer_ok (n : NetRx) (frame : Bytes) (packetLen : Nat) :
    ∃ n', receiveBuffer n frame packetLen = .ok n' ∧ Received n frame packetLen n' := by
  unfold receiveBuffer
  by_cases hlong : sizeofVirtioNetHdr + 14 ≤ packetLen
  · have htype : typeOf frame packetLen = some (readBe16 frame 12) := if_pos hlong
    have hlen : (if packetLen - sizeofVirtioNetHdr > ethMaxFrameSize then ethMaxFrameSize
        else packetLen - sizeofVirtioNetHdr) = receivedLen packetLen := by
      unfold receivedLen
      split <;> omega
    have hmax : receivedLen packetLen ≤ ethMaxFrameSize := Nat.min_le_right ..
    rw [if_pos hlong]
    dsimp only
    rw [hlen]
    obtain ⟨c, hc⟩ : ∃ c, virtioNetCaptureRx n.captures frame (receivedLen packetLen)
        (readBe16 frame 12) = .ok c := captureRx_ok hmax
    rw [hc, ok_bind]
    obtain ⟨n', hn', hpackets, harp, hipv4, htest⟩ := dispatchFrame_ok
      { n with
        netRxPackets := u32 (n.netRxPackets + 1)
        netLastRxLen := receivedLen packetLen
        netLastRxEthertype := readBe16 frame 12
        captures := c } frame (readBe16 frame 12) hmax
    refine ⟨n', hn', hpackets, ?_, ?_, ?_⟩
    · simpa [htype] using harp
    · simpa [htype] using hipv4
    · simpa [htype] using htest
  · have htype : typeOf frame packetLen = none := if_neg hlong
    rw [if_neg hlong]
    refine ⟨_, rfl, rfl, ?_, ?_, ?_⟩
    · simp [htype]
    · simp [htype]
    · simp [htype]

end Os1000.Proof
