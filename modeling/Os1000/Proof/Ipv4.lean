import Os1000.Net.Receive
import Os1000.Proof.Common
import Os1000.Proof.Capture
import Os1000.Proof.Checksum

/-!
# What is sent is received

`ipv4_send` computes the checksum of a header that has zero in the checksum's place;
`ipv4_receive` computes it with the checksum in place and expects zero. Between them lies the
frame: the packet is moved by fourteen bytes and followed by zeros up to sixty, so that the
receiver only learns from the header where the payload ends.
-/

namespace Os1000.Proof

open Os1000 Lib

/-! ## The packet -/

section

variable {identification dstIp payloadLen x : Nat} {protocol : UInt8} {payload : Bytes}

/-- Nothing but the header is written, and of it the checksum's place stays zero. -/
theorem ipv4Header_zero (h : x = 10 ∨ x = 11 ∨ ipv4HeaderMinSize ≤ x) :
    ipv4Header identification dstIp protocol payloadLen x = 0 := by
  have hsize : ipv4HeaderMinSize = 20 := rfl
  unfold ipv4Header
  dsimp only [versionIhlAt, totalLengthAt, identificationAt, flagsFragmentOffsetAt, ttlAt,
    protocolAt, srcIpAt, dstIpAt]
  rw [writeIpv4_of_outside (by omega), writeIpv4_of_outside (by omega),
    Function.update_of_ne (by omega), Function.update_of_ne (by omega),
    writeBe16_of_outside (by omega), writeBe16_of_outside (by omega),
    writeBe16_of_outside (by omega), Function.update_of_ne (by omega)]

/-- What a receiver reads of the header. -/
structure HeaderFields (b : Bytes) (off dstIp : Nat) (protocol : UInt8) (payloadLen : Nat) :
    Prop where
  versionIhl : b (off + versionIhlAt) = 0x45
  totalLength : readBe16 b (off + totalLengthAt) = ipv4HeaderMinSize + payloadLen
  flagsFragment : readBe16 b (off + flagsFragmentOffsetAt) = 0
  protocol : b (off + protocolAt) = protocol
  dstIp : readIpv4 b (off + dstIpAt) = dstIp

theorem ipv4Header_fields (hip : dstIp < 2 ^ 32)
    (hlen : ipv4HeaderMinSize + payloadLen < 2 ^ 16) :
    HeaderFields (ipv4Header identification dstIp protocol payloadLen) 0 dstIp protocol
      payloadLen := by
  unfold ipv4Header
  -- later writes lie beside the field that is read
  constructor
  all_goals
    rw [Nat.zero_add]
    dsimp only [versionIhlAt, totalLengthAt, identificationAt, flagsFragmentOffsetAt, ttlAt,
      protocolAt, srcIpAt, dstIpAt]
  · rw [writeIpv4_of_outside (by omega), writeIpv4_of_outside (by omega),
      Function.update_of_ne (by omega), Function.update_of_ne (by omega),
      writeBe16_of_outside (by omega), writeBe16_of_outside (by omega),
      writeBe16_of_outside (by omega), Function.update_self]
    rfl
  · rw [readBe16_congr fun x _ hx => writeIpv4_of_outside (by omega),
      readBe16_congr fun x _ hx => writeIpv4_of_outside (by omega),
      readBe16_congr fun x _ hx => Function.update_of_ne (by omega) _ _,
      readBe16_congr fun x _ hx => Function.update_of_ne (by omega) _ _,
      readBe16_congr fun x _ hx => writeBe16_of_outside (by omega),
      readBe16_congr fun x _ hx => writeBe16_of_outside (by omega)]
    exact readBe16_writeBe16 hlen
  · rw [readBe16_congr fun x _ hx => writeIpv4_of_outside (by omega),
      readBe16_congr fun x _ hx => writeIpv4_of_outside (by omega),
      readBe16_congr fun x _ hx => Function.update_of_ne (by omega) _ _,
      readBe16_congr fun x _ hx => Function.update_of_ne (by omega) _ _]
    exact readBe16_writeBe16 (by decide)
  · rw [writeIpv4_of_outside (by omega), writeIpv4_of_outside (by omega), Function.update_self]
  · exact readIpv4_writeIpv4 hip

/-- The fields do not depend on where the header lies, nor on its checksum. -/
theorem HeaderFields.congr {b b' : Bytes} {off off' : Nat}
    (h : HeaderFields b off dstIp protocol payloadLen)
    (hb : ∀ x < ipv4HeaderMinSize, x < 10 ∨ 12 ≤ x → b' (off' + x) = b (off + x)) :
    HeaderFields b' off' dstIp protocol payloadLen := by
  have hsize : ipv4HeaderMinSize = 20 := rfl
  have hbe : ∀ at', at' + 2 ≤ 10 → readBe16 b' (off' + at') = readBe16 b (off + at') := by
    intro at' hat
    unfold readBe16
    rw [Nat.add_assoc, Nat.add_assoc, hb at' (by omega) (by omega),
      hb (at' + 1) (by omega) (by omega)]
  constructor
  · exact (hb versionIhlAt (by decide) (by decide)).trans h.versionIhl
  · exact (hbe totalLengthAt (by decide)).trans h.totalLength
  · exact (hbe flagsFragmentOffsetAt (by decide)).trans h.flagsFragment
  · exact (hb protocolAt (by decide) (by decide)).trans h.protocol
  · rw [← h.dstIp]
    unfold readIpv4
    simp only [Nat.add_assoc]
    rw [hb dstIpAt (by decide) (by decide), hb (dstIpAt + 1) (by decide) (by decide),
      hb (dstIpAt + 2) (by decide) (by decide), hb (dstIpAt + 3) (by decide) (by decide)]

/-- **The packet**: its header has its checksum, and its payload follows. -/
theorem ipv4Packet_ok (identification : Nat) (protocol : UInt8) (payload : Bytes)
    (hip : dstIp < 2 ^ 32) (hlen : payloadLen ≤ ipv4MaxPacketSize - ipv4HeaderMinSize) :
    ∃ packet, ipv4Packet identification dstIp protocol payload payloadLen = .ok packet
      ∧ HeaderFields packet 0 dstIp protocol payloadLen
      ∧ ipv4Checksum packet 0 ipv4HeaderMinSize = 0
      ∧ ∀ i < payloadLen, packet (ipv4HeaderMinSize + i) = payload i := by
  have hmax : ipv4MaxPacketSize = 1500 := rfl
  have hsize : ipv4HeaderMinSize = 20 := rfl
  obtain ⟨header, hheader⟩ :
      ∃ header, header = ipv4Header identification dstIp protocol payloadLen := ⟨_, rfl⟩
  obtain ⟨p, hp⟩ : ∃ p, p = blit header ipv4HeaderMinSize payload 0 payloadLen := ⟨_, rfl⟩
  have hcopy : (if payloadLen ≠ 0 then
      memcpy header ipv4HeaderMinSize ipv4MaxPacketSize payload 0 payloadLen payloadLen
      else .ok header) = .ok p := by
    rw [hp]
    split
    · exact memcpy_ok (by omega) (by omega)
    · rename_i h
      rw [Decidable.not_not.mp h, blit_zero]
  have hbefore : ∀ x < ipv4HeaderMinSize, p x = header x := fun x hx => by
    rw [hp, blit_outside (Or.inl hx)]
  have hzero : readBe16 p 10 = 0 := by
    unfold readBe16
    rw [hbefore 10 (by decide), hbefore 11 (by decide), hheader, ipv4Header_zero (by decide),
      ipv4Header_zero (by decide)]
    rfl
  have hsealed : ipv4Checksum (writeBe16 p (0 + 2 * 5) _) 0 ipv4HeaderMinSize = 0 :=
    ipv4Checksum_write (by decide) (by decide) hzero
  refine ⟨_, ?_, ?_, hsealed, fun i hi => ?_⟩
  · unfold ipv4Packet
    dsimp only
    rw [← hheader, hcopy]
    rfl
  · have hfields : HeaderFields (ipv4Header identification dstIp protocol payloadLen) 0 dstIp
        protocol payloadLen := ipv4Header_fields hip (by omega)
    refine hfields.congr fun x hx hout => ?_
    rw [writeBe16_of_outside (by omega), Nat.zero_add, hbefore x hx, hheader]
  · rw [writeBe16_of_outside (by omega), hp, blit_inside hi, Nat.zero_add]

/-! ## The frame -/

/-- A packet in a frame. -/
theorem HeaderFields.frame {packet : Bytes} {dstMac : Mac} {ethertype len : Nat}
    (h : HeaderFields packet 0 dstIp protocol payloadLen) (hlen : ipv4HeaderMinSize ≤ len) :
    HeaderFields (ethernetFrame dstMac ethertype packet len) ethernetHeaderSize dstIp protocol
      payloadLen :=
  h.congr fun x hx _ => by rw [Nat.zero_add, ethernetFrame_payload (by omega)]

theorem ipv4Checksum_frame {packet : Bytes} {dstMac : Mac} {ethertype len : Nat}
    (hlen : ipv4HeaderMinSize ≤ len) :
    ipv4Checksum (ethernetFrame dstMac ethertype packet len) ethernetHeaderSize ipv4HeaderMinSize
      = ipv4Checksum packet 0 ipv4HeaderMinSize := by
  have hsize : ipv4HeaderMinSize = 2 * 10 := rfl
  have hsum : wordSum (ethernetFrame dstMac ethertype packet len) ethernetHeaderSize 10
      = wordSum packet 0 10 := by
    refine Finset.sum_congr rfl fun i hi => ?_
    rw [Finset.mem_range] at hi
    rw [readBe16_payload (by omega), Nat.zero_add]
  rw [hsize, ipv4Checksum_eq (by decide), ipv4Checksum_eq (by decide), hsum]

/-- **A packet that is accepted.** The frame may be longer than the packet. -/
theorem ipv4Receive_accepts {frame : Bytes} {frameLen : Nat} (s : Ipv4Stats)
    (h : HeaderFields frame ethernetHeaderSize dstIp protocol payloadLen)
    (hsum : ipv4Checksum frame ethernetHeaderSize ipv4HeaderMinSize = 0)
    (hdst : ipv4IsForUs dstIp = true)
    (hlen : ethernetHeaderSize + ipv4HeaderMinSize + payloadLen ≤ frameLen) :
    ipv4Receive s frame frameLen = s.count protocol := by
  have hsize : ipv4HeaderMinSize = 20 := rfl
  unfold ipv4Receive
  rw [if_neg (by omega)]
  dsimp only
  rw [h.versionIhl, h.totalLength, h.flagsFragment, h.protocol, h.dstIp,
    show (0x45 : UInt8).toNat >>> 4 = 4 from rfl, show (0x45 : UInt8).toNat &&& 0x0f = 5 from rfl,
    show 5 * 4 = ipv4HeaderMinSize from rfl, hsum, hdst]
  rw [if_neg, if_neg, if_neg, if_neg, if_neg]
  · decide
  · decide
  · decide
  · omega
  · simp only [ipv4Version]
    omega

theorem ipv4Receive_frame_accepts {packet : Bytes} {dstMac : Mac} (s : Ipv4Stats)
    (h : HeaderFields packet 0 dstIp protocol payloadLen)
    (hsum : ipv4Checksum packet 0 ipv4HeaderMinSize = 0) (hdst : ipv4IsForUs dstIp = true) :
    ipv4Receive s (ethernetFrame dstMac ipv4Ethertype packet (ipv4HeaderMinSize + payloadLen))
      (frameLen (ipv4HeaderMinSize + payloadLen)) = s.count protocol := by
  refine ipv4Receive_accepts s (h.frame (by omega)) ?_ hdst ?_
  · rw [ipv4Checksum_frame (by omega)]
    exact hsum
  · unfold frameLen
    omega

/-- What is counted. -/
theorem stats_count (s : Ipv4Stats) (protocol : UInt8) : s.count protocol = { s with
    rxPackets := u32 (s.rxPackets + 1)
    rxIcmp := if protocol = 1 then u32 (s.rxIcmp + 1) else s.rxIcmp
    rxUdp := if protocol = 17 then u32 (s.rxUdp + 1) else s.rxUdp
    rxTcp := if protocol = 6 then u32 (s.rxTcp + 1) else s.rxTcp
    rxOther := if protocol = 1 ∨ protocol = 17 ∨ protocol = 6 then s.rxOther
      else u32 (s.rxOther + 1) } := by
  unfold Ipv4Stats.count ipv4ProtocolIcmp ipv4ProtocolUdp ipv4ProtocolTcp
  by_cases h1 : protocol = 1
  · simp [h1]
  · by_cases h17 : protocol = 17
    · simp [h17]
    · by_cases h6 : protocol = 6
      · simp [h6]
      · simp [h1, h17, h6]

/-! ## The way out and the way in -/

theorem sendEthernet_ok {t : NetTx} {dstMac : Mac} {ethertype len : Nat} (hready : t.ready = true)
    (hlen : len ≤ ethMaxFrameSize - ethernetHeaderSize) :
    virtioNetSendEthernet t dstMac ethertype payload len = ((len : Int), { t with
      netTxBuf := ethernetFrame dstMac ethertype payload len
      desc := ⟨t.netTxPaddr, sizeofVirtioNetHdr + frameLen len, 0, 0⟩
      netPendingTxLen := frameLen len }) := by
  unfold virtioNetSendEthernet
  dsimp only
  rw [if_neg, Int.toNat_natCast]
  rintro (h | h | h)
  · rw [hready] at h
    cases h
  · omega
  · omega

/-- `ipv4_send` to a host whose address is known. -/
theorem ipv4Send_ok {s : NetStack} {payload : Option Bytes} {packet : Bytes} {dstMac : Mac}
    (hlen : payloadLen ≤ ipv4MaxPacketSize - ipv4HeaderMinSize)
    (hpayload : payload = none → payloadLen = 0) (hready : s.tx.ready = true)
    (hmac : (if dstIp = ipv4BroadcastAddress then some fun _ => 0xff
      else arpLookup s.arp.cache dstIp) = some dstMac)
    (hpacket : ipv4Packet s.nextIdentification dstIp protocol (payload.getD fun _ => 0) payloadLen
      = .ok packet) :
    ∃ s', ipv4Send s dstIp protocol payload payloadLen = .ok ((payloadLen : Int), s')
      ∧ s'.tx.netTxBuf
        = ethernetFrame dstMac ipv4Ethertype packet (ipv4HeaderMinSize + payloadLen)
      ∧ s'.tx.desc.len = sizeofVirtioNetHdr + frameLen (ipv4HeaderMinSize + payloadLen) := by
  have hmax : ipv4MaxPacketSize = 1500 := rfl
  have hsize : ipv4HeaderMinSize = 20 := rfl
  have heth : ethernetHeaderSize = 14 := rfl
  have hframe : ethMaxFrameSize = 1514 := rfl
  have hnull : ¬ (payload.isNone ∧ 0 < payloadLen) := by
    rintro ⟨hn, hpos⟩
    rw [hpayload (Option.isNone_iff_eq_none.mp hn)] at hpos
    omega
  unfold ipv4Send
  rw [if_neg hnull, if_neg (by omega)]
  dsimp only
  rw [hmac]
  dsimp only
  rw [hpacket, ok_bind, sendEthernet_ok hready (by omega), if_neg (by dsimp only; omega)]
  exact ⟨_, rfl, rfl, rfl⟩

theorem captureRx_ok {c : RxCapture} {frame : Bytes} {n ethertype : Nat}
    (h : n ≤ ethMaxFrameSize) : ∃ c', virtioNetCaptureRx c frame n ethertype = .ok c' := by
  unfold virtioNetCaptureRx
  split
  · exact ⟨_, rfl⟩
  · dsimp only
    rw [memcpy_ok (by omega) (by omega)]
    exact ⟨_, rfl⟩

/-- A frame of this type goes to `ipv4_receive`, and only there. -/
theorem receiveBuffer_ipv4 {frame : Bytes} {len : Nat} (n : NetRx)
    (htype : readBe16 frame 12 = ipv4Ethertype) (hlen : 14 ≤ len) (hmax : len ≤ ethMaxFrameSize) :
    ∃ n', receiveBuffer n frame (sizeofVirtioNetHdr + len) = .ok n'
      ∧ n'.ipv4 = ipv4Receive n.ipv4 frame len ∧ n'.arp = n.arp
      ∧ n'.netRxTestPackets = n.netRxTestPackets ∧ n'.netLastRxEthertype = ipv4Ethertype
      ∧ n'.netLastRxLen = len := by
  obtain ⟨c, hc⟩ : ∃ c, virtioNetCaptureRx n.captures frame len ipv4Ethertype = .ok c :=
    captureRx_ok hmax
  unfold receiveBuffer
  rw [if_pos (by omega)]
  dsimp only
  rw [Nat.add_sub_cancel_left, if_neg (by omega), htype, hc, ok_bind]
  exact ⟨_, rfl, rfl, rfl, rfl, rfl, rfl⟩

end

/--
**What is sent is received.** Whatever the payload, the protocol and the identification, a
packet for everyone or for the local address that `ipv4_send` transmits, given back to
`virtio_net_drain_rx` as the descriptor describes it, goes to `ipv4_receive` and is accepted
there: of the counters, `rx_packets` and that of the protocol are raised, and no other. What
`total_length` leaves behind the header is the payload, without the zeros that fill up the
frame.
-/
theorem ipv4_send_receive (s : NetStack) (n : NetRx) (dstIp : Nat) (protocol : UInt8)
    (payload : Option Bytes) (payloadLen : Nat)
    (hlen : payloadLen ≤ ipv4MaxPacketSize - ipv4HeaderMinSize)
    (hpayload : payload = none → payloadLen = 0) (hready : s.tx.ready = true)
    (hdst : dstIp = ipv4BroadcastAddress
      ∨ dstIp = ipv4LocalAddress ∧ (arpLookup s.arp.cache dstIp).isSome) :
    ∃ s', ipv4Send s dstIp protocol payload payloadLen = .ok ((payloadLen : Int), s')
      ∧ s'.tx.desc.len
        = sizeofVirtioNetHdr + max 60 (ethernetHeaderSize + ipv4HeaderMinSize + payloadLen)
      ∧ ∃ n', receiveBuffer n s'.tx.netTxBuf s'.tx.desc.len = .ok n'
        ∧ n'.netLastRxEthertype = ipv4Ethertype
        ∧ n'.ipv4 = { n.ipv4 with
            rxPackets := u32 (n.ipv4.rxPackets + 1)
            rxIcmp := if protocol = 1 then u32 (n.ipv4.rxIcmp + 1) else n.ipv4.rxIcmp
            rxUdp := if protocol = 17 then u32 (n.ipv4.rxUdp + 1) else n.ipv4.rxUdp
            rxTcp := if protocol = 6 then u32 (n.ipv4.rxTcp + 1) else n.ipv4.rxTcp
            rxOther := if protocol = 1 ∨ protocol = 17 ∨ protocol = 6 then n.ipv4.rxOther
              else u32 (n.ipv4.rxOther + 1) }
        ∧ n'.arp = n.arp ∧ n'.netRxTestPackets = n.netRxTestPackets
        ∧ readBe16 s'.tx.netTxBuf (ethernetHeaderSize + totalLengthAt)
          = ipv4HeaderMinSize + payloadLen
        ∧ ∀ bytes, payload = some bytes → ∀ i < payloadLen,
          s'.tx.netTxBuf (ethernetHeaderSize + ipv4HeaderMinSize + i) = bytes i := by
  have hmax : ipv4MaxPacketSize = 1500 := rfl
  have hsize : ipv4HeaderMinSize = 20 := rfl
  have heth : ethernetHeaderSize = 14 := rfl
  have hframe : ethMaxFrameSize = 1514 := rfl
  have hip : dstIp < 2 ^ 32 := by
    rcases hdst with rfl | ⟨rfl, _⟩
    · decide
    · decide
  have hus : ipv4IsForUs dstIp = true := by
    rcases hdst with rfl | ⟨rfl, _⟩
    · decide
    · decide
  obtain ⟨dstMac, hmac⟩ : ∃ mac, (if dstIp = ipv4BroadcastAddress then some fun _ => 0xff
      else arpLookup s.arp.cache dstIp) = some mac := by
    rcases hdst with rfl | ⟨_, hfound⟩
    · exact ⟨_, if_pos rfl⟩
    · split
      · exact ⟨_, rfl⟩
      · exact Option.isSome_iff_exists.mp hfound
  obtain ⟨packet, hpacket, hfields, hsum, hbytes⟩ :=
    ipv4Packet_ok s.nextIdentification protocol (payload.getD fun _ => 0) hip hlen
  obtain ⟨s', hsend, hbuf, hdesc⟩ := ipv4Send_ok hlen hpayload hready hmac hpacket
  have hfl : frameLen (ipv4HeaderMinSize + payloadLen)
      = max 60 (ethernetHeaderSize + ipv4HeaderMinSize + payloadLen) := by
    unfold frameLen
    rw [Nat.add_assoc]
  have htype : readBe16 (ethernetFrame dstMac ipv4Ethertype packet (ipv4HeaderMinSize + payloadLen))
      12 = ipv4Ethertype := readBe16_ethernetFrame (by decide)
  have hmin : 14 ≤ frameLen (ipv4HeaderMinSize + payloadLen) := by omega
  obtain ⟨n', hn', hstats, harp, htest, htype, _⟩ :=
    receiveBuffer_ipv4 n htype hmin (by omega)
  refine ⟨s', hsend, by rw [hdesc, hfl], n', ?_, htype, ?_, harp, htest, ?_, ?_⟩
  · rw [hbuf, hdesc]
    exact hn'
  · rw [hstats, ipv4Receive_frame_accepts _ hfields hsum hus]
    exact stats_count ..
  · rw [hbuf]
    exact (hfields.frame (by omega)).totalLength
  · intro bytes hpay i hi
    rw [hbuf, Nat.add_assoc, ethernetFrame_payload (by omega), hbytes i hi, hpay]
    rfl

/-- Five bytes of UDP to the local address, as the last packet before the identification
wraps around; the frame is filled up to sixty bytes. -/
theorem ipv4_send_receive_udp :
    ∃ s', ipv4Send ⟨⟨fun _ => ⟨true, ipv4LocalAddress, netMac⟩, ⟨false, fun _ => 0, 0⟩⟩,
        ⟨0, 0, 0, 0, 0, 0, 0, 0⟩, 65535, ⟨true, 0x80300000, fun _ => 0, ⟨0, 0, 0, 0⟩, 0⟩⟩
        ipv4LocalAddress 17 (some fun _ => 7) 5 = .ok (5, s')
      ∧ s'.tx.desc.len = 70
      ∧ ∃ n', receiveBuffer ⟨0, 0, 0, ⟨fun _ => ⟨0, 0, fun _ => 0⟩, 0, 0, 0⟩, arpInit,
          ⟨0, 0, 0, 0, 0, 0, 0, 0⟩, fun _ => 0, 0, 0⟩ s'.tx.netTxBuf s'.tx.desc.len = .ok n'
        ∧ n'.ipv4 = ⟨1, 0, 0, 1, 0, 0, 0, 0⟩ := by
  obtain ⟨s', hsend, hdesc, n', hrecv, _, hstats, _⟩ := ipv4_send_receive
    ⟨⟨fun _ => ⟨true, ipv4LocalAddress, netMac⟩, ⟨false, fun _ => 0, 0⟩⟩,
      ⟨0, 0, 0, 0, 0, 0, 0, 0⟩, 65535, ⟨true, 0x80300000, fun _ => 0, ⟨0, 0, 0, 0⟩, 0⟩⟩
    ⟨0, 0, 0, ⟨fun _ => ⟨0, 0, fun _ => 0⟩, 0, 0, 0⟩, arpInit, ⟨0, 0, 0, 0, 0, 0, 0, 0⟩,
      fun _ => 0, 0, 0⟩ ipv4LocalAddress 17 (some fun _ => 7) 5 (by decide)
    (fun h => by cases h) rfl (Or.inr ⟨rfl, by decide⟩)
  exact ⟨s', hsend, hdesc, n', hrecv, hstats⟩

end Os1000.Proof
