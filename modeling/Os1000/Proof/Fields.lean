import Os1000.Net.ArpPoll

/-!
# Reading packets back

A field that was written is read back, and a field elsewhere is not disturbed. Then comes
where a byte of a payload ends up in the frame that carries it. With both, an ARP packet is
read as it was built.
-/

namespace Os1000.Proof

open Os1000

variable {b b' : Bytes} {off number ip x n : Nat} {mac : Mac}

/-! ## Fields elsewhere -/

theorem writeBe16_of_outside (h : x < off ∨ off + 2 ≤ x) : writeBe16 b off number x = b x := by
  unfold writeBe16
  rw [Function.update_of_ne (by omega), Function.update_of_ne (by omega)]

theorem writeIpv4_of_outside (h : x < off ∨ off + 4 ≤ x) : writeIpv4 b off ip x = b x := by
  unfold writeIpv4
  rw [Function.update_of_ne (by omega), Function.update_of_ne (by omega),
    Function.update_of_ne (by omega), Function.update_of_ne (by omega)]

theorem writeMac_of_outside (h : x < off ∨ off + 6 ≤ x) : writeMac b off mac x = b x := by
  unfold writeMac
  rw [dif_neg (by omega)]

/-! ## The field itself -/

/-- Putting bytes together with shifts is adding them up. -/
theorem shift_byte (h : n < 2 ^ 8) (x : Nat) : x <<< 8 ||| n = x * 2 ^ 8 + n := by
  rw [← Nat.shiftLeft_add_eq_or_of_lt h, Nat.shiftLeft_eq]

theorem be16_eq (hi lo : UInt8) : (hi.toNat <<< 8) ||| lo.toNat = hi.toNat * 2 ^ 8 + lo.toNat :=
  shift_byte lo.toNat_lt _

theorem be32_eq (b3 b2 b1 b0 : UInt8) :
    (b3.toNat <<< 24) ||| (b2.toNat <<< 16) ||| (b1.toNat <<< 8) ||| b0.toNat
      = b3.toNat * 2 ^ 24 + b2.toNat * 2 ^ 16 + b1.toNat * 2 ^ 8 + b0.toNat := by
  have h2 := b2.toNat_lt
  have h1 := b1.toNat_lt
  have h0 := b0.toNat_lt
  have e3 : b3.toNat <<< 24 = b3.toNat <<< 8 <<< 16 := by rw [← Nat.shiftLeft_add]
  rw [e3, ← Nat.shiftLeft_or_distrib, shift_byte h2, show (16 : Nat) = 8 + 8 by rfl,
    Nat.shiftLeft_add, ← Nat.shiftLeft_or_distrib, shift_byte h1, shift_byte h0]
  omega

theorem readBe16_eq (b : Bytes) (off : Nat) :
    readBe16 b off = (b off).toNat * 2 ^ 8 + (b (off + 1)).toNat := be16_eq _ _

theorem readIpv4_eq (b : Bytes) (off : Nat) :
    readIpv4 b off = (b off).toNat * 2 ^ 24 + (b (off + 1)).toNat * 2 ^ 16
      + (b (off + 2)).toNat * 2 ^ 8 + (b (off + 3)).toNat := be32_eq _ _ _ _

theorem readIpv4_lt (b : Bytes) (off : Nat) : readIpv4 b off < 2 ^ 32 := by
  have h3 := (b off).toNat_lt
  have h2 := (b (off + 1)).toNat_lt
  have h1 := (b (off + 2)).toNat_lt
  have h0 := (b (off + 3)).toNat_lt
  rw [readIpv4_eq]
  omega

theorem readBe16_writeBe16 (h : number < 2 ^ 16) : readBe16 (writeBe16 b off number) off = number := by
  have e0 : writeBe16 b off number off = UInt8.ofNat (number >>> 8) := by
    unfold writeBe16
    rw [Function.update_of_ne (by omega), Function.update_self]
  have e1 : writeBe16 b off number (off + 1) = UInt8.ofNat (number &&& 0xff) :=
    Function.update_self ..
  rw [readBe16_eq, e0, e1, UInt8.toNat_ofNat', UInt8.toNat_ofNat',
    show (0xff : Nat) = 2 ^ 8 - 1 by rfl, Nat.and_two_pow_sub_one_eq_mod, Nat.shiftRight_eq_div_pow]
  omega

theorem readIpv4_writeIpv4 (h : ip < 2 ^ 32) : readIpv4 (writeIpv4 b off ip) off = ip := by
  have e3 : writeIpv4 b off ip off = UInt8.ofNat (ip >>> 24) := by
    unfold writeIpv4
    rw [Function.update_of_ne (by omega), Function.update_of_ne (by omega),
      Function.update_of_ne (by omega), Function.update_self]
  have e2 : writeIpv4 b off ip (off + 1) = UInt8.ofNat (ip >>> 16) := by
    unfold writeIpv4
    rw [Function.update_of_ne (by omega), Function.update_of_ne (by omega), Function.update_self]
  have e1 : writeIpv4 b off ip (off + 2) = UInt8.ofNat (ip >>> 8) := by
    unfold writeIpv4
    rw [Function.update_of_ne (by omega), Function.update_self]
  have e0 : writeIpv4 b off ip (off + 3) = UInt8.ofNat ip := Function.update_self ..
  rw [readIpv4_eq, e3, e2, e1, e0]
  simp only [UInt8.toNat_ofNat', Nat.shiftRight_eq_div_pow]
  omega

theorem readMac_writeMac : readMac (writeMac b off mac) off = mac := by
  funext i
  have hi := i.isLt
  unfold readMac writeMac
  rw [dif_pos (by omega)]
  congr 1
  exact Fin.ext (by dsimp only; omega)

/-! ## Fields that are bytes -/

theorem readBe16_congr (h : ∀ x, off ≤ x → x < off + 2 → b' x = b x) :
    readBe16 b' off = readBe16 b off := by
  unfold readBe16
  rw [h off (by omega) (by omega), h (off + 1) (by omega) (by omega)]

theorem readMac_congr (h : ∀ x, off ≤ x → x < off + 6 → b' x = b x) :
    readMac b' off = readMac b off := by
  funext i
  have hi := i.isLt
  exact h (off + i) (by omega) (by omega)

theorem readIpv4_congr (h : ∀ x, off ≤ x → x < off + 4 → b' x = b x) :
    readIpv4 b' off = readIpv4 b off := by
  unfold readIpv4
  rw [h off (by omega) (by omega), h (off + 1) (by omega) (by omega),
    h (off + 2) (by omega) (by omega), h (off + 3) (by omega) (by omega)]

/-! ## Frames -/

variable {dst : Mac} {ethertype len : Nat} {payload : Bytes}

/-- A byte of the payload. -/
theorem ethernetFrame_payload {i : Nat} (h : i < len) :
    ethernetFrame dst ethertype payload len (ethernetHeaderSize + i) = payload i := by
  have he : ethernetHeaderSize = 14 := rfl
  unfold ethernetFrame
  rw [dif_neg (by omega), dif_neg (by omega), if_neg (by omega), if_neg (by omega),
    if_pos (by omega), Nat.add_sub_cancel_left]

/-- The frame is addressed to `dst`. -/
theorem readMac_ethernetFrame : readMac (ethernetFrame dst ethertype payload len) 0 = dst := by
  funext i
  have hi := i.isLt
  show ethernetFrame dst ethertype payload len (0 + i) = dst i
  unfold ethernetFrame
  rw [dif_pos (by omega)]
  congr 1
  exact Fin.ext (Nat.zero_add _)

/-- Its type is the one given. -/
theorem readBe16_ethernetFrame (h : ethertype < 2 ^ 16) :
    readBe16 (ethernetFrame dst ethertype payload len) 12 = ethertype := by
  have e0 : ethernetFrame dst ethertype payload len 12 = UInt8.ofNat (ethertype / 2 ^ 8) := by
    unfold ethernetFrame
    rw [dif_neg (by omega), dif_neg (by omega), if_pos rfl]
  have e1 : ethernetFrame dst ethertype payload len (12 + 1) = UInt8.ofNat ethertype := by
    unfold ethernetFrame
    rw [dif_neg (by omega), dif_neg (by omega), if_neg (by omega), if_pos rfl]
  rw [readBe16_eq, e0, e1, UInt8.toNat_ofNat', UInt8.toNat_ofNat']
  omega

/-- A field of the payload is read at its place in the frame. -/
theorem readMac_payload (h : off + 6 ≤ len) :
    readMac (ethernetFrame dst ethertype payload len) (ethernetHeaderSize + off)
      = readMac payload off := by
  funext i
  have hi := i.isLt
  show ethernetFrame dst ethertype payload len (ethernetHeaderSize + off + i) = payload (off + i)
  rw [Nat.add_assoc]
  exact ethernetFrame_payload (by omega)

theorem readIpv4_payload (h : off + 4 ≤ len) :
    readIpv4 (ethernetFrame dst ethertype payload len) (ethernetHeaderSize + off)
      = readIpv4 payload off := by
  have hb : ∀ j, j < 4 → ethernetFrame dst ethertype payload len (ethernetHeaderSize + off + j)
      = payload (off + j) := by
    intro j hj
    rw [Nat.add_assoc]
    exact ethernetFrame_payload (by omega)
  unfold readIpv4
  rw [hb 1 (by decide), hb 2 (by decide), hb 3 (by decide),
    ethernetFrame_payload (i := off) (by omega)]

theorem readBe16_payload (h : off + 2 ≤ len) :
    readBe16 (ethernetFrame dst ethertype payload len) (ethernetHeaderSize + off)
      = readBe16 payload off := by
  have hb : ethernetFrame dst ethertype payload len (ethernetHeaderSize + off + 1)
      = payload (off + 1) := by
    rw [Nat.add_assoc]
    exact ethernetFrame_payload (by omega)
  unfold readBe16
  rw [hb, ethernetFrame_payload (i := off) (by omega)]

/-! ## ARP packets -/

/-- `arp_receive` passes the frame, and reads these fields out of it. -/
structure Decodes (frame : Bytes) (n : Nat) (dst : Mac) (operation : Nat) (senderMac : Mac)
    (senderIp : Nat) (targetMac : Mac) (targetIp : Nat) : Prop where
  dst : readMac frame 0 = dst
  ethertype : readBe16 frame 12 = arpEthertype
  accepts : arpAccepts frame n = true
  operation : readBe16 frame operationAt = operation
  senderMac : readMac frame senderMacAt = senderMac
  senderIp : readIpv4 frame senderIpAt = senderIp
  targetMac : readMac frame targetMacAt = targetMac
  targetIp : readIpv4 frame targetIpAt = targetIp

/-- `arp_build_packet` as far as the operation. -/
def arpHead (operation : Nat) : Bytes :=
  let packet : Bytes := fun _ => 0
  let packet := writeBe16 packet 0 arpHardwareEthernet
  let packet := writeBe16 packet 2 arpProtocolIpv4
  let packet := Function.update packet 4 6
  let packet := Function.update packet 5 4
  writeBe16 packet 6 operation

variable {operation : Nat}

theorem arpBuildPacket_eq : arpBuildPacket operation mac ip
    = writeIpv4 (writeMac (writeIpv4 (writeMac (arpHead operation) 8 netMac) 14 ipv4LocalAddress)
      18 mac) 24 ip := rfl

theorem arpBuildPacket_head (hx : x < 8) : arpBuildPacket operation mac ip x = arpHead operation x := by
  rw [arpBuildPacket_eq, writeIpv4_of_outside (by omega), writeMac_of_outside (by omega),
    writeIpv4_of_outside (by omega), writeMac_of_outside (by omega)]

/-- The fields `arp_receive` checks do not depend on what is sent. -/
theorem arpBuildPacket_format (hx : x < 6) : arpBuildPacket operation mac ip x = arpHead 0 x := by
  rw [arpBuildPacket_head (by omega)]
  unfold arpHead
  rw [writeBe16_of_outside (by omega), writeBe16_of_outside (by omega)]

theorem arpBuildPacket_accepts :
    arpAccepts (ethernetFrame dst arpEthertype (arpBuildPacket operation mac ip) sizeofArpPacket)
      (frameLen sizeofArpPacket) = true := by
  have htype : readBe16 (ethernetFrame dst arpEthertype (arpBuildPacket operation mac ip)
      sizeofArpPacket) hardwareTypeAt = arpHardwareEthernet := by
    have hat : (0 : Nat) + 2 ≤ sizeofArpPacket := by decide
    refine (readBe16_payload hat).trans ?_
    rw [readBe16_congr fun x _ hx => arpBuildPacket_format (by omega)]
    decide
  have hprotocol : readBe16 (ethernetFrame dst arpEthertype (arpBuildPacket operation mac ip)
      sizeofArpPacket) protocolTypeAt = arpProtocolIpv4 := by
    have hat : (2 : Nat) + 2 ≤ sizeofArpPacket := by decide
    refine (readBe16_payload hat).trans ?_
    rw [readBe16_congr fun x _ hx => arpBuildPacket_format (by omega)]
    decide
  have hlens : ∀ j, j < 6 → ethernetFrame dst arpEthertype (arpBuildPacket operation mac ip)
      sizeofArpPacket (ethernetHeaderSize + j) = arpHead 0 j := fun j hj =>
    (ethernetFrame_payload (Nat.lt_of_lt_of_le hj (by decide))).trans (arpBuildPacket_format hj)
  unfold arpAccepts hardwareLenAt protocolLenAt
  rw [htype, hprotocol, hlens 4 (by decide), hlens 5 (by decide)]
  decide

/-- **A packet is read as it was built.** -/
theorem arpBuildPacket_decodes (hop : operation < 2 ^ 16) (hip : ip < 2 ^ 32) :
    Decodes (ethernetFrame dst arpEthertype (arpBuildPacket operation mac ip) sizeofArpPacket)
      (frameLen sizeofArpPacket) dst operation netMac ipv4LocalAddress mac ip where
  dst := readMac_ethernetFrame
  ethertype := readBe16_ethernetFrame (by decide)
  accepts := arpBuildPacket_accepts
  operation := by
    unfold operationAt
    rw [readBe16_payload (by decide), readBe16_congr fun x _ hx => arpBuildPacket_head hx]
    exact readBe16_writeBe16 hop
  senderMac := by
    unfold senderMacAt
    rw [readMac_payload (by decide), arpBuildPacket_eq,
      readMac_congr fun x _ hx => writeIpv4_of_outside (Or.inl (by omega)),
      readMac_congr fun x _ hx => writeMac_of_outside (Or.inl (by omega)),
      readMac_congr fun x _ hx => writeIpv4_of_outside (Or.inl (by omega))]
    exact readMac_writeMac
  senderIp := by
    unfold senderIpAt
    rw [readIpv4_payload (by decide), arpBuildPacket_eq,
      readIpv4_congr fun x _ hx => writeIpv4_of_outside (Or.inl (by omega)),
      readIpv4_congr fun x _ hx => writeMac_of_outside (Or.inl (by omega))]
    exact readIpv4_writeIpv4 (by decide)
  targetMac := by
    unfold targetMacAt
    rw [readMac_payload (by decide), arpBuildPacket_eq,
      readMac_congr fun x _ hx => writeIpv4_of_outside (Or.inl (by omega))]
    exact readMac_writeMac
  targetIp := by
    unfold targetIpAt
    rw [readIpv4_payload (by decide)]
    exact readIpv4_writeIpv4 hip

end Os1000.Proof
