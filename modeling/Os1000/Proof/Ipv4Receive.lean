import Os1000.Proof.Ipv4

/-!
# Which packets are received

`ipv4_receive` makes its checks one after the other, and each of them trusts what the ones
before have established: the header length is used for the checksum because it was found to
fit the frame. Together they come to one statement about the bytes of the frame
(`WellFormed`), and no byte behind the frame is read on the way.

A header whose sum is all ones is one bit away from none that has the same sum, because the
sum changes by a power of two, and no power of two is a multiple of 65535.
-/

namespace Os1000.Proof

open Os1000 Lib

/-- Four times the IHL field, the length of the header. -/
def headerLen (frame : Bytes) : Nat := 4 * ((frame 14).toNat % 16)

/-- A whole packet for this host, in a frame of `n` bytes. -/
structure WellFormed (frame : Bytes) (n : Nat) : Prop where
  len : 34 ≤ n
  version : (frame 14).toNat / 16 = 4
  ihl : 5 ≤ (frame 14).toNat % 16
  /-- The header ends inside the packet, and the packet inside the frame. -/
  header : headerLen frame ≤ (frame 16).toNat * 2 ^ 8 + (frame 17).toNat
  total : (frame 16).toNat * 2 ^ 8 + (frame 17).toNat ≤ n - 14
  sum : onesSum (2 ^ 16) (be16Words frame 14 (headerLen frame)) = 0xffff
  moreFragments : ((frame 20).toNat * 2 ^ 8 + (frame 21).toNat) / 2 ^ 13 % 2 = 0
  fragmentOffset : ((frame 20).toNat * 2 ^ 8 + (frame 21).toNat) % 2 ^ 13 = 0
  dst : readIpv4 frame 30 = ipv4LocalAddress ∨ readIpv4 frame 30 = ipv4BroadcastAddress

/-- `ipv4_receive` accepts the frame. -/
def Accepted (frame : Bytes) (n : Nat) : Prop :=
  ∀ s, ipv4Receive s frame n = s.count (frame 23)

/-- `ipv4_receive` drops the frame. -/
def Dropped (frame : Bytes) (n : Nat) : Prop := ∀ s, ipv4Receive s frame n = s.drop

/-- The counters after `ipv4_init` and these accesses. -/
def statsAfter (ops : List StatsOp) : Ipv4Stats := ops.foldl statsOp ipv4Init

/-- Every packet received was counted under one protocol. -/
def Balanced (s : Ipv4Stats) : Prop :=
  s.rxPackets = (s.rxIcmp + s.rxUdp + s.rxTcp + s.rxOther) % 2 ^ 32

/-- The frame with bit `j` of byte `x` flipped. -/
def flipBit (frame : Bytes) (x j : Nat) : Bytes :=
  Function.update frame x (frame x ^^^ UInt8.ofNat (2 ^ j))

section

variable {frame : Bytes} {n w : Nat}

/-! ## The checks -/

theorem and_moreFragments (w : Nat) : w &&& ipv4FlagMoreFragments = 0 ↔ w / 2 ^ 13 % 2 = 0 := by
  have h : w &&& ipv4FlagMoreFragments = (w.testBit 13).toNat * 2 ^ 13 := Nat.and_two_pow w 13
  rw [h, Nat.testBit_eq_decide_div_mod_eq]
  simp

theorem and_fragmentOffset (w : Nat) : w &&& ipv4FragmentOffsetMask = w % 2 ^ 13 :=
  Nat.and_two_pow_sub_one_eq_mod w 13

theorem headerLen_eq (frame : Bytes) : ((frame 14).toNat &&& 0x0f) * 4 = headerLen frame := by
  have h : (frame 14).toNat &&& 0x0f = (frame 14).toNat % 16 :=
    Nat.and_two_pow_sub_one_eq_mod _ 4
  unfold headerLen
  rw [h, Nat.mul_comm]

theorem headerLen_le (frame : Bytes) : headerLen frame ≤ 60 := by
  unfold headerLen
  omega

/-- The checksum of a header is zero exactly when its words add up to all ones. -/
theorem header_sum (frame : Bytes) : ipv4Checksum frame 14 (headerLen frame) = 0
    ↔ onesSum (2 ^ 16) (be16Words frame 14 (headerLen frame)) = 0xffff := by
  have hle := headerLen_le frame
  rw [ipv4Checksum_eq_zero (by omega), onesSum_eq (by decide) be16Words_lt]
  exact Iff.rfl

theorem isForUs_iff (ip : Nat) :
    ipv4IsForUs ip = true ↔ ip = ipv4LocalAddress ∨ ip = ipv4BroadcastAddress := by
  unfold ipv4IsForUs
  rw [Bool.or_eq_true, decide_eq_true_eq, decide_eq_true_eq]

/-- The function with its offsets computed. -/
theorem ipv4Receive_eq (s : Ipv4Stats) (frame : Bytes) (n : Nat) : ipv4Receive s frame n
    = if n < 34 then s.drop
      else if (frame 14).toNat >>> 4 ≠ 4 ∨ (frame 14).toNat &&& 0x0f < 5
          ∨ ((frame 14).toNat &&& 0x0f) * 4 > n - 14 then s.drop
      else if readBe16 frame 16 < ((frame 14).toNat &&& 0x0f) * 4 ∨ readBe16 frame 16 > n - 14
        then s.drop
      else if ipv4Checksum frame 14 (((frame 14).toNat &&& 0x0f) * 4) ≠ 0 then s.drop
      else if readBe16 frame 20 &&& ipv4FlagMoreFragments ≠ 0
          ∨ readBe16 frame 20 &&& ipv4FragmentOffsetMask ≠ 0 then s.drop
      else if ipv4IsForUs (readIpv4 frame 30) = false then s.drop
      else s.count (frame 23) := rfl

/-- **The checks, one after the other**, decide whether the packet is as it should be. -/
theorem receive_decides (s : Ipv4Stats) (frame : Bytes) (n : Nat) :
    WellFormed frame n ∧ ipv4Receive s frame n = s.count (frame 23)
      ∨ ¬ WellFormed frame n ∧ ipv4Receive s frame n = s.drop := by
  have hmask : (frame 14).toNat &&& 0x0f = (frame 14).toNat % 16 :=
    Nat.and_two_pow_sub_one_eq_mod _ 4
  have htotal : readBe16 frame 16 = (frame 16).toNat * 2 ^ 8 + (frame 17).toNat :=
    readBe16_eq frame 16
  have hflags : readBe16 frame 20 = (frame 20).toNat * 2 ^ 8 + (frame 21).toNat :=
    readBe16_eq frame 20
  obtain ⟨r, hr⟩ : ∃ r, ipv4Receive s frame n = r := ⟨_, rfl⟩
  rw [hr]
  rw [ipv4Receive_eq, headerLen_eq, hmask, htotal, hflags, and_fragmentOffset,
    Nat.shiftRight_eq_div_pow] at hr
  split at hr
  · rename_i h1
    exact Or.inr ⟨fun h => absurd h.len (by omega), hr.symm⟩
  split at hr
  · rename_i h2
    refine Or.inr ⟨fun h => ?_, hr.symm⟩
    rcases h2 with h2 | h2 | h2
    · exact h2 h.version
    · exact absurd h.ihl (by omega)
    · exact absurd (Nat.le_trans h.header h.total) (by omega)
  split at hr
  · rename_i h3
    refine Or.inr ⟨fun h => ?_, hr.symm⟩
    rcases h3 with h3 | h3
    · exact absurd h.header (by omega)
    · exact absurd h.total (by omega)
  split at hr
  · rename_i h4
    exact Or.inr ⟨fun h => h4 ((header_sum frame).mpr h.sum), hr.symm⟩
  split at hr
  · rename_i h5
    refine Or.inr ⟨fun h => ?_, hr.symm⟩
    rcases h5 with h5 | h5
    · exact h5 ((and_moreFragments _).mpr h.moreFragments)
    · exact h5 h.fragmentOffset
  split at hr
  · rename_i h6
    refine Or.inr ⟨fun h => ?_, hr.symm⟩
    rw [(isForUs_iff _).mpr h.dst] at h6
    cases h6
  · rename_i h1 h2 h3 h4 h5 h6
    simp only [not_or, not_not] at h2 h3 h4 h5
    exact Or.inl ⟨⟨by omega, h2.1, by omega, by omega, by omega, (header_sum frame).mp h4,
      (and_moreFragments _).mp h5.1, h5.2, (isForUs_iff _).mp (Bool.not_eq_false _ ▸ h6)⟩, hr.symm⟩

theorem dropped_of_not (h : ¬ WellFormed frame n) : Dropped frame n := fun s =>
  ((receive_decides s frame n).resolve_left fun hw => h hw.1).2

theorem accepted_iff : Accepted frame n ↔ WellFormed frame n := by
  constructor
  · intro ha
    by_contra h
    -- the counters tell the two outcomes apart
    have hd := dropped_of_not h ipv4Init
    rw [ha ipv4Init] at hd
    have := congrArg Ipv4Stats.rxDropped hd
    rw [stats_count] at this
    cases this
  · exact fun h s => ((receive_decides s frame n).resolve_right fun hd => hd.1 h).2

/-! ## The reads -/

section

variable {b : Bytes} {e off len sum : Nat}

theorem readBe16In_ok (h : off + 2 ≤ e) : readBe16In b e off = .ok (readBe16 b off) := by
  unfold readBe16In
  rw [loadAt_ok (by omega), ok_bind, loadAt_ok (by omega), ok_bind]
  rfl

theorem readIpv4In_ok (h : off + 4 ≤ e) : readIpv4In b e off = .ok (readIpv4 b off) := by
  unfold readIpv4In
  rw [loadAt_ok (by omega), ok_bind, loadAt_ok (by omega), ok_bind, loadAt_ok (by omega), ok_bind,
    loadAt_ok (by omega), ok_bind]
  rfl

theorem sumWordsIn_ok (h : off + len ≤ e) :
    sumWordsIn b e off len sum = .ok (sumWords b off len sum) := by
  fun_induction sumWords b off len sum with
  | case1 off len sum ih =>
      rw [sumWordsIn, readBe16In_ok (by omega), ok_bind]
      exact ih (by omega)
  | case2 off sum =>
      rw [sumWordsIn, loadAt_ok (by omega), ok_bind]
      rfl
  | case3 off sum => rfl

theorem ipv4ChecksumIn_ok (h : off + len ≤ e) :
    ipv4ChecksumIn b e off len = .ok (ipv4Checksum b off len) := by
  unfold ipv4ChecksumIn
  rw [sumWordsIn_ok h, ok_bind]
  rfl

/-- **No byte behind the frame is read.** -/
theorem ipv4ReceiveIn_ok (s : Ipv4Stats) (frame : Bytes) (n : Nat) :
    ipv4ReceiveIn s frame n = .ok (ipv4Receive s frame n) := by
  have heth : ethernetHeaderSize = 14 := rfl
  have hmin : ipv4HeaderMinSize = 20 := rfl
  unfold ipv4ReceiveIn ipv4Receive
  by_cases h1 : n < ethernetHeaderSize + ipv4HeaderMinSize
  · rw [if_pos h1, if_pos h1]
  rw [if_neg h1, if_neg h1]
  dsimp only
  rw [loadAt_ok (by simp only [versionIhlAt]; omega), ok_bind]
  split
  · rfl
  · rename_i h2
    -- the header lies inside the frame, so the checksum reads nothing else
    rw [readBe16In_ok (by simp only [totalLengthAt]; omega), ok_bind]
    split
    · rfl
    · rw [ipv4ChecksumIn_ok (by omega), ok_bind]
      split
      · rfl
      · rw [readBe16In_ok (by simp only [flagsFragmentOffsetAt]; omega), ok_bind]
        split
        · rfl
        · rw [readIpv4In_ok (by simp only [dstIpAt]; omega), ok_bind]
          split
          · rfl
          · rw [loadAt_ok (by simp only [protocolAt]; omega), ok_bind]
            rfl

end

/-! ## The counters -/

theorem balanced_count {s : Ipv4Stats} (h : Balanced s) (protocol : UInt8) :
    Balanced (s.count protocol) := by
  unfold Balanced at h ⊢
  rw [stats_count]
  dsimp only
  rw [h]
  unfold u32
  by_cases h1 : protocol = 1
  · subst h1
    simp
    omega
  · by_cases h17 : protocol = 17
    · subst h17
      simp
      omega
    · by_cases h6 : protocol = 6
      · subst h6
        simp
        omega
      · simp [h1, h17, h6]
        omega

theorem balanced_op {s : Ipv4Stats} (h : Balanced s) (op : StatsOp) : Balanced (statsOp s op) := by
  cases op with
  | receive frame n =>
      rcases receive_decides s frame n with ⟨_, hr⟩ | ⟨_, hr⟩
      · show Balanced (ipv4Receive s frame n)
        rw [hr]
        exact balanced_count h _
      · show Balanced (ipv4Receive s frame n)
        rw [hr]
        exact h
  | sent => exact h
  | notSent => exact h

theorem balanced_after (ops : List StatsOp) : Balanced (statsAfter ops) := by
  -- from any counters that are
  have key : ∀ s, Balanced s → Balanced (ops.foldl statsOp s) := by
    induction ops with
    | nil => exact fun s h => h
    | cons op ops ih => exact fun s h => ih _ (balanced_op h op)
  exact key _ rfl

end

/--
**Which packets are received.** `ipv4_receive` accepts a frame exactly when it is well formed
and drops every other; it reads no byte behind the frame. In every run, a call raises one of
the counters of packets and of drops by one and leaves the other alone, and the counters of
the protocols add up to that of the packets.
-/
theorem ipv4_receive_exact :
    (∀ frame n, (Accepted frame n ↔ WellFormed frame n) ∧ (Accepted frame n ∨ Dropped frame n))
    ∧ (∀ s frame n, ipv4ReceiveIn s frame n = .ok (ipv4Receive s frame n))
    ∧ (∀ ops frame n, ∃ s', statsAfter (ops ++ [.receive frame n]) = s'
      ∧ (s'.rxPackets = ((statsAfter ops).rxPackets + 1) % 2 ^ 32
          ∧ s'.rxDropped = (statsAfter ops).rxDropped
        ∨ s'.rxPackets = (statsAfter ops).rxPackets
          ∧ s'.rxDropped = ((statsAfter ops).rxDropped + 1) % 2 ^ 32))
    ∧ ∀ ops, (statsAfter ops).rxPackets = ((statsAfter ops).rxIcmp + (statsAfter ops).rxUdp
      + (statsAfter ops).rxTcp + (statsAfter ops).rxOther) % 2 ^ 32 := by
  refine ⟨fun frame n => ⟨accepted_iff, ?_⟩, ipv4ReceiveIn_ok, fun ops frame n => ?_,
    balanced_after⟩
  · by_cases h : WellFormed frame n
    · exact Or.inl (accepted_iff.mpr h)
    · exact Or.inr (dropped_of_not h)
  · have hlast : statsAfter (ops ++ [.receive frame n]) = ipv4Receive (statsAfter ops) frame n := by
      unfold statsAfter
      rw [List.foldl_append]
      rfl
    refine ⟨_, hlast, ?_⟩
    rcases receive_decides (statsAfter ops) frame n with ⟨_, hr⟩ | ⟨_, hr⟩
    · rw [hr, stats_count]
      exact Or.inl ⟨rfl, rfl⟩
    · rw [hr]
      exact Or.inr ⟨rfl, rfl⟩

/-! ## A flipped bit -/

section

variable {frame : Bytes} {n x i j : Nat}

theorem toNat_flip (c : UInt8) (hj : j < 8) :
    (c ^^^ UInt8.ofNat (2 ^ j)).toNat = c.toNat ^^^ 2 ^ j := by
  have hlt : 2 ^ j < 2 ^ 8 := Nat.pow_lt_pow_right (by decide) hj
  rw [UInt8.toNat_xor, UInt8.toNat_ofNat', Nat.mod_eq_of_lt hlt]

/-- The header has the same length, unless the bit is one of the IHL field. -/
theorem headerLen_flip (hj : j < 8) (h : x = 0 → 4 ≤ j) :
    headerLen (flipBit frame (14 + x) j) = headerLen frame := by
  unfold headerLen flipBit
  by_cases hx : x = 0
  · subst hx
    have hpow : 2 ^ j % 2 ^ 4 = 0 := Nat.mod_eq_zero_of_dvd (Nat.pow_dvd_pow 2 (h rfl))
    rw [Nat.add_zero, Function.update_self, toNat_flip _ hj, show (16 : Nat) = 2 ^ 4 from rfl,
      Nat.xor_mod_two_pow, hpow, Nat.xor_zero]
  · rw [Function.update_of_ne (by omega)]

/-- A word with a flipped bit differs from the word, by less than all ones. -/
theorem readBe16_flip (frame : Bytes) (hj : j < 8) (hx : x = i ∨ x = i + 1) :
    ∃ d, 0 < d ∧ d < 2 ^ 16 - 1 ∧ (readBe16 (flipBit frame x j) i = readBe16 frame i + d
      ∨ readBe16 (flipBit frame x j) i + d = readBe16 frame i) := by
  have hpos : 0 < 2 ^ j := Nat.two_pow_pos j
  have hle : 2 ^ j ≤ 2 ^ 7 := Nat.pow_le_pow_right (by decide) (by omega)
  rw [readBe16_eq, readBe16_eq]
  unfold flipBit
  rcases hx with rfl | rfl
  · refine ⟨2 ^ j * 2 ^ 8, by omega, by omega, ?_⟩
    rw [Function.update_self, Function.update_of_ne (by omega), toNat_flip _ hj]
    have := xor_two_pow_cases (frame x).toNat j
    omega
  · refine ⟨2 ^ j, hpos, by omega, ?_⟩
    rw [Function.update_of_ne (by omega), Function.update_self, toNat_flip _ hj]
    have := xor_two_pow_cases (frame (i + 1)).toNat j
    omega

/-- **The sum notices a flipped bit.** -/
theorem sum_flip (hj : j < 8) (hx : x < headerLen frame)
    (h : onesSum (2 ^ 16) (be16Words frame 14 (headerLen frame)) = 0xffff) :
    onesSum (2 ^ 16) (be16Words (flipBit frame (14 + x) j) 14 (headerLen frame)) ≠ 0xffff := by
  rw [onesSum_eq (by decide) be16Words_lt] at h ⊢
  -- the word the byte is in
  have hw : 2 * (x / 2) + 1 < headerLen frame := by
    unfold headerLen at hx ⊢
    omega
  have hset : be16Words (flipBit frame (14 + x) j) 14 (headerLen frame)
      = (be16Words frame 14 (headerLen frame)).set (x / 2)
        (readBe16 (flipBit frame (14 + x) j) (14 + 2 * (x / 2))) :=
    be16Words_set hw rfl fun i h1 h2 => Function.update_of_ne (by omega) ..
  have hget : (be16Words frame 14 (headerLen frame))[x / 2]?
      = some (readBe16 frame (14 + 2 * (x / 2))) := be16Words_get hw
  have hsum := sum_set_add (y := readBe16 (flipBit frame (14 + x) j) (14 + 2 * (x / 2))) hget
  rw [← hset] at hsum
  have hbyte : 14 + x = 14 + 2 * (x / 2) ∨ 14 + x = 14 + 2 * (x / 2) + 1 := by omega
  obtain ⟨d, h0, hd, hdiff⟩ := readBe16_flip frame hj hbyte
  exact foldCarry_ne_max (by decide) h h0 hd (by omega)

end

/--
**A flipped bit is noticed.** If a frame is accepted, then the same frame with any one bit of
its header flipped is dropped, except in the field that says how long the header is.
-/
theorem header_flip_dropped {frame : Bytes} {n x j : Nat} (h : Accepted frame n)
    (hx : x < headerLen frame) (hj : j < 8) (hihl : x = 0 → 4 ≤ j) :
    Dropped (flipBit frame (14 + x) j) n := by
  refine dropped_of_not fun hw => ?_
  have hsum := hw.sum
  rw [headerLen_flip hj hihl] at hsum
  exact sum_flip hj hx (accepted_iff.mp h).sum hsum

/-- An empty UDP packet to the local address, in a frame of zeros. -/
def samplePacket : Bytes := fun i => ([0, 0, 0, 0, 0, 0, 0, 0, 0, 0, 0, 0, 8, 0,
  0x45, 0, 0, 20, 0, 0, 0, 0, 64, 17, 0x62, 0xbc, 10, 0, 2, 15, 10, 0, 2, 15] : List UInt8)[i]?.getD 0

/-- The lowest bit of the first byte of the checksum. -/
theorem header_flip_dropped_checksum :
    Accepted samplePacket 60 ∧ Dropped (flipBit samplePacket (14 + 10) 0) 60 := by
  have hlen : headerLen samplePacket = 20 := rfl
  have hw : WellFormed samplePacket 60 := by
    refine ⟨by decide, rfl, by decide, by decide, by decide, ?_, rfl, rfl, Or.inl (by decide)⟩
    rw [hlen]
    decide
  have ha := accepted_iff.mpr hw
  exact ⟨ha, header_flip_dropped ha (by rw [hlen]; decide) (by decide) (by decide)⟩

end Os1000.Proof
