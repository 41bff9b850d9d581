import Os1000.Proof.Host

/-!
# What the counters count

The counters of the three files are 32 bits wide and raised in many places, those of
transmission only after the wait, while frames that are received raise others. Between calls
they are what the trace says, up to wrapping around; and the number of the next packet is one
more than the packets on the wire.
-/

namespace Os1000.Proof

open Os1000 Lib

/-! ## What there is to count -/

/-- A buffer was used. -/
def AnyFrame : HostLabel → Prop
  | .receive _ _ => True
  | _ => False

/-- A frame of type `t` came. -/
def OfType (t : Nat) : HostLabel → Prop
  | .receive frame packetLen => typeOf frame packetLen = some t
  | _ => False

/-- A packet came that is as it should be, with a protocol of this kind. -/
def GoodPacket (kind : UInt8 → Prop) : HostLabel → Prop
  | .receive frame packetLen => typeOf frame packetLen = some ipv4Ethertype
      ∧ WellFormed frame (receivedLen packetLen) ∧ kind (frame 23)
  | _ => False

/-- A packet came that is not. -/
def BadPacket : HostLabel → Prop
  | .receive frame packetLen => typeOf frame packetLen = some ipv4Ethertype
      ∧ ¬ WellFormed frame (receivedLen packetLen)
  | _ => False

/-- `ipv4_send` was called. -/
def SendCall : HostLabel → Prop
  | .call (.ipv4Send _ _ _ _) _ => True
  | _ => False

/-- The frames given to the device. -/
def wire (tr : List HostLabel) : List SentFrame :=
  tr.flatMap fun
    | .call _ sent => sent
    | _ => []

/-- How many of them are IPv4 packets. -/
def ipv4Frames (frames : List SentFrame) : Nat :=
  frames.countP fun f => decide (readBe16 f.1 12 = ipv4Ethertype)

/-- The numbers of these packets, in the order in which they were sent. -/
def ipv4Numbers (frames : List SentFrame) : List Nat :=
  (frames.filter fun f => decide (readBe16 f.1 12 = ipv4Ethertype)).map fun f =>
    readBe16 f.1 (ethernetHeaderSize + identificationAt)

open Classical in
/-- How often something happened. -/
noncomputable def times (P : HostLabel → Prop) (tr : List HostLabel) : Nat :=
  tr.countP fun l => decide (P l)

/-- A call that still has to raise `tx_packets`. -/
def owesPacket : HostPc → Nat
  | .waiting (.counted _) | .leaving (.counted _) => 1
  | _ => 0

/-- A call that still has to raise `tx_packets` or `tx_dropped`. -/
def owesCount : HostPc → Nat
  | .waiting (.plain _) | .leaving (.plain _) | .idle => 0
  | _ => 1

theorem owesPacket_le (pc : HostPc) : owesPacket pc ≤ 1 := by
  unfold owesPacket
  split <;> omega

/-- The counters agree with the trace. -/
structure Tally (tr : List HostLabel) (h : Host) : Prop where
  frames : h.rx.netRxPackets = times AnyFrame tr % 2 ^ 32
  tests : h.rx.netRxTestPackets = times (OfType virtioNetTestEthertype) tr % 2 ^ 32
  good : h.rx.ipv4.rxPackets = times (GoodPacket fun _ => True) tr % 2 ^ 32
  bad : h.rx.ipv4.rxDropped = times BadPacket tr % 2 ^ 32
  icmp : h.rx.ipv4.rxIcmp = times (GoodPacket (· = 1)) tr % 2 ^ 32
  udp : h.rx.ipv4.rxUdp = times (GoodPacket (· = 17)) tr % 2 ^ 32
  tcp : h.rx.ipv4.rxTcp = times (GoodPacket (· = 6)) tr % 2 ^ 32
  other : h.rx.ipv4.rxOther
    = times (GoodPacket fun p => ¬ (p = 1 ∨ p = 17 ∨ p = 6)) tr % 2 ^ 32
  /-- A packet is counted when its call returns. -/
  sent : (h.rx.ipv4.txPackets + owesPacket h.pc) % 2 ^ 32 = ipv4Frames (wire tr) % 2 ^ 32
  small : h.rx.ipv4.txPackets < 2 ^ 32
  /-- And so is one that was not sent. -/
  calls : (h.rx.ipv4.txPackets + h.rx.ipv4.txDropped + owesCount h.pc) % 2 ^ 32
    = times SendCall tr % 2 ^ 32
  number : h.nextIdentification = (ipv4Frames (wire tr) + 1) % 2 ^ 16
  numbers : ipv4Numbers (wire tr)
    = (List.range (ipv4Frames (wire tr))).map fun i => (i + 1) % 2 ^ 16

section

variable {tr : List HostLabel} {l : HostLabel} {h h' : Host} {P : HostLabel → Prop}

theorem times_hit (hl : P l) : times P (tr ++ [l]) = times P tr + 1 := by
  unfold times
  rw [List.countP_append]
  simp [hl]

theorem times_miss (hl : ¬ P l) : times P (tr ++ [l]) = times P tr := by
  unfold times
  rw [List.countP_append]
  simp [hl]

/-- A counter that is raised by one exactly at what it counts. -/
theorem counts_on {x x' : Nat} (hx : x = times P tr % 2 ^ 32)
    (hs : P l ∧ x' = u32 (x + 1) ∨ ¬ P l ∧ x' = x) : x' = times P (tr ++ [l]) % 2 ^ 32 := by
  rcases hs with ⟨hl, rfl⟩ | ⟨hl, rfl⟩
  · rw [times_hit hl, hx]
    unfold u32
    omega
  · rw [times_miss hl]
    exact hx

/-- A counter that is left alone by a step that it does not count. -/
theorem counts_off {x x' : Nat} (hx : x = times P tr % 2 ^ 32) (hl : ¬ P l) (he : x' = x) :
    x' = times P (tr ++ [l]) % 2 ^ 32 := counts_on hx (Or.inr ⟨hl, he⟩)

theorem wire_snoc (tr : List HostLabel) (l : HostLabel) :
    wire (tr ++ [l]) = wire tr ++ wire [l] := List.flatMap_append

theorem ipv4Frames_append (a b : List SentFrame) :
    ipv4Frames (a ++ b) = ipv4Frames a + ipv4Frames b := List.countP_append

theorem ipv4Numbers_append (a b : List SentFrame) :
    ipv4Numbers (a ++ b) = ipv4Numbers a ++ ipv4Numbers b := by
  unfold ipv4Numbers
  rw [List.filter_append, List.map_append]

/-- Calls that send nothing leave the wire alone. -/
theorem wire_same (hl : wire [l] = []) : wire (tr ++ [l]) = wire tr := by
  rw [wire_snoc, hl, List.append_nil]

/-! ## Receiving -/

/-- What `ipv4_receive` makes of the counters, if it is called. -/
theorem ipv4_counted {n n' : NetRx} {frame : Bytes} {packetLen : Nat}
    (hr : Received n frame packetLen n') :
    (typeOf frame packetLen = some ipv4Ethertype ∧ WellFormed frame (receivedLen packetLen)
        ∧ n'.ipv4 = n.ipv4.count (frame 23))
      ∨ (typeOf frame packetLen = some ipv4Ethertype ∧ ¬ WellFormed frame (receivedLen packetLen)
        ∧ n'.ipv4 = n.ipv4.drop)
      ∨ (typeOf frame packetLen ≠ some ipv4Ethertype ∧ n'.ipv4 = n.ipv4) := by
  have hipv4 := hr.ipv4
  by_cases ht : typeOf frame packetLen = some ipv4Ethertype
  · rw [if_pos ht] at hipv4
    rcases receive_decides n.ipv4 frame (receivedLen packetLen) with ⟨hw, hd⟩ | ⟨hw, hd⟩
    · exact Or.inl ⟨ht, hw, hipv4.trans hd⟩
    · exact Or.inr (Or.inl ⟨ht, hw, hipv4.trans hd⟩)
  · rw [if_neg ht] at hipv4
    exact Or.inr (Or.inr ⟨ht, hipv4⟩)

/-- A counter for one kind of packet. -/
theorem counts_kind {frame : Bytes} {packetLen x x' : Nat} {kind : UInt8 → Prop}
    (hx : x = times (GoodPacket kind) tr % 2 ^ 32) (ht : typeOf frame packetLen = some ipv4Ethertype)
    (hw : WellFormed frame (receivedLen packetLen))
    (hs : kind (frame 23) ∧ x' = u32 (x + 1) ∨ ¬ kind (frame 23) ∧ x' = x) :
    x' = times (GoodPacket kind) (tr ++ [.receive frame packetLen]) % 2 ^ 32 := by
  refine counts_on hx ?_
  rcases hs with ⟨hk, he⟩ | ⟨hk, he⟩
  · exact Or.inl ⟨⟨ht, hw, hk⟩, he⟩
  · exact Or.inr ⟨fun hg => hk hg.2.2, he⟩

theorem ite_cases {p : Prop} [Decidable p] {a b : Nat} :
    p ∧ (if p then a else b) = a ∨ ¬ p ∧ (if p then a else b) = b := by
  by_cases hp : p
  · exact Or.inl ⟨hp, if_pos hp⟩
  · exact Or.inr ⟨hp, if_neg hp⟩

theorem Tally.receive (ht : Tally tr h) {frame : Bytes} {packetLen : Nat} {rx : NetRx}
    (hr : Received h.rx frame packetLen rx) :
    Tally (tr ++ [.receive frame packetLen]) { h with rx } := by
  have hwire : wire (tr ++ [.receive frame packetLen]) = wire tr := wire_same rfl
  have hframes : rx.netRxPackets = times AnyFrame (tr ++ [.receive frame packetLen]) % 2 ^ 32 :=
    counts_on ht.frames (Or.inl ⟨trivial, hr.packets⟩)
  have htests : rx.netRxTestPackets
      = times (OfType virtioNetTestEthertype) (tr ++ [.receive frame packetLen]) % 2 ^ 32 := by
    refine counts_on ht.tests ?_
    rw [hr.testPackets]
    unfold OfType
    exact ite_cases
  have hcalls : times SendCall (tr ++ [.receive frame packetLen]) = times SendCall tr :=
    times_miss id
  rcases ipv4_counted hr with ⟨htype, hw, hs⟩ | ⟨htype, hw, hs⟩ | ⟨htype, hs⟩
  · rw [stats_count] at hs
    constructor
    · exact hframes
    · exact htests
    · exact counts_kind ht.good htype hw (Or.inl ⟨trivial, by rw [hs]⟩)
    · exact counts_off ht.bad (fun hb => hb.2 hw) (by rw [hs])
    · exact counts_kind ht.icmp htype hw (by rw [hs]; exact ite_cases)
    · exact counts_kind ht.udp htype hw (by rw [hs]; exact ite_cases)
    · exact counts_kind ht.tcp htype hw (by rw [hs]; exact ite_cases)
    · refine counts_kind ht.other htype hw ?_
      rw [hs]
      dsimp only
      by_cases hk : frame 23 = 1 ∨ frame 23 = 17 ∨ frame 23 = 6
      · exact Or.inr ⟨fun hn => hn hk, if_pos hk⟩
      · exact Or.inl ⟨hk, if_neg hk⟩
    · rw [hwire, hs]
      exact ht.sent
    · rw [hs]
      exact ht.small
    · rw [hcalls, hs]
      exact ht.calls
    · rw [hwire]
      exact ht.number
    · rw [hwire]
      exact ht.numbers
  · have hno : ∀ kind, ¬ GoodPacket kind (.receive frame packetLen) := fun _ hg => hw hg.2.1
    constructor
    · exact hframes
    · exact htests
    · exact counts_off ht.good (hno _) (by rw [hs]; rfl)
    · exact counts_on ht.bad (Or.inl ⟨⟨htype, hw⟩, by rw [hs]; rfl⟩)
    · exact counts_off ht.icmp (hno _) (by rw [hs]; rfl)
    · exact counts_off ht.udp (hno _) (by rw [hs]; rfl)
    · exact counts_off ht.tcp (hno _) (by rw [hs]; rfl)
    · exact counts_off ht.other (hno _) (by rw [hs]; rfl)
    · rw [hwire, hs]
      exact ht.sent
    · rw [hs]
      exact ht.small
    · rw [hcalls, hs]
      exact ht.calls
    · rw [hwire]
      exact ht.number
    · rw [hwire]
      exact ht.numbers
  · have hno : ∀ kind, ¬ GoodPacket kind (.receive frame packetLen) := fun _ hg => htype hg.1
    constructor
    · exact hframes
    · exact htests
    · exact counts_off ht.good (hno _) (by rw [hs])
    · exact counts_off ht.bad (fun hb => htype hb.1) (by rw [hs])
    · exact counts_off ht.icmp (hno _) (by rw [hs])
    · exact counts_off ht.udp (hno _) (by rw [hs])
    · exact counts_off ht.tcp (hno _) (by rw [hs])
    · exact counts_off ht.other (hno _) (by rw [hs])
    · rw [hwire, hs]
      exact ht.sent
    · rw [hs]
      exact ht.small
    · rw [hcalls, hs]
      exact ht.calls
    · rw [hwire]
      exact ht.number
    · rw [hwire]
      exact ht.numbers

/-! ## Calls -/

/-- What a call leaves for its end, and what it gives to the device. -/
structure CallTally (h : Host) (c : HostCall) (r : Host × List SentFrame) : Prop where
  packets : r.1.rx.netRxPackets = h.rx.netRxPackets
  tests : r.1.rx.netRxTestPackets = h.rx.netRxTestPackets
  ipv4 : r.1.rx.ipv4 = h.rx.ipv4
  owes : owesPacket r.1.pc = ipv4Frames r.2
  owesSend : SendCall (.call c r.2) → owesCount r.1.pc = 1
  owesNone : ¬ SendCall (.call c r.2) → owesCount r.1.pc = 0
  number : r.1.nextIdentification = (h.nextIdentification + ipv4Frames r.2) % 2 ^ 16
  numbers : ipv4Numbers r.2 = List.replicate (ipv4Frames r.2) h.nextIdentification

theorem ipv4Frames_one {dst : Mac} {ethertype len n : Nat} {payload : Bytes}
    (ht : ethertype < 2 ^ 16) :
    ipv4Frames [(ethernetFrame dst ethertype payload len, n)]
      = if ethertype = ipv4Ethertype then 1 else 0 := by
  unfold ipv4Frames
  rw [List.countP_singleton, readBe16_ethernetFrame ht]
  simp

theorem ipv4Numbers_one {dst : Mac} {ethertype len n : Nat} {payload : Bytes}
    (ht : ethertype < 2 ^ 16) :
    ipv4Numbers [(ethernetFrame dst ethertype payload len, n)]
      = if ethertype = ipv4Ethertype
        then [readBe16 (ethernetFrame dst ethertype payload len)
          (ethernetHeaderSize + identificationAt)]
        else [] := by
  unfold ipv4Numbers
  rw [List.filter_singleton, readBe16_ethernetFrame ht]
  split <;> simp_all

theorem CallTally.congr {h₁ : Host} {c : HostCall} {r : Host × List SentFrame}
    (ht : CallTally h₁ c r) (hpackets : h₁.rx.netRxPackets = h.rx.netRxPackets)
    (htests : h₁.rx.netRxTestPackets = h.rx.netRxTestPackets) (hipv4 : h₁.rx.ipv4 = h.rx.ipv4)
    (hid : h₁.nextIdentification = h.nextIdentification) : CallTally h c r :=
  ⟨ht.packets.trans hpackets, ht.tests.trans htests, ht.ipv4.trans hipv4, ht.owes, ht.owesSend,
    ht.owesNone, hid ▸ ht.number, hid ▸ ht.numbers⟩

/-- A call that sends nothing. -/
theorem CallTally.refuse {c : HostCall} {after : AfterSend} (hid : h.nextIdentification < 2 ^ 16)
    (howes : owesPacket (.leaving after) = 0)
    (hsend : SendCall (.call c []) → owesCount (.leaving after) = 1)
    (hnone : ¬ SendCall (.call c []) → owesCount (.leaving after) = 0) :
    CallTally h c (h.refuse after) :=
  ⟨rfl, rfl, rfl, howes, hsend, hnone, (Nat.mod_eq_of_lt hid).symm, rfl⟩

/-- A call that sends a frame of another type. -/
theorem CallTally.transmit {c : HostCall} {dst : Mac} {ethertype len : Nat} {payload : Bytes}
    {after : Int → AfterSend} (hready : h.tx.ready = true) (hid : h.nextIdentification < 2 ^ 16)
    (hlen : len ≤ ethMaxFrameSize - ethernetHeaderSize) (ht : ethertype < 2 ^ 16)
    (hne : ethertype ≠ ipv4Ethertype) (howes : owesPacket (.waiting (after len)) = 0)
    (hsend : SendCall (.call c []) → owesCount (.waiting (after len)) = 1)
    (hnone : ¬ SendCall (.call c []) → owesCount (.waiting (after len)) = 0) :
    CallTally h c (h.transmit dst ethertype payload len after) := by
  have hzero : ipv4Frames [(ethernetFrame dst ethertype payload len, frameLen len)] = 0 :=
    (ipv4Frames_one ht).trans (if_neg hne)
  rw [transmit_ok hready hlen]
  -- whether it is a call of `ipv4_send` does not depend on what is sent
  refine ⟨rfl, rfl, rfl, howes.trans hzero.symm, ?_, ?_, ?_, ?_⟩
  · cases c <;> exact hsend
  · cases c <;> exact hnone
  · rw [hzero]
    exact (Nat.mod_eq_of_lt hid).symm
  · rw [hzero]
    exact (ipv4Numbers_one ht).trans (if_neg hne)

/-- **Every call.** -/
theorem hostCall_tally {c : HostCall} {r : Host × List SentFrame} (hready : h.tx.ready = true)
    (hid : h.nextIdentification < 2 ^ 16) (hc : hostCall h c = .ok r) : CallTally h c r := by
  have hmax : ipv4MaxPacketSize = 1500 := rfl
  have hsize : ipv4HeaderMinSize = 20 := rfl
  have heth : ethernetHeaderSize = 14 := rfl
  have hframe : ethMaxFrameSize = 1514 := rfl
  have harp : sizeofArpPacket ≤ ethMaxFrameSize - ethernetHeaderSize := by decide
  cases c with
  | ipv4Send dstIp protocol payload payloadLen =>
      unfold hostCall at hc
      dsimp only at hc
      split at hc
      · obtain rfl := Except.ok.inj hc
        exact .refuse hid rfl (fun _ => rfl) fun hn => absurd trivial hn
      split at hc
      · obtain rfl := Except.ok.inj hc
        exact .refuse hid rfl (fun _ => rfl) fun hn => absurd trivial hn
      rename_i hlong
      split at hc
      · obtain rfl := Except.ok.inj hc
        exact .transmit hready hid harp (by decide) (by decide) rfl (fun _ => rfl)
          fun hn => absurd trivial hn
      · rename_i mac _
        rw [bind_eq_ok] at hc
        obtain ⟨packet, hpacket, hc⟩ := hc
        rw [pure_eq_ok] at hc
        subst hc
        have hone : ∀ n, ipv4Frames [(ethernetFrame mac ipv4Ethertype packet
            (ipv4HeaderMinSize + payloadLen), n)] = 1 := fun n => ipv4Frames_one (by decide)
        have hready' : { h with nextIdentification := u16 (h.nextIdentification + 1) }.tx.ready
          = true := hready
        rw [transmit_ok hready' (by omega)]
        refine ⟨rfl, rfl, rfl, ?_, fun _ => ?_, fun hn => absurd trivial hn, ?_, ?_⟩
        · dsimp only
          rw [hone, if_neg (by omega)]
          rfl
        · dsimp only
          rw [if_neg (by omega)]
          rfl
        · dsimp only
          rw [hone]
          rfl
        · dsimp only
          rw [hone, ipv4Numbers_one (by decide), if_pos rfl,
            ipv4Frame_identification hpacket hid (by omega)]
          rfl
  | arpRequest targetIp =>
      obtain rfl := Except.ok.inj hc
      exact .transmit hready hid harp (by decide) (by decide) rfl (fun hn => hn.elim) fun _ => rfl
  | arpPoll =>
      unfold hostCall at hc
      dsimp only at hc
      split at hc
      · obtain rfl := Except.ok.inj hc
        exact .refuse hid rfl (fun hn => hn.elim) fun _ => rfl
      · obtain rfl := Except.ok.inj hc
        -- the mailbox is not counted
        refine CallTally.congr (.transmit hready hid harp (by decide) (by decide) rfl
          (fun hn => hn.elim) fun _ => rfl) ?_ ?_ ?_ ?_
        all_goals rfl
  | sendPacket payload len =>
      obtain rfl := Except.ok.inj hc
      by_cases hlen : len < 0 ∨ 1500 < len
      · have hsend : virtioNetSendEthernet h.tx (fun _ => 0xff) virtioNetTestEthertype payload len
            = (-1, h.tx) := by
          unfold virtioNetSendEthernet
          dsimp only
          rw [if_pos (Or.inr (by omega))]
        unfold Host.transmit
        rw [hsend]
        exact .refuse hid rfl (fun hn => hn.elim) fun _ => rfl
      · lift len to Nat using by omega
        exact .transmit hready hid (by omega) (by decide) (by decide) rfl (fun hn => hn.elim)
          fun _ => rfl

theorem Tally.call (ht : Tally tr h) (hidle : h.pc = .idle) {c : HostCall}
    {sent : List SentFrame} (hc : CallTally h c (h', sent)) : Tally (tr ++ [.call c sent]) h' := by
  have hwire : wire (tr ++ [.call c sent]) = wire tr ++ sent := by
    rw [wire_snoc]
    congr 1
    exact List.flatMap_singleton ..
  have hsent := ht.sent
  have hcalls := ht.calls
  rw [hidle] at hsent hcalls
  dsimp only [owesPacket, owesCount] at hsent hcalls
  constructor
  · exact counts_off ht.frames id hc.packets
  · exact counts_off ht.tests id hc.tests
  · exact counts_off ht.good id (by rw [hc.ipv4])
  · exact counts_off ht.bad id (by rw [hc.ipv4])
  · exact counts_off ht.icmp id (by rw [hc.ipv4])
  · exact counts_off ht.udp id (by rw [hc.ipv4])
  · exact counts_off ht.tcp id (by rw [hc.ipv4])
  · exact counts_off ht.other id (by rw [hc.ipv4])
  · rw [hwire, ipv4Frames_append, hc.ipv4, hc.owes]
    dsimp only
    omega
  · rw [hc.ipv4]
    exact ht.small
  · rw [hc.ipv4]
    by_cases hs : SendCall (.call c sent)
    · rw [times_hit hs, hc.owesSend hs]
      omega
    · rw [times_miss hs, hc.owesNone hs]
      exact hcalls
  · rw [hwire, ipv4Frames_append, hc.number, ht.number]
    dsimp only
    omega
  · -- one packet at the most, with the number that was next
    have hone : ipv4Frames sent = 0 ∨ ipv4Frames sent = 1 := by
      have howes := hc.owes
      have hle := owesPacket_le h'.pc
      dsimp only at howes
      omega
    have hnums := hc.numbers
    dsimp only at hnums
    rw [hwire, ipv4Frames_append, ipv4Numbers_append, ht.numbers, hnums, ht.number]
    rcases hone with h0 | h1
    · rw [h0]
      simp
    · rw [h1, List.range_succ, List.map_append]
      rfl

theorem Tally.ret (ht : Tally tr h) {after : AfterSend}
    (hpc : h.pc = .waiting after ∨ h.pc = .leaving after) :
    Tally (tr ++ [.ret after.ret]) (h.finish after) := by
  have hwire : wire (tr ++ [.ret after.ret]) = wire tr := wire_same rfl
  have hsend : times SendCall (tr ++ [.ret after.ret]) = times SendCall tr := times_miss id
  have howesP : owesPacket h.pc = owesPacket (.leaving after) := by
    rcases hpc with hpc | hpc
    · rw [hpc]
      cases after <;> rfl
    · rw [hpc]
  have howesC : owesCount h.pc = owesCount (.leaving after) := by
    rcases hpc with hpc | hpc
    · rw [hpc]
      cases after <;> rfl
    · rw [hpc]
  have hsent := ht.sent
  have hcalls := ht.calls
  have hsmall := ht.small
  rw [howesP] at hsent
  rw [howesC] at hcalls
  have hframes := counts_off (l := .ret after.ret) ht.frames id rfl
  have htests := counts_off (l := .ret after.ret) ht.tests id rfl
  have hgood := counts_off (l := .ret after.ret) ht.good id rfl
  have hbad := counts_off (l := .ret after.ret) ht.bad id rfl
  have hicmp := counts_off (l := .ret after.ret) ht.icmp id rfl
  have hudp := counts_off (l := .ret after.ret) ht.udp id rfl
  have htcp := counts_off (l := .ret after.ret) ht.tcp id rfl
  have hother := counts_off (l := .ret after.ret) ht.other id rfl
  have hnumber := hwire ▸ ht.number
  have hnumbers := hwire ▸ ht.numbers
  cases after with
  | counted ret =>
      refine ⟨hframes, htests, hgood, hbad, hicmp, hudp, htcp, hother, ?_, ?_, ?_, hnumber, hnumbers⟩
      · rw [hwire, ← hsent]
        show ((h.rx.ipv4.txPackets + 1) % 2 ^ 32 + 0) % 2 ^ 32 = (h.rx.ipv4.txPackets + 1) % 2 ^ 32
        omega
      · exact Nat.mod_lt _ (by decide)
      · rw [hsend, ← hcalls]
        show ((h.rx.ipv4.txPackets + 1) % 2 ^ 32 + h.rx.ipv4.txDropped + 0) % 2 ^ 32
          = (h.rx.ipv4.txPackets + h.rx.ipv4.txDropped + 1) % 2 ^ 32
        omega
  | dropped ret =>
      refine ⟨hframes, htests, hgood, hbad, hicmp, hudp, htcp, hother, ?_, hsmall, ?_, hnumber, hnumbers⟩
      · rw [hwire]
        exact hsent
      · rw [hsend, ← hcalls]
        show (h.rx.ipv4.txPackets + (h.rx.ipv4.txDropped + 1) % 2 ^ 32 + 0) % 2 ^ 32
          = (h.rx.ipv4.txPackets + h.rx.ipv4.txDropped + 1) % 2 ^ 32
        omega
  | plain ret =>
      refine ⟨hframes, htests, hgood, hbad, hicmp, hudp, htcp, hother, ?_, hsmall, ?_, hnumber, hnumbers⟩
      · rw [hwire]
        exact hsent
      · rw [hsend]
        exact hcalls

theorem tally_start (hs : HostStart h) : Tally [] h := by
  have h0 : ∀ P, 0 = times P [] % 2 ^ 32 := fun _ => rfl
  constructor
  · exact hs.rxPackets.trans (h0 _)
  · exact hs.testPackets.trans (h0 _)
  · rw [hs.ipv4]
    exact h0 _
  · rw [hs.ipv4]
    exact h0 _
  · rw [hs.ipv4]
    exact h0 _
  · rw [hs.ipv4]
    exact h0 _
  · rw [hs.ipv4]
    exact h0 _
  · rw [hs.ipv4]
    exact h0 _
  · rw [hs.ipv4, hs.pc]
    rfl
  · rw [hs.ipv4]
    decide
  · rw [hs.ipv4, hs.pc]
    rfl
  · rw [hs.nextIdentification]
    rfl
  · rfl

/-- **Every run** is counted. -/
theorem tally_run (hr : Run HostStart HostStep tr h) : Tally tr h := by
  refine hr.invariant_trace (P := Tally) (fun h hs => tally_start hs) fun tr h l h' hr ht hs => ?_
  obtain ⟨_, _, _, _, hrel⟩ := host_run hr
  cases hs with
  | @receive frame packetLen rx _ hrx =>
      obtain ⟨rx', hrx', hspec⟩ := receiveBuffer_ok h.rx frame packetLen
      obtain rfl := Except.ok.inj (hrx.symm.trans hrx')
      exact ht.receive hspec
  | call hidle _ hc =>
      have hid : h.nextIdentification < 2 ^ 16 := by
        rw [hrel.packets]
        exact Nat.mod_lt _ (by decide)
      exact ht.call hidle (hostCall_tally hrel.ready hid hc)
  | ret hpc => exact ht.ret hpc

end

/--
**The counters tell what happened**, modulo their width: `net_rx_packets` counts the buffers
used and `net_rx_test_packets` those with a test frame; `rx_packets` counts the IPv4 packets
that are as they should be, by protocol in the four counters after it, and `rx_dropped` the
others; between calls `tx_packets` counts the IPv4 packets on the wire and, together with
`tx_dropped`, the calls of `ipv4_send`. The packets on the wire are numbered from one.
-/
theorem host_counters {tr : List HostLabel} {h : Host} (hr : Run HostStart HostStep tr h) :
    h.rx.netRxPackets = times AnyFrame tr % 2 ^ 32
    ∧ h.rx.netRxTestPackets = times (OfType virtioNetTestEthertype) tr % 2 ^ 32
    ∧ h.rx.ipv4.rxPackets = times (GoodPacket fun _ => True) tr % 2 ^ 32
    ∧ h.rx.ipv4.rxDropped = times BadPacket tr % 2 ^ 32
    ∧ h.rx.ipv4.rxIcmp = times (GoodPacket (· = 1)) tr % 2 ^ 32
    ∧ h.rx.ipv4.rxUdp = times (GoodPacket (· = 17)) tr % 2 ^ 32
    ∧ h.rx.ipv4.rxTcp = times (GoodPacket (· = 6)) tr % 2 ^ 32
    ∧ h.rx.ipv4.rxOther = times (GoodPacket fun p => ¬ (p = 1 ∨ p = 17 ∨ p = 6)) tr % 2 ^ 32
    ∧ h.nextIdentification = (ipv4Frames (wire tr) + 1) % 2 ^ 16
    ∧ ipv4Numbers (wire tr) = (List.range (ipv4Frames (wire tr))).map (fun i => (i + 1) % 2 ^ 16)
    ∧ (h.pc = .idle → h.rx.ipv4.txPackets = ipv4Frames (wire tr) % 2 ^ 32
      ∧ (h.rx.ipv4.txPackets + h.rx.ipv4.txDropped) % 2 ^ 32 = times SendCall tr % 2 ^ 32) := by
  have ht := tally_run hr
  refine ⟨ht.frames, ht.tests, ht.good, ht.bad, ht.icmp, ht.udp, ht.tcp, ht.other, ht.number,
    ht.numbers, fun hidle => ?_⟩
  have hsent := ht.sent
  have hcalls := ht.calls
  have hsmall := ht.small
  rw [hidle] at hsent hcalls
  dsimp only [owesPacket, owesCount] at hsent hcalls
  exact ⟨by omega, by omega⟩

/-- A call of `ipv4_send` for everyone: one packet, with number one. -/
theorem host_counters_broadcast :
    ∃ sent h, Run HostStart HostStep
        [.call (.ipv4Send ipv4BroadcastAddress 17 none 0) sent, .ret 0] h
      ∧ ipv4Numbers (wire [.call (.ipv4Send ipv4BroadcastAddress 17 none 0) sent, .ret 0]) = [1]
      ∧ h.rx.ipv4.txPackets
        = ipv4Frames (wire [.call (.ipv4Send ipv4BroadcastAddress 17 none 0) sent, .ret 0]) % 2 ^ 32
      ∧ (h.rx.ipv4.txPackets + h.rx.ipv4.txDropped) % 2 ^ 32
        = times SendCall [.call (.ipv4Send ipv4BroadcastAddress 17 none 0) sent, .ret 0] % 2 ^ 32 := by
  have ht : HostCall.Typed (.ipv4Send ipv4BroadcastAddress 17 none 0) := ⟨by decide, by decide⟩
  obtain ⟨⟨h₁, sent⟩, hc, henc, hrel⟩ := hostCall_agrees (host_start sampleHost_start) ht
  obtain ⟨after, hpc, _⟩ := hostCall_ipv4Send hc
  have hone : ipv4Frames sent = 1 := by
    have henc : List.Forall₂ Encodes sent [.packet (fun _ => 0xff) 1 ipv4BroadcastAddress 17 []] :=
      henc
    cases henc with
    | cons hf hnil =>
        cases hnil
        unfold ipv4Frames
        rw [List.countP_singleton, hf.1.ethertype]
        rfl
  have hret : after.ret = 0 := by
    have hres : resultOf h₁.pc = some after.ret := by
      rcases hpc with hpc | hpc
      · rw [hpc]
        rfl
      · rw [hpc]
        rfl
    exact Option.some.inj (hres.symm.trans hrel.result.symm)
  have hr₁ := Run.snoc (.start sampleHost_start) (HostStep.call rfl ht hc)
  have hr₂ := Run.snoc hr₁ (HostStep.ret hpc)
  rw [hret] at hr₂
  obtain ⟨_, _, _, _, _, _, _, _, _, hnumbers, hidle⟩ := host_counters hr₂
  have hwire : wire [.call (.ipv4Send ipv4BroadcastAddress 17 none 0) sent, .ret 0] = sent :=
    List.append_nil sent
  refine ⟨sent, _, hr₂, hnumbers.trans ?_, hidle rfl⟩
  show List.map _ (List.range (ipv4Frames (wire [.call _ sent, .ret 0]))) = [1]
  rw [hwire, hone]
  rfl

end Os1000.Proof
