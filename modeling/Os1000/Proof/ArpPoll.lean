import Os1000.Lib.Run
import Os1000.Lib.Trace
import Os1000.Proof.Fields
import Mathlib.Tactic.IntervalCases

/-!
# Which request a reply answers

A mailbox with one slot, filled by the handler and emptied by `arp_poll`. Requests, takes
and sends are named by their positions in the trace. The argument has three parts.

What is pending is the latest request, and it came after the latest take; if nothing is
pending, every request was followed by a take. So a take always finds a request that no
earlier take has found. And from the take on, `arp_poll` works with its copies, which later
requests do not reach, and sends once.
-/

namespace Os1000.Proof

open Os1000 Lib

/-- A request for the local address. -/
def IsRequest : ArpLabel → Prop
  | .receive frame frameLen => arpAccepts frame frameLen = true
      ∧ readBe16 frame operationAt = arpOperationRequest
      ∧ readIpv4 frame targetIpAt = ipv4LocalAddress
  | _ => False

def IsTake (e : ArpLabel) : Prop := e = .take

def IsSend : ArpLabel → Prop
  | .send _ _ => True
  | _ => False

/-- The frame received at position `i` was sent from `mac` and `ip`. -/
def SentFrom (tr : List ArpLabel) (i : Nat) (mac : Mac) (ip : Nat) : Prop :=
  ∃ frame frameLen, tr[i]? = some (.receive frame frameLen)
    ∧ readMac frame senderMacAt = mac ∧ readIpv4 frame senderIpAt = ip

/-- The frame given to the device at `j` is for the latest request before the latest take. -/
def Answers (tr : List ArpLabel) (j i : Nat) : Prop :=
  ∃ t, LastAt IsTake (tr.take j) t ∧ LastAt IsRequest (tr.take t) i

/-- `arp_poll` has taken the request of `mac` and `ip`, and not sent anything since. -/
def Taken (tr : List ArpLabel) (mac : Mac) (ip : Nat) : Prop :=
  ∃ t i, LastAt IsTake tr t ∧ LastAt IsRequest (tr.take t) i ∧ SentFrom tr i mac ip
    ∧ ∀ (j : Nat) e, tr[j]? = some e → IsSend e → j < t

/-- What the trace says about takes and sends. -/
structure Past (tr : List ArpLabel) : Prop where
  /-- Every take found a request that came after the take before. -/
  takes : ∀ t : Nat, tr[t]? = some ArpLabel.take → ∃ i, LastAt IsRequest (tr.take t) i
    ∧ ∀ t' : Nat, tr[t']? = some ArpLabel.take → t' < t → t' < i
  /-- Every reply is addressed to the sender of the request it answers. -/
  sends : ∀ (j : Nat) frame n, tr[j]? = some (.send frame n) → n = frameLen sizeofArpPacket
    ∧ ∃ i mac ip, Answers tr j i ∧ SentFrom tr i mac ip ∧ frame = replyFrame mac ip
  /-- There is a take between two sends. -/
  alone : ∀ (j j' : Nat) e e', j < j' → tr[j]? = some e → tr[j']? = some e' → IsSend e → IsSend e' →
    ∃ t : Nat, j < t ∧ t < j' ∧ tr[t]? = some ArpLabel.take

/-- What the trace says about the slot. -/
structure Slot (tr : List ArpLabel) (r : ArpPendingReply) : Prop where
  full : r.pending = true → ∃ i, LastAt IsRequest tr i ∧ SentFrom tr i r.targetMac r.targetIp
    ∧ ∀ t : Nat, tr[t]? = some ArpLabel.take → t < i
  empty : r.pending = false → ∀ (i : Nat) e, tr[i]? = some e → IsRequest e →
    ∃ t : Nat, i < t ∧ tr[t]? = some ArpLabel.take

/-- What holds where `arp_poll` is. -/
def AtPc (tr : List ArpLabel) (s : ArpPoll) : PollPc → Prop
  | .check _ => s.sie = false
  | .skip _ => s.sie = false
  | .copyMac _ => s.sie = false ∧ s.arp.pendingReply.pending = true
  | .copyIp _ mac => s.sie = false ∧ s.arp.pendingReply.pending = true
      ∧ s.arp.pendingReply.targetMac = mac
  | .take _ mac ip => s.sie = false ∧ s.arp.pendingReply.pending = true
      ∧ s.arp.pendingReply.targetMac = mac ∧ s.arp.pendingReply.targetIp = ip
  | .restore _ mac ip => s.sie = false ∧ Taken tr mac ip
  | .fill mac ip => Taken tr mac ip
  | .kick => ∃ mac ip, Taken tr mac ip ∧ s.netTxBuf = replyFrame mac ip
  | _ => True

/-- The mailbox after the events `tr`. -/
structure Mailbox (tr : List ArpLabel) (s : ArpPoll) : Prop where
  past : Past tr
  slot : Slot tr s.arp.pendingReply
  pc : AtPc tr s s.pc

section

variable {tr : List ArpLabel} {s s' : ArpPoll} {e : ArpLabel} {i j n : Nat} {mac : Mac} {ip : Nat}

/-! ## Events that change nothing -/

theorem SentFrom.snoc (h : SentFrom tr i mac ip) : SentFrom (tr ++ [e]) i mac ip := by
  obtain ⟨frame, len, hi, hm⟩ := h
  exact ⟨frame, len, getElem?_snoc hi, hm⟩

theorem Answers.snoc (h : Answers tr j i) (hj : j ≤ tr.length) : Answers (tr ++ [e]) j i := by
  obtain ⟨t, ht, hi⟩ := h
  have htj := ht.get.1
  exact ⟨t, by rw [take_snoc hj]; exact ht, by rw [take_snoc (by omega)]; exact hi⟩

theorem Taken.snoc (h : Taken tr mac ip) (ht : ¬ IsTake e) (hs : ¬ IsSend e) :
    Taken (tr ++ [e]) mac ip := by
  obtain ⟨t, i, h1, h2, h3, h4⟩ := h
  have hlt := h1.lt
  refine ⟨t, i, h1.snoc ht, by rw [take_snoc (by omega)]; exact h2, h3.snoc, fun j x hj hx => ?_⟩
  rcases getElem?_snoc_iff.mp hj with hj | ⟨_, rfl⟩
  · exact h4 j x hj hx
  · exact absurd hx hs

/-- An old take, in the longer trace. -/
theorem Past.take_found (h : Past tr) {t : Nat} (hx : tr[t]? = some ArpLabel.take) :
    ∃ i, LastAt IsRequest ((tr ++ [e]).take t) i
      ∧ ∀ t' : Nat, (tr ++ [e])[t']? = some ArpLabel.take → t' < t → t' < i := by
  have hlt := lt_of_getElem? hx
  obtain ⟨i, hi, hall⟩ := h.takes t hx
  refine ⟨i, by rw [take_snoc (by omega)]; exact hi, fun t' ht' hlt' => hall t' ?_ hlt'⟩
  exact (getElem?_snoc_iff.mp ht').resolve_right fun h => by omega

/-- An old reply, in the longer trace. -/
theorem Past.send_answers (h : Past tr) {frame : Bytes} (hx : tr[j]? = some (.send frame n)) :
    n = frameLen sizeofArpPacket
      ∧ ∃ i mac ip, Answers (tr ++ [e]) j i ∧ SentFrom (tr ++ [e]) i mac ip
        ∧ frame = replyFrame mac ip := by
  have hlt := lt_of_getElem? hx
  obtain ⟨hn, i, mac, ip, ha, hf, hfr⟩ := h.sends j frame n hx
  exact ⟨hn, i, mac, ip, ha.snoc (by omega), hf.snoc, hfr⟩

theorem Past.take_between (h : Past tr) {j' : Nat} {x x' : ArpLabel} (hlt : j < j')
    (hx : tr[j]? = some x) (hx' : tr[j']? = some x') (hp : IsSend x) (hp' : IsSend x') :
    ∃ t : Nat, j < t ∧ t < j' ∧ (tr ++ [e])[t]? = some ArpLabel.take := by
  obtain ⟨t, h1, h2, h3⟩ := h.alone j j' x x' hlt hx hx' hp hp'
  exact ⟨t, h1, h2, getElem?_snoc h3⟩

theorem Past.snoc (h : Past tr) (ht : ¬ IsTake e) (hs : ¬ IsSend e) : Past (tr ++ [e]) := by
  have hsend : ∀ (j : Nat) x, (tr ++ [e])[j]? = some x → IsSend x → tr[j]? = some x :=
    fun j x hx hp => (getElem?_snoc_iff.mp hx).resolve_right fun h => hs (h.2 ▸ hp)
  refine ⟨fun t hx => h.take_found ?_, fun j frame n hx => h.send_answers (hsend j _ hx trivial),
    fun j j' x x' hlt hx hx' hp hp' =>
      h.take_between hlt (hsend j x hx hp) (hsend j' x' hx' hp') hp hp'⟩
  exact (getElem?_snoc_iff.mp hx).resolve_right fun h => ht h.2

theorem Slot.snoc {r : ArpPendingReply} (h : Slot tr r) (ht : ¬ IsTake e) (hr : ¬ IsRequest e) :
    Slot (tr ++ [e]) r := by
  refine ⟨fun hp => ?_, fun hp i x hx hreq => ?_⟩
  · obtain ⟨i, hi, hf, hall⟩ := h.full hp
    refine ⟨i, hi.snoc hr, hf.snoc, fun t hx => hall t ?_⟩
    exact (getElem?_snoc_iff.mp hx).resolve_right fun h => ht h.2
  · rcases getElem?_snoc_iff.mp hx with hx | ⟨_, rfl⟩
    · obtain ⟨t, h1, h2⟩ := h.empty hp i x hx hreq
      exact ⟨t, h1, getElem?_snoc h2⟩
    · exact absurd hreq hr

/-! ## The three events -/

theorem arpReceive_request {a : Arp} {frame : Bytes} (h : IsRequest (.receive frame n)) :
    (arpReceive a frame n).pendingReply
      = ⟨true, readMac frame senderMacAt, readIpv4 frame senderIpAt⟩ := by
  unfold arpReceive
  rw [if_pos h.1]
  dsimp only
  rw [if_pos h.2]

theorem arpReceive_other {a : Arp} {frame : Bytes} (h : ¬ IsRequest (.receive frame n)) :
    (arpReceive a frame n).pendingReply = a.pendingReply := by
  unfold arpReceive
  split
  · rename_i hacc
    dsimp only
    rw [if_neg fun hr => h ⟨hacc, hr⟩]
  · rfl

/-- **A frame is received.** If it is a request, it is what is pending now. -/
theorem Slot.receive {a : Arp} (h : Slot tr a.pendingReply) (frame : Bytes) (n : Nat) :
    Slot (tr ++ [.receive frame n]) (arpReceive a frame n).pendingReply := by
  have ht : ¬ IsTake (.receive frame n) := fun h => by cases h
  by_cases hreq : IsRequest (.receive frame n)
  · rw [arpReceive_request hreq]
    refine ⟨fun _ => ⟨tr.length, lastAt_snoc hreq, ⟨frame, n, ?_, rfl, rfl⟩, fun t hx => ?_⟩,
      fun hp => by cases hp⟩
    · exact getElem?_snoc_iff.mpr (Or.inr ⟨rfl, rfl⟩)
    · exact lt_of_getElem? ((getElem?_snoc_iff.mp hx).resolve_right fun h => ht h.2)
  · rw [arpReceive_other hreq]
    exact h.snoc ht hreq

theorem slot_take {r : ArpPendingReply} :
    Slot (tr ++ [ArpLabel.take]) { r with pending := false } := by
  refine ⟨fun hf => (by cases hf), fun _ i x hx hreq => ?_⟩
  refine ⟨tr.length, ?_, getElem?_snoc_iff.mpr (Or.inr ⟨rfl, rfl⟩)⟩
  rcases getElem?_snoc_iff.mp hx with hx | ⟨_, rfl⟩
  · exact lt_of_getElem? hx
  · cases hreq

/-- **The slot is taken.** The request found there is newer than every take. -/
theorem Past.take {r : ArpPendingReply} (h : Past tr) (hs : Slot tr r) (hp : r.pending = true) :
    Past (tr ++ [ArpLabel.take]) ∧ Taken (tr ++ [ArpLabel.take]) r.targetMac r.targetIp := by
  obtain ⟨i, hi, hf, hall⟩ := hs.full hp
  have hi' : LastAt IsRequest ((tr ++ [ArpLabel.take]).take tr.length) i := by
    rw [take_snoc (Nat.le_refl _), List.take_length]
    exact hi
  have hsend : ∀ (j : Nat) x, (tr ++ [ArpLabel.take])[j]? = some x → IsSend x →
      tr[j]? = some x := fun j x hx hp =>
    (getElem?_snoc_iff.mp hx).resolve_right fun h => by rw [← h.2] at hp; cases hp
  refine ⟨⟨fun t hx => ?_, fun j frame n hx => h.send_answers (hsend j _ hx trivial),
    fun j j' x x' hlt hx hx' hp hp' =>
      h.take_between hlt (hsend j x hx hp) (hsend j' x' hx' hp') hp hp'⟩,
    ⟨tr.length, i, lastAt_snoc rfl, hi', hf.snoc, fun j x hx hp => lt_of_getElem? (hsend j x hx hp)⟩⟩
  rcases getElem?_snoc_iff.mp hx with hx | ⟨rfl, _⟩
  · exact h.take_found hx
  · refine ⟨i, hi', fun t' ht' hlt' => hall t' ?_⟩
    exact (getElem?_snoc_iff.mp ht').resolve_right fun h => by omega

/-- **The reply is sent.** Everything sent before was sent before the take. -/
theorem Past.send (h : Past tr) (ht : Taken tr mac ip) :
    Past (tr ++ [.send (replyFrame mac ip) (frameLen sizeofArpPacket)]) := by
  obtain ⟨t, i, h1, h2, h3, h4⟩ := ht
  have htlt := h1.lt
  obtain ⟨et, het, het'⟩ := h1.1
  refine ⟨fun t hx => h.take_found ?_, fun j frame n hx => ?_,
    fun j j' x x' hlt hx hx' hp hp' => ?_⟩
  · exact (getElem?_snoc_iff.mp hx).resolve_right fun h => by cases h.2
  · rcases getElem?_snoc_iff.mp hx with hx | ⟨rfl, heq⟩
    · exact h.send_answers hx
    · injection heq with hfr hn
      refine ⟨hn.symm, i, mac, ip, ⟨t, ?_, ?_⟩, h3.snoc, hfr.symm⟩
      · rw [take_snoc (Nat.le_refl _), List.take_length]
        exact h1
      · rw [take_snoc (by omega)]
        exact h2
  · have hold : tr[j]? = some x := by
      refine (getElem?_snoc_iff.mp hx).resolve_right fun h => ?_
      have := lt_of_getElem? hx'
      rw [List.length_append, List.length_singleton] at this
      omega
    rcases getElem?_snoc_iff.mp hx' with hx' | ⟨hj', _⟩
    · exact h.take_between hlt hold hx' hp hp'
    · refine ⟨t, h4 j x hold hp, by omega, getElem?_snoc ?_⟩
      rw [het, het']

/-! ## Every step -/

/-- The handler runs where nothing is held of the slot. -/
theorem AtPc.handler (h : AtPc tr s s.pc) (ho : s.Open) (ht : ¬ IsTake e) (hs : ¬ IsSend e)
    (hpc : s'.pc = s.pc) (hbuf : s'.netTxBuf = s.netTxBuf) : AtPc (tr ++ [e]) s' s'.pc := by
  rw [hpc]
  cases hs' : s.pc with
  | idle | mask | wait | loop | window | done => trivial
  | fill mac ip =>
      rw [hs'] at h
      exact Taken.snoc h ht hs
  | kick =>
      rw [hs'] at h
      obtain ⟨mac, ip, h, hb⟩ := h
      exact ⟨mac, ip, h.snoc ht hs, hbuf.trans hb⟩
  | check | skip =>
      rw [hs'] at h
      rcases ho with ho | ho
      · rw [hs'] at ho
        cases ho
      · exact absurd (ho.symm.trans h) (by decide)
  | copyMac | copyIp | take | restore =>
      rw [hs'] at h
      rcases ho with ho | ho
      · rw [hs'] at ho
        cases ho
      · exact absurd (ho.symm.trans h.1) (by decide)

/-- A step that neither touches the slot nor sends. -/
theorem Mailbox.move (h : Mailbox tr s) (hreq : ¬ IsRequest e) (ht : ¬ IsTake e) (hs : ¬ IsSend e)
    (hslot : s'.arp = s.arp) (hpc : AtPc (tr ++ [e]) s' s'.pc) : Mailbox (tr ++ [e]) s' :=
  ⟨h.past.snoc ht hs, hslot ▸ h.slot.snoc ht hreq, hpc⟩

theorem mailbox_step (h : Mailbox tr s) (hstep : ArpStep s e s') : Mailbox (tr ++ [e]) s' := by
  have hpc := h.pc
  cases hstep with
  | receive ho =>
      exact ⟨h.past.snoc (fun h => by cases h) id, h.slot.receive _ _,
        hpc.handler ho (fun h => by cases h) id rfl rfl⟩
  | complete ho =>
      exact h.move id (fun h => by cases h) id rfl
        (hpc.handler ho (fun h => by cases h) id rfl rfl)
  | poll sie _ => exact h.move id (fun h => by cases h) id rfl trivial
  | mask hp => exact h.move id (fun h => by cases h) id rfl rfl
  | empty hp _ =>
      rw [hp] at hpc
      exact h.move id (fun h => by cases h) id rfl hpc
  | skip hp => exact h.move id (fun h => by cases h) id rfl trivial
  | found hp hpend =>
      rw [hp] at hpc
      exact h.move id (fun h => by cases h) id rfl ⟨hpc, hpend⟩
  | copyMac hp =>
      rw [hp] at hpc
      exact h.move id (fun h => by cases h) id rfl ⟨hpc.1, hpc.2, rfl⟩
  | copyIp hp =>
      rw [hp] at hpc
      exact h.move id (fun h => by cases h) id rfl ⟨hpc.1, hpc.2.1, hpc.2.2, rfl⟩
  | take hp =>
      rw [hp] at hpc
      obtain ⟨hsie, hpend, rfl, rfl⟩ := hpc
      obtain ⟨hpast, htaken⟩ := h.past.take h.slot hpend
      exact ⟨hpast, slot_take, hsie, htaken⟩
  | restore hp =>
      rw [hp] at hpc
      exact h.move id (fun h => by cases h) id rfl (hpc.2.snoc (fun h => by cases h) id)
  | refuse hp _ => exact h.move id (fun h => by cases h) id rfl trivial
  | fill hp _ =>
      rw [hp] at hpc
      exact h.move id (fun h => by cases h) id rfl
        ⟨_, _, Taken.snoc hpc (fun h => by cases h) id, rfl⟩
  | kick hp =>
      rw [hp] at hpc
      obtain ⟨mac, ip, htaken, hbuf⟩ := hpc
      rw [hbuf]
      exact ⟨h.past.send htaken, h.slot.snoc (fun h => by cases h) id, trivial⟩
  | wait _ => exact h.move id (fun h => by cases h) id rfl trivial
  | «open» _ _ => exact h.move id (fun h => by cases h) id rfl trivial
  | close _ => exact h.move id (fun h => by cases h) id rfl trivial
  | finish _ _ => exact h.move id (fun h => by cases h) id rfl trivial
  | ret _ => exact h.move id (fun h => by cases h) id rfl trivial

theorem mailbox_init (h : ArpStart s) : Mailbox [] s := by
  obtain ⟨harp, hpc⟩ := h
  have hnone : ∀ (i : Nat) (x : ArpLabel), ¬ ([] : List ArpLabel)[i]? = some x := fun i x hx => by
    rw [List.getElem?_nil] at hx
    cases hx
  refine ⟨⟨fun t hx => absurd hx (hnone t _), fun j f n hx => absurd hx (hnone j _),
    fun j j' x x' _ hx => absurd hx (hnone j x)⟩, ⟨fun hp => ?_, fun _ i x hx => ?_⟩, ?_⟩
  · rw [harp] at hp
    cases hp
  · exact absurd hx (hnone i x)
  · rw [hpc]
    trivial

theorem mailbox_run (h : Run ArpStart ArpStep tr s) : Mailbox tr s :=
  Run.invariant_trace (fun _ hs => mailbox_init hs) (fun _ _ _ _ _ hm hstep => mailbox_step hm hstep) h

/-! ## What the reply says -/

/-- Its three addresses. -/
theorem replyFrame_addresses (hip : ip < 2 ^ 32) : readMac (replyFrame mac ip) 0 = mac
    ∧ readMac (replyFrame mac ip) targetMacAt = mac
    ∧ readIpv4 (replyFrame mac ip) targetIpAt = ip := by
  have h : Decodes (replyFrame mac ip) (frameLen sizeofArpPacket) mac arpOperationReply netMac
      ipv4LocalAddress mac ip := arpBuildPacket_decodes (by decide) hip
  exact ⟨h.dst, h.targetMac, h.targetIp⟩

/-- Two replies never answer the same request: there is a take between them, and a take
comes after the request that the one before has found. -/
theorem Past.answers_once {j j' : Nat} (h : Past tr) {x x' : ArpLabel} (hj : tr[j]? = some x)
    (hj' : tr[j']? = some x') (hx : IsSend x) (hx' : IsSend x') (ha : Answers tr j i)
    (ha' : Answers tr j' i) : ¬ j < j' := by
  intro hlt
  obtain ⟨t0, h1, h2, h3⟩ := h.alone j j' x x' hlt hj hj' hx hx'
  obtain ⟨t, ht, hi⟩ := ha
  obtain ⟨t', ht', hi'⟩ := ha'
  obtain ⟨htj, _, hte, rfl⟩ := ht.get
  obtain ⟨_, _, hte', rfl⟩ := ht'.get
  -- the second take is the one between or a later one, so the first lies before its request
  have hle : t0 ≤ t' := by
    by_contra hcon
    exact ht'.after (by omega) h2 h3 rfl
  obtain ⟨i', hi2, hall⟩ := h.takes t' hte'
  have hti := hall t hte (by omega)
  rw [hi2.unique hi'] at hti
  have := hi.get.1
  omega

end

/-! ## The protocol -/

/-- The request received at `i` is what is pending. -/
def Pending (tr : List ArpLabel) (s : ArpPoll) (i : Nat) : Prop :=
  s.arp.pendingReply.pending = true
    ∧ SentFrom tr i s.arp.pendingReply.targetMac s.arp.pendingReply.targetIp

/-- A request for the local address. -/
def requestFrom (x : UInt8) : Bytes :=
  let packet := arpBuildPacket arpOperationRequest (fun _ => 0) ipv4LocalAddress
  ethernetFrame netMac arpEthertype (writeIpv4 (writeMac packet 8 fun _ => x) 14 x.toNat)
    sizeofArpPacket

/-- `arp_poll` answers a request and waits. -/
def answer (a : Bytes) : List ArpLabel :=
  [.receive a 60, .poll, .move, .move, .move, .move, .take, .move, .move,
    .send (replyFrame (readMac a senderMacAt) (readIpv4 a senderIpAt)) 60, .move, .move]

/-- Two more arrive before it returns. -/
def exchange (a b c : Bytes) : List ArpLabel :=
  answer a ++ [.receive b 60, .receive c 60, .complete, .move, .move, .ret]

theorem answer_run {a : Bytes} (ha : IsRequest (.receive a 60)) :
    ∃ s, Run ArpStart ArpStep (answer a) s ∧ s.pc = .window true ∧ s.sie = true := by
  have h0 : Run ArpStart ArpStep [] ⟨arpInit, true, true, fun _ => 0, false, .idle⟩ :=
    .start ⟨rfl, rfl⟩
  have h1 := h0.snoc (@ArpStep.receive _ a 60 (Or.inl rfl))
  obtain ⟨cache, hcache⟩ : ∃ cache, arpReceive arpInit a 60
      = ⟨cache, ⟨true, readMac a senderMacAt, readIpv4 a senderIpAt⟩⟩ :=
    ⟨_, by rw [← arpReceive_request (a := arpInit) ha]⟩
  rw [hcache] at h1
  have h2 := (h1.snoc (.poll true rfl)).snoc (.mask rfl)
  have h3 := (h2.snoc (.found rfl rfl)).snoc (.copyMac rfl)
  have h4 := ((h3.snoc (.copyIp rfl)).snoc (.take rfl)).snoc (.restore rfl)
  have h5 := (h4.snoc (.fill rfl rfl)).snoc (.kick rfl)
  exact ⟨_, (h5.snoc (.wait rfl)).snoc (.open rfl rfl), rfl, rfl⟩

theorem exchange_run {a b c : Bytes} (ha : IsRequest (.receive a 60))
    (hc : IsRequest (.receive c 60)) : ∃ s, Run ArpStart ArpStep (exchange a b c) s
      ∧ s.arp.pendingReply = ⟨true, readMac c senderMacAt, readIpv4 c senderIpAt⟩ := by
  obtain ⟨s, h, hpc, hsie⟩ := answer_run ha
  have h1 := h.snoc (@ArpStep.receive _ b 60 (Or.inr hsie))
  have h2 := h1.snoc (@ArpStep.receive _ c 60 (Or.inr hsie))
  have h3 := ((h2.snoc (.complete (Or.inr hsie))).snoc (.close hpc)).snoc (.finish rfl rfl)
  have h4 := h3.snoc (.ret rfl)
  simp only [List.append_assoc, List.cons_append, List.nil_append] at h4
  exact ⟨_, h4, arpReceive_request hc⟩

/-- The slot is taken once. -/
theorem exchange_take {a b c : Bytes} {t : Nat}
    (h : (exchange a b c)[t]? = some ArpLabel.take) : t = 6 := by
  have hlt : t < 18 := lt_of_getElem? h
  interval_cases t
  all_goals
    first
    | rfl
    | cases h

theorem isRequest_requestFrom (x : UInt8) (h : x = 1 ∨ x = 2 ∨ x = 3) :
    IsRequest (.receive (requestFrom x) 60) := by
  rcases h with rfl | rfl | rfl
  all_goals exact ⟨by decide, by decide, by decide⟩

/--
**Deferred replies**, for frames received at any time that interrupts allow, also while
`arp_poll` waits for its own transmission. Every frame `arp_poll` gives to the device takes
its three addresses from one request for the local address, the latest one before the slot
was taken. No request is answered by two frames. And at any time, also when `arp_poll`
returns, a request that came after the slot was taken is pending, or a later one is that
came in its place: the latest.
-/
theorem arp_replies {tr : List ArpLabel} {s : ArpPoll} (hr : Run ArpStart ArpStep tr s) :
    (∀ (j : Nat) frame n, tr[j]? = some (.send frame n) → n = frameLen sizeofArpPacket
      ∧ ∃ i request len, Answers tr j i ∧ tr[i]? = some (.receive request len)
        ∧ IsRequest (.receive request len)
        ∧ readMac frame 0 = readMac request senderMacAt
        ∧ readMac frame targetMacAt = readMac request senderMacAt
        ∧ readIpv4 frame targetIpAt = readIpv4 request senderIpAt)
    ∧ (∀ (j j' : Nat) x x' i, tr[j]? = some x → tr[j']? = some x' → IsSend x → IsSend x' →
      Answers tr j i → Answers tr j' i → j = j')
    ∧ (∀ (i : Nat) x, tr[i]? = some x → IsRequest x →
      (∀ t : Nat, i < t → tr[t]? ≠ some ArpLabel.take) →
      ∃ i', i ≤ i' ∧ LastAt IsRequest tr i' ∧ Pending tr s i') := by
  have hm := mailbox_run hr
  refine ⟨fun j frame n hj => ?_, fun j j' x x' i hj hj' hx hx' ha ha' => ?_,
    fun i x hi hx hlast => ?_⟩
  · obtain ⟨hn, i, mac, ip, ha, ⟨request, len, hi, rfl, rfl⟩, rfl⟩ := hm.past.sends j frame n hj
    refine ⟨hn, i, request, len, ha, hi, ?_, replyFrame_addresses (readIpv4_lt ..)⟩
    obtain ⟨t, _, hreq⟩ := ha
    obtain ⟨_, y, hy, hyreq⟩ := hreq.get
    rw [hi] at hy
    injection hy with hy
    rw [hy]
    exact hyreq
  · have h1 := hm.past.answers_once hj hj' hx hx' ha ha'
    have h2 := hm.past.answers_once hj' hj hx' hx ha' ha
    omega
  · cases hp : s.arp.pendingReply.pending with
    | false =>
        obtain ⟨t, hlt, ht⟩ := hm.slot.empty hp i x hi hx
        exact absurd ht (hlast t hlt)
    | true =>
        obtain ⟨i', hi', hf, _⟩ := hm.slot.full hp
        refine ⟨i', ?_, hi', hp, hf⟩
        by_contra hcon
        exact hi'.2 i x (by omega) hi hx

/-- The request of 1 is answered, and that of 3 is pending. -/
theorem arp_replies_exchange :
    ∃ s, Run ArpStart ArpStep (exchange (requestFrom 1) (requestFrom 2) (requestFrom 3)) s
      ∧ ∃ i, Answers (exchange (requestFrom 1) (requestFrom 2) (requestFrom 3)) 9 i
      ∧ ∃ i', 12 ≤ i' ∧ Pending (exchange (requestFrom 1) (requestFrom 2) (requestFrom 3)) s i' := by
  have hreq := isRequest_requestFrom
  obtain ⟨s, hr, _⟩ := exchange_run (b := requestFrom 2) (hreq 1 (by decide)) (hreq 3 (by decide))
  obtain ⟨hsend, _, hpend⟩ := arp_replies hr
  obtain ⟨_, i, _, _, ha, _⟩ := hsend 9 _ _ rfl
  obtain ⟨i', hle, _, hp⟩ := hpend 12 _ rfl (hreq 2 (by decide)) fun t ht htake => by
    have := exchange_take htake
    omega
  exact ⟨s, hr, i, ha, i', hle, hp⟩

/-- Of two requests that arrive while `arp_poll` waits, the first is not pending when it
returns: the second has taken its place. -/
theorem arp_request_replaced : ¬ ∀ tr s, Run ArpStart ArpStep (tr ++ [.ret]) s →
    ∀ t i x, LastAt IsTake tr t → t < i → tr[i]? = some x → IsRequest x →
      Pending (tr ++ [.ret]) s i := by
  intro h
  have hreq := isRequest_requestFrom
  obtain ⟨s, hr, hs⟩ := exchange_run (b := requestFrom 2) (hreq 1 (by decide)) (hreq 3 (by decide))
  have htake : LastAt IsTake
      (exchange (requestFrom 1) (requestFrom 2) (requestFrom 3)).dropLast 6 := by
    refine ⟨⟨_, rfl, rfl⟩, fun j x hj hx hp => ?_⟩
    rw [hp] at hx
    have := exchange_take (getElem?_snoc (e := .ret) hx)
    omega
  obtain ⟨_, frame, n, hf, _, hip⟩ := h _ s hr 6 12 _ htake (by decide) rfl (hreq 2 (by decide))
  rw [hs] at hip
  injection hf with hf
  injection hf with hf _
  rw [← hf] at hip
  exact absurd hip (by decide)

end Os1000.Proof
