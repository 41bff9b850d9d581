import Os1000.Proof.ArpCache
import Os1000.Proof.ArpPoll
import Os1000.Proof.Ipv4

/-!
# ARP there and back

What `arp_build_packet` puts into a frame is what `arp_receive` reads out of it, field by
field. For the way back, a request that was received is followed through the mailbox:
until `arp_poll` takes it, it is what is pending; then `arp_poll` holds a copy of it; then
the reply has been given to the device. Interrupts may come at every point of this. A
later request replaces one that has not been taken, and a later packet of any kind may
change what the cache says about the sender.
-/

namespace Os1000.Proof

open Os1000 Lib

/-! ## From the request to the reply -/

/-- Before the slot is taken, no request is received. -/
def NoneBetween (es : List ArpLabel) : Prop :=
  ∀ (i : Nat) e, es[i]? = some e → IsRequest e → ∃ t, t < i ∧ es[t]? = some ArpLabel.take

/-- The frames that were received, in order. -/
def framesOf (tr : List ArpLabel) : List (Bytes × Nat) :=
  tr.filterMap fun
    | .receive frame n => some (frame, n)
    | _ => none

/-- The cache after these events. -/
def cacheAfter (tr : List ArpLabel) : ArpCache := (arpRun (framesOf tr)).cache

/-- Every packet accepted in `es`, which came after `before`, keeps the binding of `ip` to `mac`. -/
def Undisturbed (mac : Mac) (ip : Nat) (before es : List ArpLabel) : Prop :=
  ∀ es₁ frame n es₂, es = es₁ ++ .receive frame n :: es₂ → arpAccepts frame n = true →
    Keeps (cacheAfter (before ++ es₁)) mac ip frame

/-- `arp_poll` was called and has not taken the slot. -/
def BeforeTake : PollPc → Prop
  | .mask _ | .check _ | .copyMac _ | .copyIp _ _ | .take _ _ _ => True
  | _ => False

/-- `arp_poll` has taken the slot, and has the reply to send. -/
def HoldsReply (mac : Mac) (ip : Nat) (s : ArpPoll) : Prop :=
  match s.pc with
  | .restore _ m i => m = mac ∧ i = ip
  | .fill m i => m = mac ∧ i = ip
  | .kick => s.netTxBuf = replyFrame mac ip
  | _ => False

/-- How far the answer to the request of `mac` and `ip` is, after the events `es` since then. -/
inductive Answering (mac : Mac) (ip : Nat) (es : List ArpLabel) (s : ArpPoll) : Prop where
  | waiting (slot : s.arp.pendingReply = ⟨true, mac, ip⟩) (untaken : ArpLabel.take ∉ es)
      (found : ∀ saved, s.pc ≠ .skip saved) (called : ArpLabel.poll ∈ es → BeforeTake s.pc)
  | taken (took : ArpLabel.take ∈ es) (reply : HoldsReply mac ip s)
  | sent (took : ArpLabel.take ∈ es)
      (reply : .send (replyFrame mac ip) (frameLen sizeofArpPacket) ∈ es)

section

variable {tr es : List ArpLabel} {s s' : ArpPoll} {e : ArpLabel} {frame : Bytes} {n ip : Nat}
  {mac : Mac}

theorem txReady_step (h : ArpStep s e s') : s'.txReady = s.txReady := by
  cases h <;> rfl

theorem NoneBetween.init (h : NoneBetween (es ++ [e])) : NoneBetween es := by
  intro i x hx hreq
  obtain ⟨t, ht, htake⟩ := h i x (getElem?_snoc hx) hreq
  have hi := lt_of_getElem? hx
  exact ⟨t, ht, (getElem?_snoc_iff.mp htake).resolve_right fun h => by omega⟩

/-- While the slot is not taken, no request comes. -/
theorem NoneBetween.last (h : NoneBetween (es ++ [e])) (hno : ArpLabel.take ∉ es) : ¬ IsRequest e := by
  intro hreq
  obtain ⟨t, ht, htake⟩ := h es.length e (getElem?_snoc_iff.mpr (Or.inr ⟨rfl, rfl⟩)) hreq
  have hold := (getElem?_snoc_iff.mp htake).resolve_right fun h => by omega
  exact hno (List.mem_of_getElem? hold)

/-- A step that leaves the slot and is neither a call nor a take. -/
theorem Answering.wait_on (slot : s.arp.pendingReply = ⟨true, mac, ip⟩) (untaken : ArpLabel.take ∉ es)
    (called : ArpLabel.poll ∈ es → BeforeTake s.pc)
    (hslot : s'.arp.pendingReply = s.arp.pendingReply) (htake : e ≠ .take) (hpoll : e ≠ .poll)
    (hfound : ∀ saved, s'.pc ≠ .skip saved) (hpc : BeforeTake s.pc → BeforeTake s'.pc) :
    Answering mac ip (es ++ [e]) s' := by
  refine .waiting (hslot.trans slot) ?_ hfound fun h => hpc (called ?_)
  · simp [untaken, htake.symm]
  · simpa [hpoll.symm] using h

/-- **One step** of the handler or of `arp_poll`. -/
theorem answering_step (hm : Mailbox tr s) (hready : s.txReady = true)
    (hb : NoneBetween (es ++ [e])) (h : Answering mac ip es s) (hstep : ArpStep s e s') :
    Answering mac ip (es ++ [e]) s' := by
  have hpc := hm.pc
  cases h with
  | sent took reply => exact .sent (List.mem_append_left _ took) (List.mem_append_left _ reply)
  | taken took reply =>
      have took' : ArpLabel.take ∈ es ++ [e] := List.mem_append_left _ took
      unfold HoldsReply at reply
      cases hstep with
      | receive _ => exact .taken took' reply
      | complete _ => exact .taken took' reply
      | restore hp =>
          rw [hp] at reply
          exact .taken took' reply
      | refuse _ hno => exact absurd (hready.symm.trans hno) (by decide)
      | fill hp _ =>
          rw [hp] at reply
          obtain ⟨rfl, rfl⟩ := reply
          exact .taken took' rfl
      | kick hp =>
          rw [hp] at reply
          exact .sent took' (by simp [show s.netTxBuf = replyFrame mac ip from reply])
      | poll _ hp | mask hp | empty hp _ | skip hp | found hp _ | copyMac hp | copyIp hp | take hp
      | wait hp | «open» hp _ | close hp | finish hp _ | ret hp =>
          rw [hp] at reply
          exact reply.elim
  | waiting slot untaken found called =>
      cases hstep with
      | receive _ =>
          exact .wait_on slot untaken called (arpReceive_other (hb.last untaken)) (by simp) (by simp)
            found id
      | complete _ => exact .wait_on slot untaken called rfl (by simp) (by simp) found id
      | poll sie _ =>
          exact .waiting slot (by simp [untaken]) (by simp) fun _ => trivial
      | empty hp hno =>
          rw [slot] at hno
          cases hno
      | skip hp => exact absurd hp (found _)
      | take hp =>
          rw [hp] at hpc
          obtain ⟨_, _, hmac, hip⟩ := hpc
          rw [slot] at hmac hip
          exact .taken (by simp) ⟨hmac.symm, hip.symm⟩
      | mask _ | found _ _ | copyMac _ | copyIp _ =>
          exact .wait_on slot untaken called rfl (by simp) (by simp) (by simp) fun _ => trivial
      | restore hp | refuse hp _ | fill hp _ | kick hp | wait hp | «open» hp _ | close hp
      | finish hp _ | ret hp =>
          refine .wait_on slot untaken called rfl (by simp) (by simp) (by simp) fun h => ?_
          rw [hp] at h
          exact h.elim

/-- A request that was just received is pending, and `arp_poll` is not about to skip it. -/
theorem answering_request (hm : Mailbox tr s) (hreq : IsRequest (.receive frame n))
    (hstep : ArpStep s (.receive frame n) s') :
    Answering (readMac frame senderMacAt) (readIpv4 frame senderIpAt) [] s' := by
  have hpc := hm.pc
  cases hstep with
  | receive ho =>
      refine .waiting (arpReceive_request hreq) List.not_mem_nil (fun saved hp => ?_) (by simp)
      have hp : s.pc = .skip saved := hp
      rcases ho with ho | ho
      · rw [hp] at ho
        cases ho
      · rw [hp] at hpc
        exact absurd (ho.symm.trans hpc) (by decide)

/-- **Every run** after the request. -/
theorem answering_run (hr : Run ArpStart ArpStep (tr ++ .receive frame n :: es) s)
    (hreq : IsRequest (.receive frame n)) (hready : s.txReady = true) (hb : NoneBetween es) :
    Answering (readMac frame senderMacAt) (readIpv4 frame senderIpAt) es s := by
  refine hr.invariant_after (P := fun es s => s.txReady = true → NoneBetween es →
    Answering (readMac frame senderMacAt) (readIpv4 frame senderIpAt) es s) ?_ ?_ hready hb
  · intro s₀ s₁ hr₀ hs _ _
    exact answering_request (mailbox_run hr₀) hreq hs
  · intro es s₀ e s₁ hr₀ ih hs hready hb
    have hready₀ : s₀.txReady = true := (txReady_step hs).symm.trans hready
    exact answering_step (mailbox_run hr₀) hready₀ hb (ih hready₀ hb.init) hs

/-! ## What the cache says -/

/-- The cache is only changed by packets. -/
theorem cache_step (hstep : ArpStep s e s') : (framesOf [e] = [] ∧ s'.arp.cache = s.arp.cache)
    ∨ ∃ frame n, e = .receive frame n ∧ s'.arp = arpReceive s.arp frame n := by
  cases hstep with
  | @receive frame n _ => exact Or.inr ⟨frame, n, rfl, rfl⟩
  | complete _ | poll _ _ | mask _ | empty _ _ | skip _ | found _ _ | copyMac _ | copyIp _ | take _
  | restore _ | refuse _ _ | fill _ _ | kick _ | wait _ | «open» _ _ | close _ | finish _ _ | ret _ =>
      exact Or.inl ⟨rfl, rfl⟩

theorem Cached.congr {a a' : Arp} {h : List (Nat × Mac)} (hc : Cached a h)
    (he : a'.cache = a.cache) : Cached a' h :=
  ⟨he ▸ hc.oneEach, he ▸ hc.upToDate, he ▸ hc.last⟩

/-- **The cache** is what the packets received have made of it. -/
theorem cache_run (hr : Run ArpStart ArpStep tr s) : s.arp.cache = cacheAfter tr := by
  refine hr.invariant_trace (P := fun tr s => s.arp.cache = cacheAfter tr) (fun s h => ?_)
    fun tr s e s' _ ih hs => ?_
  · rw [h.1]
    rfl
  · have hframes : framesOf (tr ++ [e]) = framesOf tr ++ framesOf [e] := List.filterMap_append
    unfold cacheAfter arpRun
    rw [hframes, List.foldl_append]
    rcases cache_step hs with ⟨hnone, he⟩ | ⟨frame, n, rfl, he⟩
    · rw [he, ih, hnone]
      rfl
    · rw [he]
      exact arpReceive_cache_congr ih frame n

theorem cached_arpRun (hr : Run ArpStart ArpStep tr s) : Cached s.arp (accepted (framesOf tr)) :=
  (cached_run (framesOf tr)).congr (cache_run hr)

/-- An accepted packet binds its sender. -/
theorem lookup_sender {a : Arp} {h : List (Nat × Mac)} (hc : Cached a h)
    (ha : arpAccepts frame n = true) :
    arpLookup (arpReceive a frame n).cache (readIpv4 frame senderIpAt)
      = some (readMac frame senderMacAt) :=
  (cached_step hc (frame, n)).last _ _ (by simp [sender, ha])

/-- What a packet received at the end of a run does to a binding. -/
theorem lookup_last (hr : Run ArpStart ArpStep tr s) (hs : ArpStep s (.receive frame n) s')
    (ha : arpAccepts frame n = true) (hl : arpLookup s.arp.cache ip = some mac) :
    arpLookup s'.arp.cache ip = some mac ↔ Keeps (cacheAfter tr) mac ip frame := by
  rw [← cache_run hr]
  cases hs with
  | receive _ => exact lookup_kept_iff (cached_arpRun hr) ha hl

theorem Undisturbed.init {before : List ArpLabel} (h : Undisturbed mac ip before (es ++ [e])) :
    Undisturbed mac ip before es := by
  intro es₁ frame n es₂ he
  refine h es₁ frame n (es₂ ++ [e]) ?_
  rw [he, List.append_assoc, List.cons_append]

/-- The sender of a packet is found as long as no packet disturbs that. -/
theorem lookup_run (hr : Run ArpStart ArpStep (tr ++ .receive frame n :: es) s)
    (ha : arpAccepts frame n = true) (hip : readIpv4 frame senderIpAt = ip)
    (hmac : readMac frame senderMacAt = mac) (hq : Undisturbed mac ip (tr ++ [.receive frame n]) es) :
    arpLookup s.arp.cache ip = some mac := by
  refine hr.invariant_after (P := fun es s =>
    Undisturbed mac ip (tr ++ [ArpLabel.receive frame n]) es → arpLookup s.arp.cache ip = some mac)
    ?_ ?_ hq
  · intro s₀ s₁ hr₀ hs _
    rw [← hip, ← hmac]
    cases hs with
    | receive _ => exact lookup_sender (cached_arpRun hr₀) ha
  · intro es s₀ e s₁ hr₀ ih hs hq
    have hl := ih hq.init
    rcases cache_step hs with ⟨_, he⟩ | ⟨f, k, rfl, he⟩
    · rw [he]
      exact hl
    · by_cases hacc : arpAccepts f k = true
      · have hkeeps := hq es f k [] rfl hacc
        rw [List.append_assoc, List.singleton_append] at hkeeps
        exact (lookup_last hr₀ hs hacc hl).mpr hkeeps
      · rw [he]
        unfold arpReceive
        rw [if_neg hacc]
        exact hl

/-- The first packet that does not keep it makes a difference. -/
theorem lookup_disturbed {f : Bytes} {k : Nat}
    (hr : Run ArpStart ArpStep (tr ++ .receive frame n :: (es ++ [.receive f k])) s)
    (ha : arpAccepts frame n = true)
    (hq : Undisturbed (readMac frame senderMacAt) (readIpv4 frame senderIpAt)
      (tr ++ [.receive frame n]) es) (hacc : arpAccepts f k = true)
    (hno : ¬ Keeps (cacheAfter (tr ++ .receive frame n :: es)) (readMac frame senderMacAt)
      (readIpv4 frame senderIpAt) f) :
    arpLookup s.arp.cache (readIpv4 frame senderIpAt) ≠ some (readMac frame senderMacAt) := by
  rw [← List.cons_append, ← List.append_assoc] at hr
  obtain ⟨s₀, hr₀, hs⟩ := hr.snoc_inv
  exact mt (lookup_last hr₀ hs hacc (lookup_run hr₀ ha rfl rfl hq)).mp hno

/-! ## The call -/

/-- `arp_poll` takes the slot, sends and waits, and the transmission completes. -/
def pollLabels (mac : Mac) (ip : Nat) : List ArpLabel :=
  [.poll, .move, .move, .move, .move, .take, .move, .move,
    .send (replyFrame mac ip) (frameLen sizeofArpPacket), .move, .move, .complete, .move, .move, .ret]

/-- With a reply pending, `arp_poll` can be carried through to its return. -/
theorem poll_run (hr : Run ArpStart ArpStep tr s) (hpc : s.pc = .idle) (hready : s.txReady = true)
    (hslot : s.arp.pendingReply = ⟨true, mac, ip⟩) :
    ∃ s', Run ArpStart ArpStep (tr ++ pollLabels mac ip) s' ∧ s'.pc = .idle
      ∧ s'.txReady = true ∧ s'.arp.cache = s.arp.cache := by
  obtain ⟨⟨cache, slot⟩, sie, ready, buf, done, pc⟩ := s
  obtain rfl : pc = .idle := hpc
  obtain rfl : ready = true := hready
  obtain rfl : slot = ⟨true, mac, ip⟩ := hslot
  have h1 := (hr.snoc (.poll true rfl)).snoc (.mask rfl)
  have h2 := (h1.snoc (.found rfl rfl)).snoc (.copyMac rfl)
  have h3 := ((h2.snoc (.copyIp rfl)).snoc (.take rfl)).snoc (.restore rfl)
  have h4 := ((h3.snoc (.fill rfl rfl)).snoc (.kick rfl)).snoc (.wait rfl)
  have h5 := (h4.snoc (.open rfl rfl)).snoc (.complete (Or.inr rfl))
  have h6 := ((h5.snoc (.close rfl)).snoc (.finish rfl rfl)).snoc (.ret rfl)
  simp only [List.append_assoc, List.cons_append, List.nil_append] at h6
  exact ⟨_, h6, rfl, rfl, rfl⟩

theorem pollLabels_quiet (mac : Mac) (ip : Nat) :
    ∀ frame n, ArpLabel.receive frame n ∉ pollLabels mac ip := by
  intro frame n h
  simp [pollLabels] at h

theorem pollLabels_no_request (h : e ∈ pollLabels mac ip) : ¬ IsRequest e := by
  intro hreq
  cases e with
  | receive frame n => exact pollLabels_quiet mac ip frame n h
  | complete | poll | take | send | ret | move => exact hreq.elim

end

/--
**There and back.** What `arp_build_packet` and `virtio_net_send_ethernet` make of any operation,
target and destination is a frame of 60 bytes that passes the checks of `arp_receive`, and the
fields read from it are the ones given, with the local addresses for the sender.

And for a request for the local address, from sender `m` and `ip`, received in any run: if no
request is received before `arp_poll` takes the slot, then once `arp_poll` has been called and has
returned, it has sent a frame that decodes as a reply to `m`, with the local addresses for the
sender and with `m` and `ip` for the target. As long as every packet accepted since is from that sender
or takes another slot than that of `ip`, `arp_lookup` finds `m` for `ip`, and the first packet accepted
for which this is not so changes what it finds. And if `arp_poll` has not taken the slot yet, it can be
called and carried through.
-/
theorem arp_codec :
    (∀ (t : NetTx) (operation : Nat) (targetMac dst : Mac) (targetIp : Nat), t.ready = true →
      operation < 2 ^ 16 → targetIp < 2 ^ 32 →
      ∃ t', virtioNetSendEthernet t dst arpEthertype (arpBuildPacket operation targetMac targetIp)
          sizeofArpPacket = ((sizeofArpPacket : Int), t')
        ∧ t'.netPendingTxLen = 60
        ∧ Decodes t'.netTxBuf 60 dst operation netMac ipv4LocalAddress targetMac targetIp)
    ∧ ∀ tr frame n es s, Run ArpStart ArpStep (tr ++ .receive frame n :: es) s →
      IsRequest (.receive frame n) → s.txReady = true → NoneBetween es →
      (ArpLabel.poll ∈ es → s.pc = .idle → ∃ reply, .send reply 60 ∈ es
        ∧ Decodes reply 60 (readMac frame senderMacAt) arpOperationReply netMac ipv4LocalAddress
          (readMac frame senderMacAt) (readIpv4 frame senderIpAt))
      ∧ (Undisturbed (readMac frame senderMacAt) (readIpv4 frame senderIpAt)
          (tr ++ [.receive frame n]) es →
        arpLookup s.arp.cache (readIpv4 frame senderIpAt) = some (readMac frame senderMacAt))
      ∧ (∀ es₁ f k, es = es₁ ++ [.receive f k] →
        Undisturbed (readMac frame senderMacAt) (readIpv4 frame senderIpAt)
          (tr ++ [.receive frame n]) es₁ → arpAccepts f k = true →
        ¬ Keeps (cacheAfter (tr ++ .receive frame n :: es₁)) (readMac frame senderMacAt)
          (readIpv4 frame senderIpAt) f →
        arpLookup s.arp.cache (readIpv4 frame senderIpAt) ≠ some (readMac frame senderMacAt))
      ∧ (ArpLabel.take ∉ es → s.pc = .idle →
        ∃ s', Run ArpStart ArpStep (tr ++ .receive frame n :: (es ++
            pollLabels (readMac frame senderMacAt) (readIpv4 frame senderIpAt))) s'
          ∧ s'.pc = .idle) := by
  refine ⟨fun t operation targetMac dst targetIp hready hop hip => ?_,
    fun tr frame n es s hr hreq hready hb => ⟨fun hpoll hpc => ?_, lookup_run hr hreq.1 rfl rfl, ?_, ?_⟩⟩
  · rw [sendEthernet_ok hready (by decide)]
    exact ⟨_, rfl, rfl, arpBuildPacket_decodes hop hip⟩
  · cases answering_run hr hreq hready hb with
    | waiting _ _ _ called =>
        have hbefore := called hpoll
        rw [hpc] at hbefore
        exact hbefore.elim
    | taken _ reply =>
        unfold HoldsReply at reply
        rw [hpc] at reply
        exact reply.elim
    | sent _ reply =>
        exact ⟨_, reply, arpBuildPacket_decodes (by decide) (readIpv4_lt ..)⟩
  · rintro es₁ f k rfl hq hacc hno
    exact lookup_disturbed hr hreq.1 hq hacc hno
  · intro hno hpc
    cases answering_run hr hreq hready hb with
    | waiting slot _ _ _ =>
        obtain ⟨s', hr', hpc', _⟩ := poll_run hr hpc hready slot
        rw [List.append_assoc, List.cons_append] at hr'
        exact ⟨s', hr', hpc'⟩
    | taken took _ => exact absurd took hno
    | sent took _ => exact absurd took hno

theorem requestFrom_one : readMac (requestFrom 1) senderMacAt = (fun _ => 1)
    ∧ readIpv4 (requestFrom 1) senderIpAt = 1 := by
  have hbyte : ∀ i, readMac (requestFrom 1) senderMacAt i = 1 := by decide
  exact ⟨funext hbyte, by decide⟩

/-- The request of 1 is received, before `arp_poll` is called. -/
theorem request_received : ∃ s, Run ArpStart ArpStep [.receive (requestFrom 1) 60] s
    ∧ s.pc = .idle ∧ s.txReady = true ∧ s.arp.pendingReply = ⟨true, fun _ => 1, 1⟩ := by
  have h0 : Run ArpStart ArpStep [] ⟨arpInit, true, true, fun _ => 0, false, .idle⟩ :=
    .start ⟨rfl, rfl⟩
  refine ⟨_, h0.snoc (@ArpStep.receive _ (requestFrom 1) 60 (Or.inl rfl)), rfl, rfl, ?_⟩
  obtain ⟨hmac, hip⟩ := requestFrom_one
  refine (arpReceive_request (isRequest_requestFrom 1 (by decide))).trans ?_
  rw [hmac, hip]

/-- A packet from address `ip` that is not a request, sent by another device than `requestFrom`'s. -/
def replyFrom (ip : Nat) : Bytes :=
  let packet := arpBuildPacket arpOperationReply netMac ipv4LocalAddress
  ethernetFrame netMac arpEthertype (writeIpv4 (writeMac packet 8 fun _ => 5) 14 ip) sizeofArpPacket

/-- The request of 1 is received, then a packet that is not a request, and `arp_poll` is called. -/
theorem replied_run {ip : Nat} (hacc : arpAccepts (replyFrom ip) 60 = true)
    (hop : readBe16 (replyFrom ip) operationAt = 2) : ∃ s, Run ArpStart ArpStep
      (.receive (requestFrom 1) 60 :: .receive (replyFrom ip) 60 :: pollLabels (fun _ => 1) 1) s
    ∧ s.pc = .idle ∧ s.txReady = true
    ∧ (∀ e, e ∈ .receive (replyFrom ip) 60 :: pollLabels (fun _ => 1) 1 → ¬ IsRequest e)
    ∧ arpLookup s.arp.cache (readIpv4 (replyFrom ip) senderIpAt)
      = some (readMac (replyFrom ip) senderMacAt) := by
  have hother : ¬ IsRequest (.receive (replyFrom ip) 60) := fun h => by
    rw [IsRequest, hop] at h
    exact absurd h.2.1 (by decide)
  obtain ⟨s₁, h1, hpc₁, hready₁, hslot⟩ := request_received
  have h2 := h1.snoc (@ArpStep.receive _ (replyFrom ip) 60 (Or.inl hpc₁))
  obtain ⟨s, hr, hpc, hready, hcache⟩ :=
    poll_run h2 hpc₁ hready₁ ((arpReceive_other hother).trans hslot)
  refine ⟨s, hr, hpc, hready, fun e he => ?_, ?_⟩
  · rcases List.mem_cons.mp he with rfl | he
    · exact hother
    · exact pollLabels_no_request he
  · rw [hcache]
    exact lookup_sender (cached_arpRun h1) hacc

/-- A packet from 2 is received between the request of 1 and the call of `arp_poll`. -/
theorem arp_codec_request : ∃ s es, Run ArpStart ArpStep
      (.receive (requestFrom 1) 60 :: .receive (replyFrom 2) 60 :: es) s
    ∧ (∃ reply, .send reply 60 ∈ es
      ∧ Decodes reply 60 (fun _ => 1) arpOperationReply netMac ipv4LocalAddress (fun _ => 1) 1)
    ∧ arpLookup s.arp.cache 1 = some fun _ => 1 := by
  obtain ⟨hmac, hip⟩ := requestFrom_one
  obtain ⟨s, hr, hpc, hready, hquiet, _⟩ := @replied_run 2 (by decide) (by decide)
  obtain ⟨hsend, hlook, _⟩ := arp_codec.2 [] _ _ _ s hr (isRequest_requestFrom 1 (by decide)) hready
    fun i e he hreq => absurd hreq (hquiet e (List.mem_of_getElem? he))
  rw [hmac, hip] at hsend hlook
  obtain ⟨reply, hmem, hd⟩ := hsend (by simp [pollLabels]) hpc
  refine ⟨s, _, hr, ⟨reply, by simpa using hmem, hd⟩, hlook fun es₁ frame n es₂ he _ => ?_⟩
  cases es₁ with
  | nil =>
      injection he with hfirst _
      injection hfirst with hframe _
      subst hframe
      -- there is room for 2
      unfold Keeps
      rw [if_neg (by decide)]
      exact fun h => absurd (h.2.1 1 (by decide)) (by decide)
  | cons x xs =>
      injection he with _ hrest
      refine absurd ?_ (pollLabels_quiet (fun _ => 1) 1 frame n)
      rw [hrest]
      exact List.mem_append_right xs List.mem_cons_self

/--
Without a request in between, `arp_lookup` may still find another address than that of the request:
a reply from the same address, sent by another device, is received before `arp_poll` is called.
-/
theorem arp_lookup_moved : ¬ ∀ tr frame n es s,
    Run ArpStart ArpStep (tr ++ .receive frame n :: es) s → IsRequest (.receive frame n) →
    s.txReady = true → (∀ e, e ∈ es → ¬ IsRequest e) → ArpLabel.poll ∈ es → s.pc = .idle →
    arpLookup s.arp.cache (readIpv4 frame senderIpAt) = some (readMac frame senderMacAt) := by
  intro hall
  obtain ⟨hmac, hip⟩ := requestFrom_one
  have hip' : readIpv4 (replyFrom 1) senderIpAt = 1 := by decide
  have hmac' : readMac (replyFrom 1) senderMacAt 0 = 5 := by decide
  obtain ⟨s, hr, hpc, hready, hquiet, hlast⟩ := @replied_run 1 (by decide) (by decide)
  have hfound := hall [] (requestFrom 1) 60 _ s hr (isRequest_requestFrom 1 (by decide)) hready hquiet
    (by simp [pollLabels]) hpc
  rw [hip'] at hlast
  rw [hip, hlast, hmac] at hfound
  have hbyte := congrFun (Option.some.inj hfound) 0
  rw [hmac'] at hbyte
  exact absurd hbyte (by decide)

end Os1000.Proof
