import Os1000.Proof.Frames
import Os1000.Proof.Ipv4Receive

/-!
# The host is an endpoint

The network code refines the endpoint of `Spec/Endpoint.lean`: step by step, with frames
that say the messages, and whatever arrives while a call waits. The cache of eight slots is
a map that may lose an entry when a ninth comes; among at most eight it is a map.

The counters are not part of that, and are balanced against the trace.
-/

namespace Os1000.Proof

open Os1000 Lib

/-- What the call that is being made will return. -/
def resultOf : HostPc → Option Int
  | .idle => none
  | .waiting after => some after.ret
  | .leaving after => some after.ret

/-- The host knows what the endpoint knows. -/
structure HostRel (h : Host) (e : Endpoint) : Prop where
  ready : h.tx.ready = true
  oneEach : OneEach (slots h.rx.arp.cache) arpCacheSize
  bindings : ∀ ip, arpLookup h.rx.arp.cache ip = e.bindings ip
  asked : e.asked = if h.rx.arp.pendingReply.pending
    then some (h.rx.arp.pendingReply.targetMac, h.rx.arp.pendingReply.targetIp) else none
  askedIp : h.rx.arp.pendingReply.targetIp < 2 ^ 32
  packets : h.nextIdentification = (e.packets + 1) % 2 ^ 16
  result : e.result = resultOf h.pc

/-- What a step of the host is to the endpoint. -/
inductive Shows : HostLabel → EndpointLabel → Prop where
  | hear {frame : Bytes} {packetLen ip : Nat} {mac : Mac} {asks : Bool} :
      heardIn frame packetLen = some (ip, mac, asks) →
      Shows (.receive frame packetLen) (.hear ip mac asks)
  | ignore {frame : Bytes} {packetLen : Nat} : heardIn frame packetLen = none →
      Shows (.receive frame packetLen) .ignore
  | call {c : HostCall} {sent : List SentFrame} {messages : List Message} :
      List.Forall₂ Encodes sent messages → Shows (.call c sent) (.call c messages)
  | ret {ret : Int} : Shows (.ret ret) (.ret ret)

/-! ## Hearing -/

section

variable {a : Arp} {b : Nat → Option Mac} {frame : Bytes} {n : Nat}

theorem lookup_of_cached {cache : ArpCache} {x : Nat} (ho : OneEach (slots cache) arpCacheSize)
    (hx : x ∈ cachedIps cache) : arpLookup cache x ≠ none := by
  unfold cachedIps at hx
  obtain ⟨j, hj, hip⟩ := Finset.mem_image.mp hx
  obtain ⟨hj, hv⟩ := Finset.mem_filter.mp hj
  have hslot : slots cache j = some (x, (cache j).mac) := by
    unfold slots
    rw [if_pos hv, hip]
  rw [arpLookup_eq, ho.valueOf_eq (Finset.mem_range.mp hj) hslot]
  exact Option.some_ne_none _

/-- A full cache has eight addresses in it. -/
theorem card_cachedIps {cache : ArpCache} (ho : OneEach (slots cache) arpCacheSize)
    (hfull : ∀ j, j < arpCacheSize → (cache j).valid) : (cachedIps cache).card = arpCacheSize := by
  refine Nat.le_antisymm ?_ (Nat.le_of_not_lt fun h => not_all_valid ho h hfull)
  have h1 := Finset.card_image_le (s := (Finset.range arpCacheSize).filter fun i => (cache i).valid)
    (f := fun i => (cache i).ip)
  have h2 := Finset.card_filter_le (Finset.range arpCacheSize) fun i => (cache i).valid
  rw [Finset.card_range] at h2
  exact Nat.le_trans h1 h2

/-- **An accepted packet is heard.** The slot its sender gets is its own, or free, or that of
another while all eight are taken. -/
theorem arpReceive_hears (ho : OneEach (slots a.cache) arpCacheSize)
    (hb : ∀ x, arpLookup a.cache x = b x) (ha : arpAccepts frame n = true) :
    ∃ b', Hears b (readIpv4 frame senderIpAt) (readMac frame senderMacAt) b'
      ∧ OneEach (slots (arpReceive a frame n).cache) arpCacheSize
      ∧ ∀ x, arpLookup (arpReceive a frame n).cache x = b' x := by
  obtain ⟨ip, hip⟩ : ∃ ip, ip = readIpv4 frame senderIpAt := ⟨_, rfl⟩
  obtain ⟨mac, hmac⟩ : ∃ mac, mac = readMac frame senderMacAt := ⟨_, rfl⟩
  obtain ⟨i, hi, hs, hwhy⟩ := arpCacheUpdate_spec ho ip mac
  have hcache : (arpReceive a frame n).cache = arpCacheUpdate a.cache ip mac := by
    rw [hip, hmac]
    exact arpReceive_cache ha
  rw [← hip, ← hmac, hcache]
  have hself : arpLookup (arpCacheUpdate a.cache ip mac) ip = some mac := by
    rw [arpLookup_eq, hs]
    exact ho.valueOf_put hi
  have hother : ∀ x, x ≠ ip → arpLookup (arpCacheUpdate a.cache ip mac) x
      = if Holding (slots a.cache) x i then none else b x := by
    intro x hx
    rw [← hb, arpLookup_eq, arpLookup_eq, hs]
    exact ho.valueOf_put_other hi hx
  have hput : OneEach (slots (arpCacheUpdate a.cache ip mac)) arpCacheSize := by
    rw [hs]
    exact ho.put hi
  -- when the slot holds nobody else, nobody is lost
  have hlearn : (∀ x, x ≠ ip → ¬ Holding (slots a.cache) x i) →
      ∀ x, arpLookup (arpCacheUpdate a.cache ip mac) x = Function.update b ip (some mac) x := by
    intro hno x
    by_cases hx : x = ip
    · rw [hx, hself, Function.update_self]
    · rw [hother x hx, if_neg (hno x hx), Function.update_of_ne hx]
  rcases hwhy with hold | hfree | ⟨_, habs, hfull⟩
  · refine ⟨_, .learn, hput, hlearn fun x hx h => hx ?_⟩
    exact (holding_slots.mp h).2.symm.trans (holding_slots.mp hold).2
  · refine ⟨_, .learn, hput, hlearn fun x _ h => ?_⟩
    unfold Holding at h
    rw [hfree] at h
    cases h
  · have hnew : b ip = none := (hb ip).symm.trans habs
    have hknown : ∀ x ∈ cachedIps a.cache, b x ≠ none := by
      intro x hx
      rw [← hb]
      exact lookup_of_cached ho hx
    refine ⟨_, .forget (a.cache i).ip (cachedIps a.cache) (card_cachedIps ho hfull) hknown hnew,
      hput, fun x => ?_⟩
    have hiff : Holding (slots a.cache) x i ↔ x = (a.cache i).ip := by
      rw [holding_slots]
      exact ⟨fun h => h.2.symm, fun h => ⟨hfull i hi.1, h.symm⟩⟩
    by_cases hx : x = ip
    · rw [hx, hself, Function.update_self]
    · rw [hother x hx, Function.update_of_ne hx]
      by_cases hold : x = (a.cache i).ip
      · rw [if_pos (hiff.mpr hold), hold, Function.update_self]
      · rw [if_neg fun h => hold (hiff.mp h), Function.update_of_ne hold]

/-- Whether an accepted packet asks for an answer. -/
theorem arpReceive_pending (ha : arpAccepts frame n = true) :
    (arpReceive a frame n).pendingReply
      = if readBe16 frame operationAt = arpOperationRequest
          ∧ readIpv4 frame targetIpAt = ipv4LocalAddress
        then ⟨true, readMac frame senderMacAt, readIpv4 frame senderIpAt⟩ else a.pendingReply := by
  unfold arpReceive
  rw [if_pos ha]
  dsimp only
  split <;> rfl

end

/-! ## The steps -/

section

variable {h h' : Host} {e : Endpoint} {tr : List HostLabel} {l : HostLabel}

/-- A received frame is heard, or is of no matter to the endpoint. -/
theorem HostRel.receive (hr : HostRel h e) {frame : Bytes} {packetLen : Nat} {rx : NetRx}
    (hrx : Received h.rx frame packetLen rx) :
    ∃ l' e', Shows (.receive frame packetLen) l' ∧ EndpointStep e l' e'
      ∧ HostRel { h with rx } e' := by
  cases hh : heardIn frame packetLen with
  | none =>
      refine ⟨.ignore, e, .ignore hh, .ignore, ?_⟩
      have harp : rx.arp = h.rx.arp := by
        rw [hrx.arp]
        split
        · rename_i ht
          unfold arpReceive
          rw [if_neg fun ha => ?_]
          unfold heardIn at hh
          rw [if_pos ⟨ht, ha⟩] at hh
          cases hh
        · rfl
      exact ⟨hr.ready, by rw [harp]; exact hr.oneEach, by rw [harp]; exact hr.bindings,
        by rw [harp]; exact hr.asked, by rw [harp]; exact hr.askedIp, hr.packets, hr.result⟩
  | some who =>
      obtain ⟨ip, mac, asks⟩ := who
      have hs := Shows.hear hh
      unfold heardIn at hh
      split at hh
      case isFalse => cases hh
      rename_i hacc
      obtain ⟨ht, ha⟩ := hacc
      rw [Option.some.injEq, Prod.mk.injEq, Prod.mk.injEq] at hh
      obtain ⟨rfl, rfl, hasks⟩ := hh
      have harp : rx.arp = arpReceive h.rx.arp frame (receivedLen packetLen) := by
        rw [hrx.arp, if_pos ht]
      obtain ⟨b, hb, hone, hlook⟩ := arpReceive_hears hr.oneEach hr.bindings ha
      refine ⟨_, _, hs, .hear hb, hr.ready, ?_, ?_, ?_, ?_, hr.packets, hr.result⟩
      · rw [harp]
        exact hone
      · rw [harp]
        exact hlook
      · rw [harp, arpReceive_pending ha]
        dsimp only
        by_cases hask : readBe16 frame operationAt = arpOperationRequest
            ∧ readIpv4 frame targetIpAt = ipv4LocalAddress
        · rw [← hasks, decide_eq_true hask, if_pos hask]
          rfl
        · rw [← hasks, decide_eq_false hask, if_neg hask]
          exact hr.asked
      · rw [harp, arpReceive_pending ha]
        split
        · exact readIpv4_lt ..
        · exact hr.askedIp

theorem transmit_ok (hready : h.tx.ready = true) {dst : Mac} {ethertype len : Nat} {payload : Bytes}
    {after : Int → AfterSend} (hlen : len ≤ ethMaxFrameSize - ethernetHeaderSize) :
    h.transmit dst ethertype payload len after
      = ({ h with
          tx := { h.tx with
            netTxBuf := ethernetFrame dst ethertype payload len
            desc := ⟨h.tx.netTxPaddr, sizeofVirtioNetHdr + frameLen len, 0, 0⟩
            netPendingTxLen := frameLen len }
          pc := .waiting (after len) },
        [(ethernetFrame dst ethertype payload len, frameLen len)]) := by
  unfold Host.transmit
  rw [sendEthernet_ok hready hlen]
  dsimp only
  rw [if_neg (by omega)]

/-- Changing what is sent and where the call is does not concern what is known. -/
theorem HostRel.moveTo (hr : HostRel h e) (tx : NetTx) (htx : tx.ready = h.tx.ready) (pc : HostPc) :
    HostRel { h with tx, pc } { e with result := resultOf pc } :=
  ⟨htx.trans hr.ready, hr.oneEach, hr.bindings, hr.asked, hr.askedIp, hr.packets, rfl⟩

/-- What a call sends and what it will return are the endpoint's. -/
structure SaysSame (h : Host) (e : Endpoint) (c : HostCall) (r : Host × List SentFrame) : Prop where
  encodes : List.Forall₂ Encodes r.2 (e.call c).2.1
  rel : HostRel r.1 { (e.call c).2.2 with result := some (e.call c).1 }

theorem SaysSame.refuse (hr : HostRel h e) {c : HostCall} {after : AfterSend}
    (hc : e.call c = (after.ret, [], e)) : SaysSame h e c (h.refuse after) := by
  refine ⟨?_, ?_⟩
  · rw [hc]
    exact .nil
  · rw [hc]
    exact hr.moveTo _ rfl (.leaving after)

theorem SaysSame.transmit (hr : HostRel h e) {c : HostCall} {dst : Mac} {ethertype len : Nat}
    {payload : Bytes} {after : Int → AfterSend} {m : Message} {e' : Endpoint}
    (hlen : len ≤ ethMaxFrameSize - ethernetHeaderSize)
    (hc : e'.call c = ((after len).ret, [m], e))
    (hm : Encodes (ethernetFrame dst ethertype payload len, frameLen len) m) {h₀ : Host} :
    SaysSame h₀ e' c (h.transmit dst ethertype payload len after) := by
  rw [transmit_ok hr.ready hlen]
  refine ⟨?_, ?_⟩
  · rw [hc]
    exact .cons hm .nil
  · rw [hc]
    exact hr.moveTo _ (by rfl) (.waiting (after len))

/-- **Every call** of the host is the same call of the endpoint. -/
theorem hostCall_agrees (hr : HostRel h e) {c : HostCall} (ht : c.Typed) :
    ∃ r, hostCall h c = .ok r ∧ SaysSame h e c r := by
  have hmax : ipv4MaxPacketSize = 1500 := rfl
  have hsize : ipv4HeaderMinSize = 20 := rfl
  have heth : ethernetHeaderSize = 14 := rfl
  have hframe : ethMaxFrameSize = 1514 := rfl
  have harp : sizeofArpPacket = 28 := rfl
  cases c with
  | ipv4Send dstIp protocol payload payloadLen =>
      unfold hostCall
      dsimp only
      by_cases hnull : payload.isNone ∧ 0 < payloadLen
      · rw [if_pos hnull]
        exact ⟨_, rfl, .refuse hr (if_pos (Or.inl hnull))⟩
      · rw [if_neg hnull]
        by_cases hlong : payloadLen > ipv4MaxPacketSize - ipv4HeaderMinSize
        · rw [if_pos hlong]
          exact ⟨_, rfl, .refuse hr (if_pos (Or.inr (by omega)))⟩
        · rw [if_neg hlong]
          have hgood : ¬ (payload.isNone ∧ 0 < payloadLen ∨ 1480 < payloadLen) := by
            rintro (h | h)
            · exact hnull h
            · omega
          have hres : (if dstIp = ipv4BroadcastAddress then some fun _ => 0xff
              else arpLookup h.rx.arp.cache dstIp) = e.resolve dstIp := by
            unfold Endpoint.resolve
            rw [hr.bindings]
          rw [hres]
          cases hmac : e.resolve dstIp with
          | none =>
              refine ⟨_, rfl, .transmit hr (by omega) ?_ (encodes_request ht.1)⟩
              unfold Endpoint.call
              dsimp only
              rw [if_neg hgood, hmac]
              rfl
          | some mac =>
              have hid : h.nextIdentification < 2 ^ 16 := by
                rw [hr.packets]
                exact Nat.mod_lt _ (by decide)
              obtain ⟨packet, hpacket, henc⟩ := encodes_packet hid ht.1 (Nat.le_of_not_lt hlong)
              have hnext : HostRel { h with nextIdentification := u16 (h.nextIdentification + 1) }
                  { e with packets := e.packets + 1 } := by
                refine ⟨hr.ready, hr.oneEach, hr.bindings, hr.asked, hr.askedIp, ?_, hr.result⟩
                show (h.nextIdentification + 1) % 2 ^ 16 = (e.packets + 1 + 1) % 2 ^ 16
                rw [hr.packets]
                omega
              dsimp only
              rw [hpacket, ok_bind]
              refine ⟨_, rfl, .transmit hnext (by omega) ?_ henc⟩
              unfold Endpoint.call
              dsimp only
              rw [if_neg hgood, hmac, if_neg (by omega), hr.packets]
              rfl
  | arpRequest targetIp => exact ⟨_, rfl, .transmit hr (by omega) rfl (encodes_request ht)⟩
  | arpPoll =>
      unfold hostCall
      dsimp only
      by_cases hp : h.rx.arp.pendingReply.pending = false
      · rw [if_pos hp]
        refine ⟨_, rfl, .refuse hr ?_⟩
        unfold Endpoint.call
        dsimp only
        rw [hr.asked, hp]
        rfl
      · rw [if_neg hp]
        rw [Bool.not_eq_false] at hp
        have htaken : HostRel { h with rx := { h.rx with arp := { h.rx.arp with
            pendingReply := { h.rx.arp.pendingReply with pending := false } } } }
            { e with asked := none } :=
          ⟨hr.ready, hr.oneEach, hr.bindings, rfl, hr.askedIp, hr.packets, hr.result⟩
        refine ⟨_, rfl, .transmit htaken (by omega) ?_ (encodes_reply hr.askedIp)⟩
        unfold Endpoint.call
        dsimp only
        rw [hr.asked, hp]
        rfl
  | sendPacket payload len =>
      unfold hostCall
      dsimp only
      by_cases hlen : len < 0 ∨ 1500 < len
      · have hsend : virtioNetSendEthernet h.tx (fun _ => 0xff) virtioNetTestEthertype payload len
            = (-1, h.tx) := by
          unfold virtioNetSendEthernet
          dsimp only
          rw [if_pos (Or.inr (by omega))]
        refine ⟨h.refuse (.plain (-1)), ?_, .refuse hr ?_⟩
        · unfold Host.transmit
          rw [hsend]
          rfl
        · exact if_pos hlen
      · lift len to Nat using by omega
        refine ⟨_, rfl, .transmit hr (by omega) ?_ encodes_raw⟩
        exact if_neg hlen

/-- **One step** of the host is a step of the endpoint. -/
theorem host_step (hr : HostRel h e) (hs : HostStep h l h') :
    ∃ l' e', Shows l l' ∧ EndpointStep e l' e' ∧ HostRel h' e' := by
  cases hs with
  | @receive frame packetLen rx _ hrx =>
      obtain ⟨rx', hrx', hspec⟩ := receiveBuffer_ok h.rx frame packetLen
      obtain rfl := Except.ok.inj (hrx.symm.trans hrx')
      exact hr.receive hspec
  | call hidle ht hc =>
      obtain ⟨r, hr', hag⟩ := hostCall_agrees hr ht
      obtain rfl := Except.ok.inj (hc.symm.trans hr')
      refine ⟨_, _, .call hag.encodes, .call ?_, hag.rel⟩
      rw [hr.result, hidle]
      rfl
  | @ret after hpc =>
      refine ⟨.ret after.ret, { e with result := none }, .ret, .ret ?_, ?_⟩
      · rw [hr.result]
        rcases hpc with hpc | hpc
        · rw [hpc]
          rfl
        · rw [hpc]
          rfl
      · exact ⟨hr.ready, hr.oneEach, hr.bindings, hr.asked, hr.askedIp, hr.packets, rfl⟩

theorem host_start (hs : HostStart h) : HostRel h Endpoint.init where
  ready := hs.ready
  oneEach := by
    rw [hs.arp]
    exact cached_init.oneEach
  bindings ip := by
    rw [hs.arp]
    simp [arpLookup, arpInit, Endpoint.init]
  asked := by
    rw [hs.arp]
    rfl
  askedIp := by
    rw [hs.arp]
    decide
  packets := by
    rw [hs.nextIdentification]
    rfl
  result := by
    rw [hs.pc]
    rfl

/-- **Every run** of the host is a run of the endpoint. -/
theorem host_run (hr : Run HostStart HostStep tr h) :
    ∃ tr' e, Run (· = Endpoint.init) EndpointStep tr' e ∧ List.Forall₂ Shows tr tr'
      ∧ HostRel h e := by
  induction hr with
  | start hs => exact ⟨[], _, .start rfl, .nil, host_start hs⟩
  | snoc _ hs ih =>
      obtain ⟨tr', e, hrun, hshow, hrel⟩ := ih
      obtain ⟨l', e', hl, hstep, hrel'⟩ := host_step hrel hs
      exact ⟨tr' ++ [l'], e', hrun.snoc hstep, List.rel_append hshow (.cons hl .nil), hrel'⟩

/-! ## `ipv4_send` in one piece -/

/-- A refused frame leaves the driver as it was. -/
theorem sendEthernet_refused {t : NetTx} {dst : Mac} {ethertype : Nat} {payload : Bytes} {len : Int}
    (hneg : (virtioNetSendEthernet t dst ethertype payload len).1 < 0) :
    (virtioNetSendEthernet t dst ethertype payload len).2 = t := by
  unfold virtioNetSendEthernet at hneg ⊢
  dsimp only at hneg ⊢
  split
  · rfl
  · rename_i hok
    rw [if_neg hok] at hneg
    exact absurd hneg (by dsimp only; omega)

/-- What `virtio_net_send_ethernet` leaves is what the call leaves when it waits. -/
theorem transmit_spec (h : Host) (dst : Mac) (ethertype : Nat) (payload : Bytes) (len : Int)
    (after : Int → AfterSend) :
    ∃ pc, (h.transmit dst ethertype payload len after).1
        = { h with tx := (virtioNetSendEthernet h.tx dst ethertype payload len).2, pc }
      ∧ (pc = .waiting (after (virtioNetSendEthernet h.tx dst ethertype payload len).1)
        ∨ pc = .leaving (after (virtioNetSendEthernet h.tx dst ethertype payload len).1)) := by
  unfold Host.transmit
  dsimp only
  split
  · rename_i hneg
    rw [sendEthernet_refused hneg]
    exact ⟨_, rfl, Or.inr rfl⟩
  · exact ⟨_, rfl, Or.inl rfl⟩

/-- **The call and its end are `ipv4_send`**, if nothing comes between them. -/
theorem hostCall_ipv4Send {dstIp payloadLen : Nat} {protocol : UInt8} {payload : Option Bytes}
    {sent : List SentFrame}
    (hc : hostCall h (.ipv4Send dstIp protocol payload payloadLen) = .ok (h', sent)) :
    ∃ after, (h'.pc = .waiting after ∨ h'.pc = .leaving after)
      ∧ ipv4Send h.stack dstIp protocol payload payloadLen
        = .ok (after.ret, (h'.finish after).stack) := by
  unfold hostCall at hc
  unfold ipv4Send
  dsimp only at hc ⊢
  split at hc
  · rename_i hnull
    rw [if_pos hnull]
    rw [Except.ok.injEq] at hc
    have hh : h' = (h.refuse (.dropped (-1))).1 := (congrArg Prod.fst hc).symm
    rw [hh]
    exact ⟨_, Or.inr rfl, rfl⟩
  rename_i hnull
  rw [if_neg hnull]
  split at hc
  · rename_i hlong
    rw [if_pos hlong]
    rw [Except.ok.injEq] at hc
    have hh : h' = (h.refuse (.dropped (-1))).1 := (congrArg Prod.fst hc).symm
    rw [hh]
    exact ⟨_, Or.inr rfl, rfl⟩
  rename_i hlong
  rw [if_neg hlong]
  obtain ⟨dstMac, hmac⟩ : ∃ m : Option Mac, m = (if dstIp = ipv4BroadcastAddress
    then some fun _ => 0xff else arpLookup h.rx.arp.cache dstIp) := ⟨_, rfl⟩
  have hmac' : dstMac = (if dstIp = ipv4BroadcastAddress
    then some fun _ => 0xff else arpLookup h.stack.arp.cache dstIp) := hmac
  rw [← hmac] at hc
  rw [← hmac']
  cases dstMac with
  | none =>
      rw [Except.ok.injEq] at hc
      have hh : h' = (h.askFor dstIp fun _ => .dropped (-2)).1 := (congrArg Prod.fst hc).symm
      obtain ⟨pc, heq, hpc⟩ := transmit_spec h (fun _ => 0xff) arpEthertype
        (arpBuildPacket arpOperationRequest (fun _ => 0) dstIp) sizeofArpPacket
        fun _ => .dropped (-2)
      rw [hh]
      unfold Host.askFor
      rw [heq]
      exact ⟨_, hpc, rfl⟩
  | some mac =>
      dsimp only at hc ⊢
      rw [bind_eq_ok] at hc
      obtain ⟨packet, hpacket, hc⟩ := hc
      rw [pure_eq_ok] at hc
      have hpacket' : ipv4Packet h.stack.nextIdentification dstIp protocol
          (payload.getD fun _ => 0) payloadLen = .ok packet := hpacket
      have hh := (congrArg Prod.fst hc).symm
      dsimp only at hh
      obtain ⟨pc, heq, hpc⟩ := transmit_spec
        { h with nextIdentification := u16 (h.nextIdentification + 1) } mac ipv4Ethertype packet
        (ipv4HeaderMinSize + payloadLen : Nat)
        fun sent => if sent < 0 then .dropped sent else .counted payloadLen
      rw [hpacket', ok_bind, hh, heq]
      refine ⟨_, hpc, ?_⟩
      by_cases hneg : (virtioNetSendEthernet h.tx mac ipv4Ethertype packet
          (ipv4HeaderMinSize + payloadLen : Nat)).1 < 0
      · rw [if_pos hneg]
        exact if_pos hneg
      · rw [if_neg hneg]
        exact if_neg hneg

/-! ## Whom the host knows -/

/-- Whom the host has heard from, oldest first. -/
def heardBy (tr : List HostLabel) : List (Nat × Mac) :=
  tr.filterMap fun
    | .receive frame packetLen => (heardIn frame packetLen).map fun who => (who.1, who.2.1)
    | _ => none

/-- Where a packet for `dstIp` has to go. -/
def whereTo (tr : List HostLabel) (dstIp : Nat) : Option Mac :=
  if dstIp = ipv4BroadcastAddress then some fun _ => 0xff else latest (heardBy tr) dstIp

theorem heardBy_eq {tr' : List EndpointLabel} (hs : List.Forall₂ Shows tr tr') :
    heardBy tr = heard tr' := by
  induction hs with
  | nil => rfl
  | cons hl _ ih =>
      unfold heardBy heard at ih ⊢
      rw [List.filterMap_cons, List.filterMap_cons, ih]
      cases hl with
      | hear hh =>
          dsimp only
          rw [hh, Option.map_some]
      | ignore hh =>
          dsimp only
          rw [hh, Option.map_none]
      | call _ => rfl
      | ret => rfl

/-- A call that is made returns what it will return. -/
theorem ret_step {r : Int} (hr : resultOf h.pc = some r) : ∃ h', HostStep h (.ret r) h' := by
  cases hpc : h.pc with
  | idle =>
      rw [hpc] at hr
      cases hr
  | waiting after =>
      rw [hpc] at hr
      obtain rfl : after.ret = r := Option.some.inj hr
      exact ⟨_, .ret (Or.inl hpc)⟩
  | leaving after =>
      rw [hpc] at hr
      obtain rfl : after.ret = r := Option.some.inj hr
      exact ⟨_, .ret (Or.inr hpc)⟩

end

/--
**The network code is an endpoint.** Whatever frames arrive, while a call waits and between
calls, every step of the host is a step of the endpoint: a call sends frames that say, field
by field and with nothing behind their payload, the messages the endpoint sends in that call,
and returns what the endpoint returns; the addresses found in the cache are those the endpoint
knows. No frame and no argument leads out of an array, so that a frame is taken in whenever
the handler runs and a call always goes through.
-/
theorem host_refines_endpoint {tr : List HostLabel} {h : Host}
    (hr : Run HostStart HostStep tr h) :
    (∃ tr' e, Run (· = Endpoint.init) EndpointStep tr' e ∧ List.Forall₂ Shows tr tr'
      ∧ (∀ ip, arpLookup h.rx.arp.cache ip = e.bindings ip) ∧ e.result = resultOf h.pc)
    ∧ (h.Open → ∀ frame packetLen, ∃ h', HostStep h (.receive frame packetLen) h')
    ∧ (h.pc = .idle → ∀ c, HostCall.Typed c → ∃ sent h', HostStep h (.call c sent) h')
    ∧ ∀ r, resultOf h.pc = some r → ∃ h', HostStep h (.ret r) h' := by
  obtain ⟨tr', e, hrun, hshow, hrel⟩ := host_run hr
  refine ⟨⟨tr', e, hrun, hshow, hrel.bindings, hrel.result⟩, ?_, ?_, fun r => ret_step⟩
  · intro ho frame packetLen
    obtain ⟨rx, hrx, _⟩ := receiveBuffer_ok h.rx frame packetLen
    exact ⟨_, .receive ho hrx⟩
  · intro hidle c ht
    obtain ⟨r, hc, _⟩ := hostCall_agrees hrel ht
    exact ⟨r.2, r.1, .call hidle ht hc⟩

/-- A host after the initialisation. -/
def sampleHost : Host where
  rx := ⟨0, 0, 0, ⟨fun _ => ⟨0, 0, fun _ => 0⟩, 0, 0, 0⟩, arpInit, ipv4Init, fun _ => 0, 0, 0⟩
  nextIdentification := 1
  tx := ⟨true, 0x80300000, fun _ => 0, ⟨0, 0, 0, 0⟩, 0⟩
  pc := .idle

theorem sampleHost_start : HostStart sampleHost := ⟨rfl, rfl, rfl, rfl, rfl, rfl, rfl⟩

/-- What a reply of the host's own says to it. -/
theorem heardIn_own : heardIn (replyFrame netMac ipv4LocalAddress) (sizeofVirtioNetHdr + 60)
    = some (ipv4LocalAddress, netMac, false) := by
  have hd : Decodes (replyFrame netMac ipv4LocalAddress) 60 netMac arpOperationReply netMac
      ipv4LocalAddress netMac ipv4LocalAddress := arpBuildPacket_decodes (by decide) (by decide)
  have htype : typeOf (replyFrame netMac ipv4LocalAddress) (sizeofVirtioNetHdr + 60)
      = some arpEthertype := (if_pos (by decide)).trans (congrArg some hd.ethertype)
  unfold heardIn
  rw [if_pos ⟨htype, hd.accepts⟩, hd.senderIp, hd.senderMac, hd.operation, hd.targetIp]
  rfl

/-- The host asks for its own address, and the reply arrives before the call returns. -/
theorem host_refines_endpoint_reply :
    ∃ tr sent r h tr' e, tr = [.call (.arpRequest ipv4LocalAddress) sent,
        .receive (replyFrame netMac ipv4LocalAddress) (sizeofVirtioNetHdr + 60), .ret r]
      ∧ Run HostStart HostStep tr h ∧ Run (· = Endpoint.init) EndpointStep tr' e
      ∧ List.Forall₂ Shows tr tr' ∧ e.bindings ipv4LocalAddress = some netMac ∧ e.result = none := by
  have hcall : HostStep sampleHost (.call (.arpRequest ipv4LocalAddress) _) _ :=
    .call rfl (by show ipv4LocalAddress < 2 ^ 32; decide) rfl
  have h1 := Run.snoc (.start sampleHost_start) hcall
  obtain ⟨rx, hrx, _⟩ := receiveBuffer_ok sampleHost.rx (replyFrame netMac ipv4LocalAddress)
    (sizeofVirtioNetHdr + 60)
  have h2 := h1.snoc (.receive (Or.inr ⟨_, rfl⟩) hrx)
  have h3 := h2.snoc (.ret (Or.inl rfl))
  obtain ⟨⟨tr', e, hrun, hshow, _, hresult⟩, _⟩ := host_refines_endpoint h3
  refine ⟨_, _, _, _, tr', e, rfl, h3, hrun, hshow, ?_, hresult⟩
  have hheard : heard tr' = [(ipv4LocalAddress, netMac)] := by
    rw [← heardBy_eq hshow]
    simp [heardBy, heardIn_own]
  rw [Endpoint.bindings_latest hrun (by rw [hheard]; decide), hheard]
  rfl

/--
**Among at most eight hosts** none is forgotten: a packet goes to the hardware address last
heard for its destination, with the next number, and `ipv4_send` returns its length; and if
nothing was heard, then a request for the address is broadcast instead, and `ipv4_send`
returns -2.
-/
theorem small_network_send {tr : List HostLabel} {h : Host} (hr : Run HostStart HostStep tr h)
    (dstIp : Nat) (protocol : UInt8) (payload : Option Bytes) (payloadLen : Nat)
    (hfew : ((heardBy tr).map Prod.fst).toFinset.card ≤ arpCacheSize) (hidle : h.pc = .idle)
    (hip : dstIp < 2 ^ 32) (hlen : payloadLen ≤ 1480) (hpayload : payload = none → payloadLen = 0) :
    ∃ f h', HostStep h (.call (.ipv4Send dstIp protocol payload payloadLen) [f]) h'
      ∧ (∀ mac, whereTo tr dstIp = some mac →
        Encodes f (.packet mac h.nextIdentification dstIp protocol
          (given (payload.getD fun _ => 0) payloadLen))
        ∧ h'.nextIdentification = (h.nextIdentification + 1) % 2 ^ 16
        ∧ ∃ h'', HostStep h' (.ret payloadLen) h'')
      ∧ (whereTo tr dstIp = none → Encodes f (.request dstIp)
        ∧ h'.nextIdentification = h.nextIdentification
        ∧ ∃ h'', HostStep h' (.ret (-2)) h'') := by
  obtain ⟨tr', e, hrun, hshow, hrel⟩ := host_run hr
  have ht : HostCall.Typed (.ipv4Send dstIp protocol payload payloadLen) := ⟨hip, by omega⟩
  obtain ⟨⟨h', sent⟩, hc, henc, hrel'⟩ := hostCall_agrees hrel ht
  have hwhere : e.resolve dstIp = whereTo tr dstIp := by
    unfold Endpoint.resolve whereTo
    rw [heardBy_eq hshow] at hfew ⊢
    rw [Endpoint.bindings_latest hrun hfew]
  have hgood : ¬ (payload.isNone ∧ 0 < payloadLen ∨ 1480 < payloadLen) := by
    rintro (⟨hn, hpos⟩ | h)
    · rw [hpayload (Option.isNone_iff_eq_none.mp hn)] at hpos
      omega
    · omega
  cases hto : whereTo tr dstIp with
  | none =>
      have hcall : e.call (.ipv4Send dstIp protocol payload payloadLen)
          = (-2, [.request dstIp], e) := by
        unfold Endpoint.call
        dsimp only
        rw [if_neg hgood, hwhere, hto]
      rw [hcall] at henc hrel'
      obtain ⟨f, _, hf, hnil, rfl⟩ := List.forall₂_cons_right_iff.mp henc
      obtain rfl := List.forall₂_nil_right_iff.mp hnil
      refine ⟨f, h', .call hidle ht hc, nofun, fun _ => ⟨hf, ?_, ret_step hrel'.result.symm⟩⟩
      rw [hrel'.packets, hrel.packets]
  | some mac =>
      have hcall : e.call (.ipv4Send dstIp protocol payload payloadLen)
          = ((payloadLen : Int), [.packet mac ((e.packets + 1) % 2 ^ 16) dstIp protocol
              (given (payload.getD fun _ => 0) payloadLen)],
            { e with packets := e.packets + 1 }) := by
        unfold Endpoint.call
        dsimp only
        rw [if_neg hgood, hwhere, hto]
      rw [hcall] at henc hrel'
      obtain ⟨f, _, hf, hnil, rfl⟩ := List.forall₂_cons_right_iff.mp henc
      obtain rfl := List.forall₂_nil_right_iff.mp hnil
      refine ⟨f, h', .call hidle ht hc, fun m hm => ⟨?_, ?_, ret_step hrel'.result.symm⟩, nofun⟩
      · rw [hrel.packets, ← Option.some.inj hm]
        exact hf
      · rw [hrel'.packets, hrel.packets]
        dsimp only
        omega

/-- A host has heard an ARP packet of its own, and sends itself five bytes of UDP. -/
theorem small_network_send_known :
    ∃ h f h', Run HostStart HostStep
        [.receive (replyFrame netMac ipv4LocalAddress) (sizeofVirtioNetHdr + 60)] h
      ∧ HostStep h (.call (.ipv4Send ipv4LocalAddress 17 (some fun _ => 7) 5) [f]) h'
      ∧ Encodes f (.packet netMac h.nextIdentification ipv4LocalAddress 17 (given (fun _ => 7) 5)) := by
  obtain ⟨rx, hrx, _⟩ := receiveBuffer_ok sampleHost.rx (replyFrame netMac ipv4LocalAddress)
    (sizeofVirtioNetHdr + 60)
  have hr := Run.snoc (.start sampleHost_start) (HostStep.receive (Or.inl rfl) hrx)
  have hby : heardBy [.receive (replyFrame netMac ipv4LocalAddress) (sizeofVirtioNetHdr + 60)]
      = [(ipv4LocalAddress, netMac)] := by
    unfold heardBy
    rw [List.filterMap_cons]
    dsimp only
    rw [heardIn_own]
    rfl
  obtain ⟨f, h', hs, hsome, _⟩ := small_network_send hr ipv4LocalAddress 17 (some fun _ => 7) 5
    (by rw [List.nil_append, hby]; decide) rfl (by decide) (by decide) nofun
  refine ⟨_, f, h', hr, hs, (hsome netMac ?_).1⟩
  unfold whereTo
  rw [List.nil_append, hby]
  rfl

end Os1000.Proof
