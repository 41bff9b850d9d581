import Os1000.Proof.Host
import Os1000.Proof.RxQueue
import Os1000.Virtio.Reception

/-!
# Every frame is handled, once and as it was delivered

Conservation of descriptors says that a buffer is never in two hands. Since the device writes
only to buffers that it holds, and the buffers lie side by side, a frame that was delivered
stays as it is until the driver has worked it off. So what was delivered is, at any time, what
was handled, followed by what is still in memory.
-/

namespace Os1000.Proof

open Os1000 Lib

/-- The frames that the device delivered, in order. -/
def delivered (tr : List ReceptionLabel) : List (Bytes × Nat) :=
  tr.filterMap fun
    | .deliver frame packetLen => some (frame, packetLen)
    | _ => none

/-- The frames that the driver handled, in order. -/
def handled (tr : List ReceptionLabel) : List (Bytes × Nat) :=
  tr.filterMap fun
    | .handle frame packetLen => some (frame, packetLen)
    | _ => none

/-- The frame that the driver has popped and not handled. -/
def inHand : RxPc → List VirtqUsedElem
  | .process e => [e]
  | _ => []

/-- The descriptors that were written at least once. -/
def WasSet (d : Nat) : RxPc → Prop
  | .init i => d < i
  | .initIndex i => d ≤ i
  | _ => True

/-- What a used element says, as the memory is now. -/
def frameIn (s : Reception) (e : VirtqUsedElem) : Bytes × Nat :=
  (rxFrame s.mem s.rx.netRxPaddr e.id, e.len)

/-- What holds of the queue and the memory, after the frames `del` and `han`. -/
structure ReceptionInv (del han : List (Bytes × Nat)) (completed popped : List VirtqUsedElem)
    (s : Reception) : Prop where
  queue : ∃ pushed taken, RxInv pushed taken completed popped s.rx
  descs : ∀ d, d < virtqEntryNum → WasSet d s.rx.pc →
    s.rx.queue.vq.descs d = bufDesc s.rx.netRxPaddr d
  /-- What was delivered was handled, or is in memory. -/
  frames : del = han ++ (inHand s.rx.pc ++ completed.drop popped.length).map (frameIn s)

section

variable {del han : List (Bytes × Nat)} {completed popped : List VirtqUsedElem} {s s' : Reception}
  {rx : Rx} {l : RxLabel}

/-! ## The descriptors -/

/-- The driver writes only what it always writes. -/
theorem descs_step (hd : ∀ d, d < virtqEntryNum → WasSet d s.rx.pc →
      s.rx.queue.vq.descs d = bufDesc s.rx.netRxPaddr d) (hs : RxStep s.rx l rx) :
    rx.netRxPaddr = s.rx.netRxPaddr ∧ ∀ d, d < virtqEntryNum → WasSet d rx.pc →
      rx.queue.vq.descs d = bufDesc rx.netRxPaddr d := by
  -- one descriptor is written, the others were
  have hput : ∀ i d, (d ≠ i → WasSet d s.rx.pc) → d < virtqEntryNum →
      (virtioNetEnqueueRing s.rx.queue.vq s.rx.netRxPaddr i).descs d
        = bufDesc s.rx.netRxPaddr d := by
    intro i d hset hlt
    show Function.update s.rx.queue.vq.descs i _ d = _
    by_cases h : d = i
    · rw [h, Function.update_self]
    · rw [Function.update_of_ne h]
      exact hd d hlt (hset h)
  cases hs with
  | @initRing i hpc _ =>
      refine ⟨rfl, fun d hlt hset => hput i d (fun hne => ?_) hlt⟩
      have hle : d ≤ i := hset
      rw [hpc]
      show d < i
      omega
  | @initIndex i hpc =>
      refine ⟨rfl, fun d hlt hset => hd d hlt ?_⟩
      have hle : d < i + 1 := hset
      rw [hpc]
      show d ≤ i
      omega
  | @initDone i hpc hi =>
      refine ⟨rfl, fun d hlt _ => hd d hlt ?_⟩
      rw [hpc]
      exact Nat.lt_of_lt_of_le hlt (Nat.le_of_not_lt hi)
  | @recycle e hpc =>
      refine ⟨rfl, fun d hlt _ => hput e.id d (fun _ => ?_) hlt⟩
      rw [hpc]
      trivial
  | enter hpc | more hpc _ | leave hpc _ | read hpc | consume hpc | frame hpc _ | short hpc _
  | index hpc =>
      refine ⟨rfl, fun d hlt _ => hd d hlt ?_⟩
      rw [hpc]
      trivial
  | @device ev q hdev =>
      refine ⟨rfl, fun d hlt hset => ?_⟩
      cases hdev with
      | take _ => exact hd d hlt hset
      | fill _ _ _ => exact hd d hlt hset
      | publish _ => exact hd d hlt hset

/-- A descriptor that the device holds is one of the sixteen, and was written. -/
theorem RxInv.held_set {pushed taken : List Nat} (h : RxInv pushed taken completed popped s.rx)
    {d : Nat} (hd : d ∈ s.rx.queue.dev.held) : d < virtqEntryNum ∧ WasSet d s.rx.pc := by
  have hone := h.once d
  have hpos := List.count_pos_iff.mpr hd
  have hlt : d < virtqEntryNum := by
    by_contra hge
    rw [if_neg hge] at hone
    omega
  rw [if_pos hlt] at hone
  have hnot : d ∉ inDriver s.rx.pc := fun hin => by
    have := List.count_pos_iff.mpr hin
    omega
  refine ⟨hlt, ?_⟩
  have hnum : netRxBufNum = virtqEntryNum := rfl
  cases hpc : s.rx.pc with
  | init i =>
      rw [hpc] at hnot
      show d < i
      by_contra hge
      exact hnot (List.mem_range'_1.mpr ⟨by omega, by omega⟩)
  | initIndex i =>
      rw [hpc] at hnot
      show d ≤ i
      by_contra hge
      exact hnot (List.mem_range'_1.mpr ⟨by omega, by omega⟩)
  | _ => trivial

/-- What was delivered and is not yet handled, the device does not hold. -/
theorem RxInv.pending_not_held {pushed taken : List Nat}
    (h : RxInv pushed taken completed popped s.rx) {e : VirtqUsedElem}
    (he : e ∈ inHand s.rx.pc ++ completed.drop popped.length) : e.id ∉ s.rx.queue.dev.held := by
  intro hheld
  have hone := h.once e.id
  have hpos := List.count_pos_iff.mpr hheld
  have hother : 0 < ((completed.drop popped.length).map VirtqUsedElem.id).count e.id
      + (inDriver s.rx.pc).count e.id := by
    rcases List.mem_append.mp he with hin | hin
    · have : e.id ∈ inDriver s.rx.pc := by
        cases hpc : s.rx.pc with
        | process e' =>
            rw [hpc] at hin
            rw [List.mem_singleton.mp hin]
            exact List.mem_singleton_self _
        | init _ | initIndex _ | idle | check | read | consume _ | recycle _ | index _ =>
            rw [hpc] at hin
            cases hin
      exact Nat.add_pos_right _ (List.count_pos_iff.mpr this)
    · exact Nat.add_pos_left (List.count_pos_iff.mpr (List.mem_map_of_mem hin)) _
  split at hone
  · omega
  · omega

/-! ## The frames -/

/-- A byte of one buffer is in no other. -/
theorem rxFrame_other {mem : Nat → UInt8} {base d i x : Nat} {b : UInt8}
    (hx : x < sizeofVirtioNetBuf) (hne : i ≠ d) :
    rxFrame (Function.update mem (base + d * sizeofVirtioNetBuf + x) b) base i
      = rxFrame mem base i := by
  have hsize : sizeofVirtioNetBuf = 1524 := rfl
  have hhdr : sizeofVirtioNetHdr = 10 := rfl
  have hmax : ethMaxFrameSize = 1514 := rfl
  funext y
  unfold rxFrame
  by_cases hy : y < ethMaxFrameSize
  · rw [if_pos hy, if_pos hy, Function.update_of_ne]
    -- the buffers are one after the other
    rcases Nat.lt_or_gt_of_ne hne with hlt | hgt
    · have : (i + 1) * sizeofVirtioNetBuf ≤ d * sizeofVirtioNetBuf :=
        Nat.mul_le_mul_right _ hlt
      rw [Nat.succ_mul] at this
      omega
    · have : (d + 1) * sizeofVirtioNetBuf ≤ i * sizeofVirtioNetBuf :=
        Nat.mul_le_mul_right _ hgt
      rw [Nat.succ_mul] at this
      omega
  · rw [if_neg hy, if_neg hy]

theorem frameIn_move (s : Reception) (hb : rx.netRxPaddr = s.rx.netRxPaddr) :
    frameIn { s with rx } = frameIn s := by
  funext e
  unfold frameIn
  rw [hb]

/-- A step in which nothing is delivered or handled. -/
theorem ReceptionInv.move (h : ReceptionInv del han completed popped s) (hs : RxStep s.rx l rx)
    (hno : ∀ e, l ≠ .complete e) (hstay : ∀ e, s.rx.pc = .process e → rx.pc = .process e) :
    ∃ popped', ReceptionInv del han completed popped' { s with rx } := by
  obtain ⟨pushed, taken, hq⟩ := h.queue
  obtain ⟨hbase, hdescs⟩ := descs_step h.descs hs
  have hq' := rxInv_step hq hs
  have hcomp : RxLabel.completed l = [] := by
    cases l with
    | complete e => exact absurd rfl (hno e)
    | _ => rfl
  rw [hcomp, List.append_nil] at hq'
  refine ⟨_, ⟨_, _, hq'⟩, hdescs, h.frames.trans (congrArg (han ++ ·) ?_)⟩
  rw [frameIn_move s hbase]
  refine congrArg (List.map (frameIn s)) ?_
  show inHand s.rx.pc ++ completed.drop popped.length
    = inHand rx.pc ++ completed.drop (popped ++ RxLabel.popped l).length
  cases hs with
  | @consume e hpc =>
      -- what was next is in hand
      have hk : completed[popped.length]? = some e := by
        have := hq.knows
        rw [hpc] at this
        exact this
      rw [hpc]
      show [] ++ completed.drop popped.length = [e] ++ completed.drop (popped ++ [e]).length
      rw [List.length_append, List.nil_append, drop_next hk]
      rfl
  | frame hpc _ => cases hstay _ hpc
  | short hpc _ => cases hstay _ hpc
  | @device ev q hdev =>
      cases ev with
      | complete e => exact absurd rfl (hno e)
      | take d => simp [RxLabel.popped, DeviceEvent.rxLabel]
      | fill => simp [RxLabel.popped, DeviceEvent.rxLabel]
  | initRing hpc _ | initIndex hpc | initDone hpc _ | enter hpc | more hpc _ | leave hpc _
  | read hpc | recycle hpc | index hpc =>
      rw [hpc]
      simp [RxLabel.popped, inHand]

/-- A byte that the device writes. -/
theorem ReceptionInv.dma (h : ReceptionInv del han completed popped s) {d x : Nat} {b : UInt8}
    (hd : d ∈ s.rx.queue.dev.held) (hx : x < (s.rx.queue.vq.descs d).len) :
    ReceptionInv del han completed popped
        { s with mem := Function.update s.mem ((s.rx.queue.vq.descs d).addr + x) b }
      ∧ s.rx.netRxPaddr ≤ (s.rx.queue.vq.descs d).addr + x
      ∧ (s.rx.queue.vq.descs d).addr + x < s.rx.netRxPaddr + netRxBufNum * sizeofVirtioNetBuf := by
  obtain ⟨pushed, taken, hq⟩ := h.queue
  obtain ⟨hlt, hset⟩ := hq.held_set hd
  have hdesc := h.descs d hlt hset
  have hlen : (s.rx.queue.vq.descs d).len = sizeofVirtioNetBuf := by rw [hdesc]; rfl
  have haddr : (s.rx.queue.vq.descs d).addr = s.rx.netRxPaddr + d * sizeofVirtioNetBuf := by
    rw [hdesc]
    rfl
  rw [hlen] at hx
  have hfits : (d + 1) * sizeofVirtioNetBuf ≤ netRxBufNum * sizeofVirtioNetBuf :=
    Nat.mul_le_mul_right _ hlt
  rw [Nat.succ_mul] at hfits
  refine ⟨⟨h.queue, h.descs, h.frames.trans (congrArg (han ++ ·) ?_)⟩, by omega, by omega⟩
  refine List.map_congr_left fun e he => ?_
  have hne : e.id ≠ d := fun heq => hq.pending_not_held he (heq ▸ hd)
  unfold frameIn
  dsimp only
  rw [haddr, rxFrame_other hx hne]

/-- A frame is delivered. -/
theorem ReceptionInv.deliver (h : ReceptionInv del han completed popped s) {e : VirtqUsedElem}
    (hs : RxStep s.rx (.complete e) rx) :
    ReceptionInv (del ++ [frameIn s e]) han (completed ++ [e]) popped { s with rx } := by
  obtain ⟨pushed, taken, hq⟩ := h.queue
  obtain ⟨hbase, hdescs⟩ := descs_step h.descs hs
  have hq' := rxInv_step hq hs
  have hpc : rx.pc = s.rx.pc := by
    generalize hl : RxLabel.complete e = l at hs
    cases hs with
    | device _ => rfl
    | _ => cases hl
  rw [show RxLabel.popped (.complete e) = [] from rfl, List.append_nil] at hq'
  refine ⟨⟨_, _, hq'⟩, hdescs, ?_⟩
  rw [frameIn_move s hbase]
  dsimp only
  rw [hpc, drop_snoc hq.pops.length_le, h.frames]
  simp

/-- A frame is handled. -/
theorem ReceptionInv.handle (h : ReceptionInv del han completed popped s) {e : VirtqUsedElem}
    {net : NetRx} (hpc : s.rx.pc = .process e) :
    ReceptionInv del (han ++ [frameIn s e]) completed popped
      { s with rx := { s.rx with pc := .recycle e }, net } := by
  obtain ⟨pushed, taken, hq⟩ := h.queue
  refine ⟨⟨pushed, taken, hq.move (by rw [hpc]; rfl) trivial⟩, fun d hlt _ => h.descs d hlt ?_, ?_⟩
  · rw [hpc]
    trivial
  · rw [h.frames, hpc]
    show han ++ ([e] ++ completed.drop popped.length).map (frameIn s)
      = han ++ [frameIn s e] ++ ([] ++ completed.drop popped.length).map (frameIn s)
    rw [List.map_append, List.append_assoc, List.nil_append]
    rfl

end

/-! ## Runs -/

section

variable {net : NetRx} {tr : List ReceptionLabel} {s s' : Reception} {l : ReceptionLabel}

theorem delivered_snoc (tr : List ReceptionLabel) (l : ReceptionLabel) :
    delivered (tr ++ [l]) = delivered tr ++ delivered [l] := List.filterMap_append

theorem handled_snoc (tr : List ReceptionLabel) (l : ReceptionLabel) :
    handled (tr ++ [l]) = handled tr ++ handled [l] := List.filterMap_append

/-- The statics after some frames. -/
def receiveAll (net : NetRx) (frames : List (Bytes × Nat)) : Except Stop NetRx :=
  frames.foldlM (fun n f => receiveBuffer n f.1 f.2) net

/-- What holds after every run. -/
structure Handling (net : NetRx) (tr : List ReceptionLabel) (s : Reception) : Prop where
  inv : ∃ completed popped, ReceptionInv (delivered tr) (handled tr) completed popped s
  net : receiveAll net (handled tr) = .ok s.net
  dma : ∀ a, ReceptionLabel.dma a ∈ tr →
    s.rx.netRxPaddr ≤ a ∧ a < s.rx.netRxPaddr + netRxBufNum * sizeofVirtioNetBuf

theorem netRxPaddr_step (hs : ReceptionStep s l s') : s'.rx.netRxPaddr = s.rx.netRxPaddr := by
  -- no step of the queue moves the buffers
  have key : ∀ {l : RxLabel} {rx : Rx}, RxStep s.rx l rx → rx.netRxPaddr = s.rx.netRxPaddr := by
    intro l rx h
    cases h <;> rfl
  cases hs with
  | move h _ _ => exact key h
  | dma _ _ _ => rfl
  | deliver h => exact key h
  | handle _ _ => rfl

theorem handling_start (hs : ReceptionStart net s) : Handling net [] s := by
  obtain ⟨hrx, hnet⟩ := hs
  refine ⟨⟨[], [], ⟨[], [], rxInv_start hrx⟩, fun d _ hset => ?_, ?_⟩, ?_, nofun⟩
  · rw [hrx.2] at hset
    exact absurd hset (Nat.not_lt_zero d)
  · rw [hrx.2]
    rfl
  · rw [hnet]
    rfl

/-- The bounds of the old writes, when the buffers have not moved. -/
theorem Handling.dma_old (h : Handling net tr s) (hs : ReceptionStep s l s')
    (hl : ∀ a, l ≠ .dma a) : ∀ a, ReceptionLabel.dma a ∈ tr ++ [l] →
      s'.rx.netRxPaddr ≤ a ∧ a < s'.rx.netRxPaddr + netRxBufNum * sizeofVirtioNetBuf := by
  intro a ha
  rw [netRxPaddr_step hs]
  rcases List.mem_append.mp ha with hold | hnew
  · exact h.dma a hold
  · exact absurd (List.mem_singleton.mp hnew).symm (hl a)

/-- **Every step.** -/
theorem handling_step (h : Handling net tr s) (hs : ReceptionStep s l s') :
    Handling net (tr ++ [l]) s' := by
  obtain ⟨completed, popped, hinv⟩ := h.inv
  have hdma := h.dma_old hs
  cases hs with
  | move hq hno hstay =>
      obtain ⟨popped', hinv'⟩ := hinv.move hq hno hstay
      refine ⟨⟨completed, popped', ?_⟩, ?_, hdma nofun⟩
      · rw [delivered_snoc, handled_snoc]
        simpa [delivered, handled] using hinv'
      · rw [handled_snoc]
        simpa [handled] using h.net
  | @dma d x b hd hx hw =>
      obtain ⟨hinv', hlo, hhi⟩ := hinv.dma (b := b) hd hx
      refine ⟨⟨completed, popped, ?_⟩, ?_, fun a ha => ?_⟩
      · rw [delivered_snoc, handled_snoc]
        simpa [delivered, handled] using hinv'
      · rw [handled_snoc]
        simpa [handled] using h.net
      · rcases List.mem_append.mp ha with hold | hnew
        · exact h.dma a hold
        · obtain rfl : a = _ := ReceptionLabel.dma.inj (List.mem_singleton.mp hnew)
          exact ⟨hlo, hhi⟩
  | @deliver e _ hq =>
      refine ⟨⟨completed ++ [e], popped, ?_⟩, ?_, hdma nofun⟩
      · rw [delivered_snoc, handled_snoc]
        simpa [delivered, handled, frameIn] using hinv.deliver hq
      · rw [handled_snoc]
        simpa [handled] using h.net
  | @handle e n hpc hn =>
      refine ⟨⟨completed, popped, ?_⟩, ?_, hdma nofun⟩
      · rw [delivered_snoc, handled_snoc]
        simpa [delivered, handled, frameIn] using hinv.handle hpc
      · rw [handled_snoc]
        unfold receiveAll
        rw [List.foldlM_append]
        show receiveAll net (handled tr) >>= _ = _
        rw [h.net, ok_bind]
        simp [handled, hn]

theorem handling_run (hr : Run (ReceptionStart net) ReceptionStep tr s) : Handling net tr s :=
  hr.invariant_trace (fun _ hs => handling_start hs) fun _ _ _ _ _ h hs => handling_step h hs

/-- The loop of `virtio_net_init` when the device waits; it touches neither memory nor the statics. -/
theorem reception_init_run (netRxPaddr : Nat) (mem : Nat → UInt8) (net : NetRx) :
    Run (ReceptionStart net) ReceptionStep ((List.range netRxBufNum).flatMap fun _ => [.move, .move])
      ⟨⟨netRxReady netRxPaddr, .init netRxBufNum, netRxPaddr⟩, mem, net⟩ := by
  refine Run.loop
    (f := fun k => (⟨⟨netRxFilled netRxPaddr k, .init k, netRxPaddr⟩, mem, net⟩ : Reception))
    netRxBufNum ⟨⟨rfl, rfl⟩, rfl⟩ ?_
  intro k tr hk hr
  rw [netRxFilled_succ]
  exact hr.append (.cons (.move (.initRing rfl hk) nofun nofun)
    (.cons (.move (.initIndex rfl) nofun nofun) .nil))

/-- Handling the frames is what the host does when it receives them. -/
theorem host_receives {h : Host} (hs : HostStart h) (frames : List (Bytes × Nat)) {n : NetRx}
    (hn : receiveAll h.rx frames = .ok n) :
    Run HostStart HostStep (frames.map fun f => .receive f.1 f.2) { h with rx := n } := by
  induction frames using List.reverseRecOn generalizing n with
  | nil =>
      obtain rfl : h.rx = n := pure_eq_ok.mp hn
      exact .start hs
  | append_singleton frames f ih =>
      unfold receiveAll at hn
      rw [List.foldlM_append, bind_eq_ok] at hn
      obtain ⟨n₁, hn₁, hn⟩ := hn
      have hlast : receiveBuffer n₁ f.1 f.2 = .ok n := by simpa using hn
      rw [List.map_append]
      have hopen : Host.Open { h with rx := n₁ } := Or.inl hs.pc
      exact (ih hn₁).snoc (.receive hopen hlast)

end

/--
**Every frame that the device delivers is handled**, once, in order, and with the bytes it had when
it was delivered, whatever the device writes in the meantime: what was delivered is what was handled,
and at most sixteen frames that are still to come; when `virtio_net_drain_rx` finds the queue empty,
all of them have been. The device only writes to the pages of the buffers. The statics are those of a
host that has received these frames, and no frame stops the driver.
-/
theorem frames_handled_in_order {net : NetRx} {tr : List ReceptionLabel} {s : Reception}
    (hr : Run (ReceptionStart net) ReceptionStep tr s) :
    (∃ pending, delivered tr = handled tr ++ pending ∧ pending.length ≤ virtqEntryNum
      ∧ (s.rx.pc = .check → virtqHasUsed s.rx.queue.vq = false → pending = []))
    ∧ (∀ a, ReceptionLabel.dma a ∈ tr →
      s.rx.netRxPaddr ≤ a ∧ a < s.rx.netRxPaddr + 6 * pageSize)
    ∧ (∀ h, HostStart h → h.rx = net → Run HostStart HostStep
      ((handled tr).map fun f => .receive f.1 f.2) { h with rx := s.net })
    ∧ ∀ e, s.rx.pc = .process e → ∃ l s', ReceptionStep s l s' ∧ s'.rx.pc = .recycle e := by
  have h := handling_run hr
  obtain ⟨completed, popped, hinv⟩ := h.inv
  obtain ⟨pushed, taken, hq⟩ := hinv.queue
  refine ⟨⟨_, hinv.frames, ?_, fun hpc hused => ?_⟩, fun a ha => ?_, fun h₀ hs hnet => ?_,
    fun e hpc => ?_⟩
  · have hlen := hq.length
    have hhand : (inHand s.rx.pc).length ≤ (inDriver s.rx.pc).length := by
      cases s.rx.pc with
      | process e => exact Nat.le_refl _
      | _ => exact Nat.zero_le _
    rw [List.length_map, List.length_append]
    omega
  · have heq : popped.length = completed.length :=
      (hq.used.eq_iff wraps_virtq).mp (by simpa [virtqHasUsed] using hused)
    rw [hpc, heq, List.drop_length]
    rfl
  · obtain ⟨hlo, hhi⟩ := h.dma a ha
    have hsize : netRxBufNum * sizeofVirtioNetBuf ≤ 6 * pageSize := by decide
    exact ⟨hlo, by omega⟩
  · refine host_receives hs (handled tr) ?_
    rw [hnet]
    exact h.net
  · obtain ⟨n, hn, _⟩ := receiveBuffer_ok s.net (rxFrame s.mem s.rx.netRxPaddr e.id) e.len
    exact ⟨_, _, .handle hpc hn, rfl⟩

/-- The first buffer is filled with a byte and sixty bytes in all, delivered, popped, handled and made
available again; then nothing is left to do. -/
theorem frames_handled_in_order_drained :
    ∃ tr frame s, Run (ReceptionStart sampleHost.rx) ReceptionStep tr s ∧ frame 1 = 7
      ∧ handled tr = [(frame, 60)] ∧ delivered tr = handled tr
      ∧ Run HostStart HostStep [.receive frame 60] { sampleHost with rx := s.net } := by
  have h0 := (reception_init_run 0 (fun _ => 0) sampleHost.rx).snoc
    (.move (.initDone rfl (by decide)) nofun nofun)
  have h1 := h0.snoc (.move (.device (.take (by decide))) nofun nofun)
  have h2 := h1.snoc (.dma (b := 7) (x := 11) (d := 0) List.mem_cons_self (by decide) rfl)
  have h3 := h2.snoc (.move (.device (.fill rfl List.mem_cons_self (show 60 < 2 ^ 32 by decide)))
    nofun nofun)
  have h4 := h3.snoc (.deliver (.device (.publish rfl)))
  have h5 := (h4.snoc (.move (.enter rfl) nofun nofun)).snoc (.move (.more rfl (by decide)) nofun nofun)
  have h6 := (h5.snoc (.move (.read rfl) nofun nofun)).snoc (.move (.consume rfl) nofun nofun)
  obtain ⟨net, hnet, _⟩ := receiveBuffer_ok sampleHost.rx
    (rxFrame (Function.update (fun _ => 0) 11 7) 0 0) 60
  have h7 := h6.snoc (.handle rfl hnet)
  have h8 := (h7.snoc (.move (.recycle rfl) nofun nofun)).snoc (.move (.index rfl) nofun nofun)
  obtain ⟨⟨pending, hdel, _, hpend⟩, _, hhost, _⟩ := frames_handled_in_order h8
  obtain rfl : pending = [] := hpend rfl rfl
  exact ⟨_, _, _, h8, by decide, rfl, hdel.trans (List.append_nil _),
    hhost sampleHost sampleHost_start rfl⟩

end Os1000.Proof
