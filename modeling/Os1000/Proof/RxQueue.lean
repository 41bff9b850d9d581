import Os1000.Lib.Channel
import Os1000.Lib.Run
import Os1000.Virtio.Rx
import Mathlib.Data.List.Perm.Basic

/-!
# No receive buffer is lost

The available ring and the used ring are two channels that run against each other, and
the sixteen descriptors go round: available, held by the device, used, in the hands of
the driver, available again. There are never more of them in a ring than it has slots,
which is what makes both channels work without looking at how full they are.
-/

namespace Os1000.Proof

open Os1000 Lib

theorem wraps_virtq : Wraps virtqEntryNum (2 ^ 16) := ⟨by decide, by decide, by decide⟩

/-! ## What a trace says -/

/-- What a step makes available. -/
def RxLabel.pushed : RxLabel → List Nat
  | .push d => [d]
  | _ => []

/-- What the device takes in a step. -/
def RxLabel.taken : RxLabel → List Nat
  | .take d => [d]
  | _ => []

/-- What the device publishes in a step. -/
def RxLabel.completed : RxLabel → List VirtqUsedElem
  | .complete e => [e]
  | _ => []

/-- What the driver pops in a step. -/
def RxLabel.popped : RxLabel → List VirtqUsedElem
  | .pop e => [e]
  | _ => []

/-! ## Where the descriptors are -/

/-- Available, and not yet taken by the device. -/
def availables (q : Queue) : List Nat :=
  unread virtqEntryNum (2 ^ 16) q.vq.availRing q.vq.availIndex q.dev.lastAvail

/-- Used, and not yet popped. -/
def useds (q : Queue) : List VirtqUsedElem :=
  unread virtqEntryNum (2 ^ 16) q.vq.usedRing q.vq.usedIndex q.vq.consumedUsedIndex

/-- With the driver: the one being processed or, during `virtio_net_init`, those to come. -/
def inDriver : RxPc → List Nat
  | .init i => List.range' i (netRxBufNum - i)
  | .initIndex i => List.range' i (netRxBufNum - i)
  | .process e => [e.id]
  | .recycle e => [e.id]
  | .index e => [e.id]
  | .idle => []
  | .check => []
  | .read => []
  | .consume _ => []

/-- What the driver knows where it is, of the queue and of what was completed and popped. -/
def PcKnows (completed popped : List VirtqUsedElem) (vq : Virtq) : RxPc → Prop
  | .init i => i ≤ netRxBufNum
  | .initIndex i => i < netRxBufNum ∧ vq.availRing (vq.availIndex % virtqEntryNum) = u16 i
  | .read => popped.length < completed.length
  | .consume e => completed[popped.length]? = some e
  | .index e => vq.availRing (vq.availIndex % virtqEntryNum) = u16 e.id
  | .idle => True
  | .check => True
  | .process _ => True
  | .recycle _ => True

/-- The invariant, over everything pushed, taken, completed and popped so far. -/
structure RxInv (pushed taken : List Nat) (completed popped : List VirtqUsedElem) (s : Rx) :
    Prop where
  avail : Carries virtqEntryNum (2 ^ 16) s.queue.vq.availRing s.queue.vq.availIndex
    s.queue.dev.lastAvail pushed taken.length
  used : Carries virtqEntryNum (2 ^ 16) s.queue.vq.usedRing s.queue.vq.usedIndex
    s.queue.vq.consumedUsedIndex completed popped.length
  /-- The device takes what was pushed, in order. -/
  takes : taken <+: pushed
  /-- The driver pops what was completed, in order. -/
  pops : popped <+: completed
  /-- Every descriptor is in one place. -/
  once : ∀ d, (pushed.drop taken.length).count d + s.queue.dev.held.count d
    + ((completed.drop popped.length).map VirtqUsedElem.id).count d + (inDriver s.pc).count d
    = if d < virtqEntryNum then 1 else 0
  /-- What the device has written and not published it holds. -/
  filled : ∀ e, s.queue.dev.filled = some e → e.id ∈ s.queue.dev.held
    ∧ s.queue.vq.usedRing (s.queue.vq.usedIndex % virtqEntryNum) = e
  knows : PcKnows completed popped s.queue.vq s.pc

section

variable {pushed taken : List Nat} {completed popped : List VirtqUsedElem} {s s' : Rx}

theorem count_range' (i n d : Nat) :
    (List.range' i n).count d = if i ≤ d ∧ d < i + n then 1 else 0 := by
  have hnd : (List.range' i n).Nodup := List.nodup_range' ..
  rw [hnd.count]
  simp only [List.mem_range'_1]

/-- There are sixteen descriptors. -/
theorem RxInv.length (h : RxInv pushed taken completed popped s) :
    (pushed.drop taken.length).length + s.queue.dev.held.length
      + (completed.drop popped.length).length + (inDriver s.pc).length = virtqEntryNum := by
  have hperm : ((pushed.drop taken.length) ++ s.queue.dev.held
      ++ (completed.drop popped.length).map VirtqUsedElem.id ++ inDriver s.pc).Perm
      (List.range virtqEntryNum) := by
    rw [List.perm_iff_count]
    intro d
    rw [List.nodup_range.count, List.count_append, List.count_append, List.count_append, h.once d]
    simp only [List.mem_range]
  have hlen := hperm.length_eq
  rw [List.length_append, List.length_append, List.length_append, List.length_map,
    List.length_range] at hlen
  exact hlen

/-- While the driver or the device has a descriptor, the available ring is not full. -/
theorem RxInv.avail_room (h : RxInv pushed taken completed popped s)
    (hd : 0 < s.queue.dev.held.length + (inDriver s.pc).length) :
    pushed.length < taken.length + virtqEntryNum := by
  have hlen := h.length
  rw [List.length_drop] at hlen
  omega

/-- The same for the used ring. -/
theorem RxInv.used_room (h : RxInv pushed taken completed popped s)
    (hd : 0 < s.queue.dev.held.length + (inDriver s.pc).length) :
    completed.length < popped.length + virtqEntryNum := by
  have hlen := h.length
  rw [List.length_drop, List.length_drop] at hlen
  omega

theorem RxInv.driver_lt (h : RxInv pushed taken completed popped s) {d : Nat}
    (hd : d ∈ inDriver s.pc) : d < virtqEntryNum := by
  have hone := h.once d
  have hpos := List.count_pos_iff.mpr hd
  by_contra hge
  rw [if_neg hge] at hone
  omega

theorem u16_desc {d : Nat} (h : d < virtqEntryNum) : u16 d = d :=
  Nat.mod_eq_of_lt (Nat.lt_trans h (by decide))

theorem drop_snoc {α : Type} {l : List α} {n : Nat} (h : n ≤ l.length) (a : α) :
    (l ++ [a]).drop n = l.drop n ++ [a] := List.drop_append_of_le_length h

theorem drop_next {α : Type} {l : List α} {n : Nat} {a : α} (h : l[n]? = some a) :
    l.drop n = a :: l.drop (n + 1) := by
  obtain ⟨hn, ha⟩ := List.getElem?_eq_some_iff.mp h
  rw [List.drop_eq_getElem_cons hn, ha]

theorem prefix_next {α : Type} {l l' : List α} {a : α} (h : l' <+: l) (ha : l[l'.length]? = some a) :
    l' ++ [a] <+: l := by
  obtain ⟨r, rfl⟩ := h
  rw [List.getElem?_append_right (Nat.le_refl _), Nat.sub_self] at ha
  cases r with
  | nil => cases ha
  | cons b r =>
      rw [List.getElem?_cons_zero] at ha
      injection ha with ha
      subst ha
      exact ⟨r, by simp⟩

/-! ## One step -/

theorem rxInv_start (h : RxStart s) : RxInv [] [] [] [] s := by
  obtain ⟨hq, hpc⟩ := h
  refine ⟨?_, ?_, List.prefix_refl _, List.prefix_refl _, fun d => ?_, ?_, ?_⟩
  · rw [hq]; exact Carries.start wraps_virtq
  · rw [hq]; exact Carries.start wraps_virtq
  · rw [hq, hpc]
    show 0 + 0 + 0 + (List.range' 0 (netRxBufNum - 0)).count d = _
    rw [count_range']
    simp [netRxBufNum]
  · rw [hq]; nofun
  · rw [hpc]; exact Nat.zero_le _

/-- A step that only moves the driver on, and leaves it the descriptors it has. -/
theorem RxInv.move (h : RxInv pushed taken completed popped s) {pc : RxPc}
    (hin : inDriver pc = inDriver s.pc) (hk : PcKnows completed popped s.queue.vq pc) :
    RxInv pushed taken completed popped { s with pc := pc } :=
  ⟨h.avail, h.used, h.takes, h.pops, fun d => by rw [hin]; exact h.once d, h.filled, hk⟩

/-- **The driver writes the next slot** of the available ring. -/
theorem RxInv.enqueue (h : RxInv pushed taken completed popped s) {pc : RxPc} {d : Nat}
    (hin : inDriver pc = inDriver s.pc) (hd : d ∈ inDriver s.pc)
    (hk : ∀ vq : Virtq, vq.availRing (vq.availIndex % virtqEntryNum) = u16 d →
      PcKnows completed popped vq pc) :
    RxInv pushed taken completed popped { s with
      queue := { s.queue with vq := virtioNetEnqueueRing s.queue.vq s.netRxPaddr d },
      pc := pc } := by
  have hroom := h.avail_room (by have := List.length_pos_of_mem hd; omega)
  refine ⟨h.avail.write wraps_virtq hroom _, h.used, h.takes, h.pops,
    fun d => by rw [hin]; exact h.once d, h.filled, hk _ ?_⟩
  exact Function.update_self ..

/-- **The driver raises the available index**, over a slot it has written. -/
theorem RxInv.push (h : RxInv pushed taken completed popped s) {pc : RxPc} {d : Nat}
    (hin : inDriver s.pc = d :: inDriver pc)
    (hslot : s.queue.vq.availRing (s.queue.vq.availIndex % virtqEntryNum) = u16 d)
    (hk : PcKnows completed popped (virtqPushIndex s.queue.vq) pc) :
    RxInv (pushed ++ [u16 d]) taken completed popped { s with
      queue := { s.queue with vq := virtqPushIndex s.queue.vq }, pc := pc } := by
  have hroom := h.avail_room (by rw [hin, List.length_cons]; omega)
  have hlt : d < virtqEntryNum := h.driver_lt (by rw [hin]; exact List.mem_cons_self)
  refine ⟨h.avail.publish wraps_virtq hroom hslot, h.used, ?_, h.pops, fun x => ?_, h.filled, hk⟩
  · exact h.takes.trans (List.prefix_append _ _)
  · have hone := h.once x
    rw [drop_snoc h.avail.le, List.count_append, u16_desc hlt]
    rw [hin, List.count_cons] at hone
    rw [List.count_singleton]
    dsimp only
    omega

/-- **The driver pops** the next used element. -/
theorem RxInv.pop (h : RxInv pushed taken completed popped s) {e : VirtqUsedElem}
    (hpc : s.pc = .consume e) :
    RxInv pushed taken completed (popped ++ [e]) { s with
      queue := { s.queue with vq := virtqConsume s.queue.vq }, pc := .process e } := by
  have hk : completed[popped.length]? = some e := by
    have := h.knows
    rwa [hpc] at this
  have hlt := (List.getElem?_eq_some_iff.mp hk).1
  have hne : s.queue.vq.consumedUsedIndex ≠ s.queue.vq.usedIndex := by
    intro he
    have := (h.used.eq_iff wraps_virtq).mp he
    omega
  have hlen : (popped ++ [e]).length = popped.length + 1 := by simp
  refine ⟨h.avail, ?_, h.takes, prefix_next h.pops hk, fun x => ?_, h.filled, trivial⟩
  · rw [hlen]
    exact h.used.take wraps_virtq hne
  · have hone := h.once x
    rw [hpc, drop_next hk, List.map_cons, List.count_cons] at hone
    rw [hlen]
    show _ + _ + _ + ([e.id]).count x = _
    rw [List.count_singleton]
    have hzero : (inDriver (.consume e)).count x = 0 := rfl
    dsimp only
    omega

/-- What the driver knows outlives what the device does. -/
theorem PcKnows.device {vq vq' : Virtq} {pc : RxPc} {l : List VirtqUsedElem}
    (hk : PcKnows completed popped vq pc) (hring : vq'.availRing = vq.availRing)
    (hindex : vq'.availIndex = vq.availIndex) : PcKnows (completed ++ l) popped vq' pc := by
  cases pc with
  | init i => exact hk
  | initIndex i =>
      unfold PcKnows
      rw [hring, hindex]
      exact hk
  | idle => trivial
  | check => trivial
  | read => exact Nat.lt_of_lt_of_le hk (by rw [List.length_append]; omega)
  | consume e =>
      have hk : completed[popped.length]? = some e := hk
      show (completed ++ l)[popped.length]? = some e
      rw [List.getElem?_append_left (List.getElem?_eq_some_iff.mp hk).1]
      exact hk
  | process e => trivial
  | recycle e => trivial
  | index e =>
      unfold PcKnows
      rw [hring, hindex]
      exact hk

/-- **The device takes, writes or publishes.** -/
theorem RxInv.device (h : RxInv pushed taken completed popped s) {ev : DeviceEvent} {q : Queue}
    (hs : DeviceStep s.queue ev q) :
    RxInv pushed (taken ++ RxLabel.taken ev.rxLabel) (completed ++ RxLabel.completed ev.rxLabel)
      popped { s with queue := q } := by
  cases hs with
  | take hne =>
      have hnext : pushed[taken.length]? = some s.queue.nextAvail := h.avail.next wraps_virtq hne
      have hlen : (taken ++ [s.queue.nextAvail]).length = taken.length + 1 := by simp
      show RxInv pushed (taken ++ [s.queue.nextAvail]) (completed ++ []) popped _
      rw [List.append_nil]
      refine ⟨?_, h.used, prefix_next h.takes hnext, h.pops, fun x => ?_, ?_, h.knows⟩
      · rw [hlen]
        exact h.avail.take wraps_virtq hne
      · have hone := h.once x
        rw [drop_next hnext, List.count_cons] at hone
        rw [hlen]
        show _ + (s.queue.dev.held ++ [s.queue.nextAvail]).count x + _ + _ = _
        rw [List.count_append, List.count_singleton]
        dsimp only
        omega
      · intro e he
        obtain ⟨h1, h2⟩ := h.filled e he
        exact ⟨List.mem_append_left _ h1, h2⟩
  | @fill d len _ hd _ =>
      have hroom := h.used_room (by have := List.length_pos_of_mem hd; omega)
      show RxInv pushed (taken ++ []) (completed ++ []) popped _
      rw [List.append_nil]
      have hk : PcKnows (completed ++ []) popped (virtqFill s.queue.vq ⟨d, len⟩) s.pc :=
        h.knows.device rfl rfl
      rw [List.append_nil] at hk ⊢
      refine ⟨h.avail, h.used.write wraps_virtq hroom _, h.takes, h.pops, h.once, ?_, hk⟩
      rintro e ⟨⟩
      exact ⟨hd, Function.update_self ..⟩
  | @publish e he =>
      obtain ⟨hmem, hslot⟩ := h.filled e he
      have hroom := h.used_room (by have := List.length_pos_of_mem hmem; omega)
      show RxInv pushed (taken ++ []) (completed ++ [e]) popped _
      rw [List.append_nil]
      refine ⟨h.avail, h.used.publish wraps_virtq hroom hslot, h.takes,
        h.pops.trans (List.prefix_append _ _), fun x => ?_, nofun, h.knows.device rfl rfl⟩
      have hone := h.once x
      have hpos := List.count_pos_iff.mpr hmem
      rw [drop_snoc h.used.le, List.map_append, List.count_append]
      show _ + (s.queue.dev.held.erase e.id).count x + (_ + ([e.id]).count x) + _ = _
      rw [List.count_erase, List.count_singleton]
      by_cases hx : e.id = x
      · subst hx
        simp only [beq_self_eq_true, if_true]
        omega
      · have hx' : (e.id == x) = false := by simpa using hx
        simp only [hx', Bool.false_eq_true, if_false]
        omega

theorem range'_next {i : Nat} (h : i < netRxBufNum) :
    List.range' i (netRxBufNum - i) = i :: List.range' (i + 1) (netRxBufNum - (i + 1)) := by
  rw [show netRxBufNum - i = netRxBufNum - (i + 1) + 1 by omega, List.range'_succ]

/-- **Every step keeps the invariant.** -/
theorem rxInv_step (h : RxInv pushed taken completed popped s) {l : RxLabel} (hs : RxStep s l s') :
    RxInv (pushed ++ RxLabel.pushed l) (taken ++ RxLabel.taken l)
      (completed ++ RxLabel.completed l) (popped ++ RxLabel.popped l) s' := by
  have hknows := h.knows
  cases hs with
  | @initRing i hpc hi =>
      simp only [RxLabel.pushed, RxLabel.taken, RxLabel.completed, RxLabel.popped, List.append_nil]
      refine h.enqueue (by rw [hpc]; rfl) ?_ fun vq hslot => ⟨hi, hslot⟩
      rw [hpc]
      show i ∈ List.range' i (netRxBufNum - i)
      rw [range'_next hi]
      exact List.mem_cons_self
  | @initIndex i hpc =>
      simp only [RxLabel.pushed, RxLabel.taken, RxLabel.completed, RxLabel.popped, List.append_nil]
      rw [hpc] at hknows
      refine h.push ?_ hknows.2 hknows.1
      rw [hpc]
      exact range'_next hknows.1
  | @initDone i hpc hi =>
      simp only [RxLabel.pushed, RxLabel.taken, RxLabel.completed, RxLabel.popped, List.append_nil]
      refine h.move ?_ trivial
      rw [hpc]
      show [] = List.range' i (netRxBufNum - i)
      rw [show netRxBufNum - i = 0 by omega]
      rfl
  | enter hpc =>
      simp only [RxLabel.pushed, RxLabel.taken, RxLabel.completed, RxLabel.popped, List.append_nil]
      exact h.move (by rw [hpc]; rfl) trivial
  | more hpc hused =>
      simp only [RxLabel.pushed, RxLabel.taken, RxLabel.completed, RxLabel.popped, List.append_nil]
      refine h.move (by rw [hpc]; rfl) ?_
      have hne : s.queue.vq.consumedUsedIndex ≠ s.queue.vq.usedIndex := of_decide_eq_true hused
      exact Nat.lt_of_le_of_ne h.used.le fun he => hne ((h.used.eq_iff wraps_virtq).mpr he)
  | leave hpc =>
      simp only [RxLabel.pushed, RxLabel.taken, RxLabel.completed, RxLabel.popped, List.append_nil]
      exact h.move (by rw [hpc]; rfl) trivial
  | read hpc =>
      simp only [RxLabel.pushed, RxLabel.taken, RxLabel.completed, RxLabel.popped, List.append_nil]
      rw [hpc] at hknows
      have hlt : popped.length < completed.length := hknows
      refine h.move (by rw [hpc]; rfl) (h.used.next wraps_virtq fun he => ?_)
      have := (h.used.eq_iff wraps_virtq).mp he
      omega
  | consume hpc =>
      simp only [RxLabel.pushed, RxLabel.taken, RxLabel.completed, RxLabel.popped, List.append_nil]
      exact h.pop hpc
  | frame hpc =>
      simp only [RxLabel.pushed, RxLabel.taken, RxLabel.completed, RxLabel.popped, List.append_nil]
      exact h.move (by rw [hpc]; rfl) trivial
  | short hpc =>
      simp only [RxLabel.pushed, RxLabel.taken, RxLabel.completed, RxLabel.popped, List.append_nil]
      exact h.move (by rw [hpc]; rfl) trivial
  | @recycle e hpc =>
      simp only [RxLabel.pushed, RxLabel.taken, RxLabel.completed, RxLabel.popped, List.append_nil]
      refine h.enqueue (by rw [hpc]; rfl) ?_ fun vq hslot => hslot
      rw [hpc]
      exact List.mem_singleton_self _
  | @index e hpc =>
      simp only [RxLabel.pushed, RxLabel.taken, RxLabel.completed, RxLabel.popped, List.append_nil]
      rw [hpc] at hknows
      refine h.push ?_ hknows trivial
      rw [hpc]
      rfl
  | @device ev q hdev =>
      have hdev := h.device hdev
      cases ev with
      | take d => simpa [RxLabel.pushed, RxLabel.popped, DeviceEvent.rxLabel] using hdev
      | fill => simpa [RxLabel.pushed, RxLabel.popped, DeviceEvent.rxLabel] using hdev
      | complete e => simpa [RxLabel.pushed, RxLabel.popped, DeviceEvent.rxLabel] using hdev

end

/-! ## Undisturbed, the steps are the functions -/

section

variable {s : Rx}

theorem netRxFilled_succ (netRxPaddr n : Nat) :
    netRxFilled netRxPaddr (n + 1) = { netRxFilled netRxPaddr n with
      vq := virtioNetEnqueueRx (netRxFilled netRxPaddr n).vq netRxPaddr n } := by
  unfold netRxFilled
  rw [List.range_succ, List.foldl_append]
  rfl

/-- A round of `virtio_net_init` is `virtio_net_enqueue_rx`. -/
theorem init_path {i : Nat} (hpc : s.pc = .init i) (hi : i < netRxBufNum) :
    Path RxStep s
      [(.quiet, { s with
          queue := { s.queue with vq := virtioNetEnqueueRing s.queue.vq s.netRxPaddr i },
          pc := .initIndex i }),
        (.push (u16 i), { s with
          queue := { s.queue with vq := virtioNetEnqueueRx s.queue.vq s.netRxPaddr i },
          pc := .init (i + 1) })]
      { s with
        queue := { s.queue with vq := virtioNetEnqueueRx s.queue.vq s.netRxPaddr i },
        pc := .init (i + 1) } :=
  .cons (.initRing hpc hi) (.cons (.initIndex rfl) .nil)

/-- So is giving a buffer back. -/
theorem recycle_path {e : VirtqUsedElem} (hpc : s.pc = .recycle e) :
    Path RxStep s
      [(.quiet, { s with
          queue := { s.queue with vq := virtioNetEnqueueRing s.queue.vq s.netRxPaddr e.id },
          pc := .index e }),
        (.push (u16 e.id), { s with
          queue := { s.queue with vq := virtioNetEnqueueRx s.queue.vq s.netRxPaddr e.id },
          pc := .check })]
      { s with
        queue := { s.queue with vq := virtioNetEnqueueRx s.queue.vq s.netRxPaddr e.id },
        pc := .check } :=
  .cons (.recycle hpc) (.cons (.index rfl) .nil)

/-- The head of the loop is `virtq_pop_used`, when there is an element. -/
theorem popUsed_path {e : VirtqUsedElem} {vq : Virtq} (hpc : s.pc = .check)
    (hpop : virtqPopUsed s.queue.vq = some (e, vq)) :
    Path RxStep s
      [(.quiet, { s with pc := .read }), (.quiet, { s with pc := .consume e }),
        (.pop e, { s with queue := { s.queue with vq := vq }, pc := .process e })]
      { s with queue := { s.queue with vq := vq }, pc := .process e } := by
  unfold virtqPopUsed at hpop
  split at hpop
  case isFalse => cases hpop
  case isTrue hused =>
    cases hpop
    exact .cons (.more hpc hused) (.cons (.read rfl) (.cons (.consume rfl) .nil))

/-- And when there is none. -/
theorem popUsed_none (hpc : s.pc = .check) (hpop : virtqPopUsed s.queue.vq = none) :
    RxStep s .quiet { s with pc := .idle } := by
  unfold virtqPopUsed at hpop
  split at hpop
  case isFalse hused => exact .leave hpc (Bool.eq_false_iff.mpr hused)
  case isTrue => cases hpop

/-- What the loop of `virtio_net_init` leaves when the device waits. -/
theorem rx_init_run (netRxPaddr : Nat) :
    Run RxStart RxStep ((List.range netRxBufNum).flatMap fun i => [.quiet, .push (u16 i)])
      ⟨netRxReady netRxPaddr, .init netRxBufNum, netRxPaddr⟩ := by
  refine Run.loop (f := fun k => (⟨netRxFilled netRxPaddr k, .init k, netRxPaddr⟩ : Rx)) netRxBufNum
    ⟨rfl, rfl⟩ ?_
  intro k tr hk hr
  rw [netRxFilled_succ]
  exact hr.append (init_path rfl hk)

end

/-! ## Runs -/

/-- The descriptors made available, in order. -/
def pushes (tr : List RxLabel) : List Nat := tr.flatMap RxLabel.pushed

/-- The descriptors the device took, in order. -/
def takes (tr : List RxLabel) : List Nat := tr.flatMap RxLabel.taken

/-- The used elements the device published, in order. -/
def completions (tr : List RxLabel) : List VirtqUsedElem := tr.flatMap RxLabel.completed

/-- The used elements the driver popped, in order. -/
def pops (tr : List RxLabel) : List VirtqUsedElem := tr.flatMap RxLabel.popped

section

variable {tr : List RxLabel} {s : Rx}

theorem flatMap_snoc {α β : Type} (f : α → List β) (l : List α) (a : α) :
    (l ++ [a]).flatMap f = l.flatMap f ++ f a := by
  simp

/-- The driver looks at the buffer of a descriptor it has. -/
theorem rxInv_use {pushed taken : List Nat} {completed popped : List VirtqUsedElem} {s' : Rx}
    (h : RxInv pushed taken completed popped s) {l : RxLabel} {i : Nat} (hs : RxStep s l s')
    (hl : l = .use i) : i < netRxBufNum := by
  cases hs with
  | @frame e hpc _ =>
      cases hl
      refine h.driver_lt ?_
      rw [hpc]
      exact List.mem_singleton_self _
  | @device ev q hdev => cases ev <;> cases hl
  | _ => cases hl

theorem rxInv_run (hr : Run RxStart RxStep tr s) :
    RxInv (pushes tr) (takes tr) (completions tr) (pops tr) s
      ∧ ∀ i, RxLabel.use i ∈ tr → i < netRxBufNum := by
  refine hr.invariant_trace (P := fun tr s =>
    RxInv (pushes tr) (takes tr) (completions tr) (pops tr) s
      ∧ ∀ i, RxLabel.use i ∈ tr → i < netRxBufNum) ?_ ?_
  · intro s hs
    exact ⟨rxInv_start hs, nofun⟩
  · intro tr s l s' _ ⟨h, huse⟩ hs
    refine ⟨?_, fun i hi => ?_⟩
    · unfold pushes takes completions pops
      rw [flatMap_snoc, flatMap_snoc, flatMap_snoc, flatMap_snoc]
      exact rxInv_step h hs
    · rcases List.mem_append.mp hi with hold | hnew
      · exact huse i hold
      · exact rxInv_use h hs (List.mem_singleton.mp hnew).symm

/--
**Receive descriptors are conserved**, in every run of `virtio_net_init`, `virtio_net_drain_rx` and the
device. Every descriptor is in exactly one place: available and not taken, held by the device, used and
not popped, or with the driver. Each ring holds, between its counters, exactly what was put there and
not read, so nothing is overwritten before it is read; the device takes what was pushed and the driver
pops what was completed, each once and in order; and the driver only looks at buffers there are.
-/
theorem rx_descriptors_conserved (hr : Run RxStart RxStep tr s) :
    (∀ d, (availables s.queue).count d + s.queue.dev.held.count d
        + ((useds s.queue).map VirtqUsedElem.id).count d + (inDriver s.pc).count d
      = if d < virtqEntryNum then 1 else 0)
    ∧ availables s.queue = (pushes tr).drop (takes tr).length ∧ takes tr <+: pushes tr
    ∧ useds s.queue = (completions tr).drop (pops tr).length ∧ pops tr <+: completions tr
    ∧ ∀ i, RxLabel.use i ∈ tr → i < netRxBufNum := by
  obtain ⟨h, huse⟩ := rxInv_run hr
  have havail : availables s.queue = (pushes tr).drop (takes tr).length :=
    h.avail.unread_eq wraps_virtq
  have hused : useds s.queue = (completions tr).drop (pops tr).length :=
    h.used.unread_eq wraps_virtq
  refine ⟨fun d => ?_, havail, h.takes, hused, h.pops, huse⟩
  rw [havail, hused]
  exact h.once d

/-- All buffers made available, the first one filled by the device, popped, looked at and made
available again, after which the driver leaves. -/
theorem rx_descriptors_conserved_cycle :
    ∃ s, Run RxStart RxStep ((List.range netRxBufNum).flatMap (fun i => [.quiet, .push (u16 i)])
        ++ [.quiet, .take 0, .quiet, .complete ⟨0, 60⟩, .quiet, .quiet, .quiet, .pop ⟨0, 60⟩, .use 0,
          .quiet, .push 0, .quiet]) s
      ∧ useds s.queue = [] ∧ availables s.queue = List.range' 1 15 ++ [0] := by
  have h0 := (rx_init_run 0).snoc (.initDone rfl (by decide))
  have h1 := h0.snoc (.device (.take (by decide)))
  have h2 := h1.snoc (.device (.fill rfl List.mem_cons_self (show 60 < 2 ^ 32 by decide)))
  have h3 := (h2.snoc (.device (.publish rfl))).snoc (.enter rfl)
  have h4 := h3.append (popUsed_path rfl rfl)
  have h5 := (h4.snoc (.frame rfl (by decide))).append (recycle_path rfl)
  have h6 := h5.snoc (popUsed_none rfl rfl)
  obtain ⟨_, havail, _, hused, _⟩ := rx_descriptors_conserved h6
  refine ⟨_, h6, hused.trans rfl, havail.trans rfl⟩

end

end Os1000.Proof
