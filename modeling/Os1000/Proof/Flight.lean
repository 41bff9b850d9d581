import Os1000.Proof.Completion
import Os1000.Virtio.Request

/-!
# A request under way

Every queue that requests are made on is in one of two conditions. Either nothing is
under way: all counters agree and the device holds nothing (`Ready`). Or a call has made
descriptor 0 available, and then the counters say how far it has come: offered, held by
the device, published, popped (`Flight`). The flag is set on the last of these stretches
only, so a call that finds it set leaves the queue as it found it.

This is about one device with its handler; what the calls do is in
`Os1000.Proof.Request`.
-/

namespace Os1000.Proof

open Os1000 Lib

/-! ## How far a request has come -/

/-- Nothing is under way on the queue, after `n` requests. -/
structure Ready (n : Nat) (q : Queue) : Prop where
  lt : n < 2 ^ 16
  avail : q.vq.availIndex = n
  last : q.dev.lastAvail = n
  used : q.vq.usedIndex = n
  consumed : q.vq.consumedUsedIndex = n
  held : q.dev.held = []
  filled : q.dev.filled = none

/-- Descriptor 0 is available. -/
structure Offered (n : Nat) (q : Queue) : Prop where
  lt : n < 2 ^ 16
  avail : q.vq.availIndex = u16 (n + 1)
  slot : q.vq.availRing (n % virtqEntryNum) = 0
  last : q.dev.lastAvail = n
  used : q.vq.usedIndex = n
  consumed : q.vq.consumedUsedIndex = n
  held : q.dev.held = []
  filled : q.dev.filled = none

/-- The device holds descriptor 0. -/
structure InDevice (n : Nat) (q : Queue) : Prop where
  lt : n < 2 ^ 16
  avail : q.vq.availIndex = u16 (n + 1)
  last : q.dev.lastAvail = u16 (n + 1)
  used : q.vq.usedIndex = n
  consumed : q.vq.consumedUsedIndex = n
  held : q.dev.held = [0]
  filled : ∀ e, q.dev.filled = some e → e.id = 0

/-- The used element is published. -/
structure Published (n : Nat) (q : Queue) : Prop where
  lt : n < 2 ^ 16
  avail : q.vq.availIndex = u16 (n + 1)
  last : q.dev.lastAvail = u16 (n + 1)
  used : q.vq.usedIndex = u16 (n + 1)
  consumed : q.vq.consumedUsedIndex = n
  held : q.dev.held = []
  filled : q.dev.filled = none

/-- The handler of `d` is between the test of `virtq_pop_used` and the end of the body. -/
def Popping (d : VirtioDev) : IrqPc → Prop
  | .read q => q = reqQueue d
  | .consume q _ => q = reqQueue d
  | .body q _ => q = reqQueue d
  | _ => False

/-- A handler only drains queues the device has. -/
def InRange (d : VirtioDev) : IrqPc → Prop
  | .check q => q < d.queues
  | .read q => q < d.queues
  | .consume q _ => q < d.queues
  | .body q _ => q < d.queues
  | _ => True

/-- The request number `n` of a device is under way, or done and not yet noticed. -/
inductive Flight (d : VirtioDev) (n : Nat) (s : DevState) : Prop where
  | offered : Offered n (s.queue (reqQueue d)) → s.done = false → s.completed = false →
      ¬ Popping d s.pc → Flight d n s
  | inDevice : InDevice n (s.queue (reqQueue d)) → s.done = false → s.completed = false →
      ¬ Popping d s.pc → Flight d n s
  | published : Published n (s.queue (reqQueue d)) → s.done = false → s.completed = false →
      (∀ e, s.pc ≠ .body (reqQueue d) e) → Flight d n s
  | popped {e : VirtqUsedElem} : Ready (u16 (n + 1)) (s.queue (reqQueue d)) → s.done = false →
      s.completed = false → s.pc = .body (reqQueue d) e → Flight d n s
  | noted : Ready (u16 (n + 1)) (s.queue (reqQueue d)) → d = .blk → s.completed = true →
      s.pc = .check 0 → Flight d n s
  | done : Ready (u16 (n + 1)) (s.queue (reqQueue d)) → s.done = true → s.completed = false →
      ¬ Popping d s.pc → Flight d n s

/-- What a call has done to the queue of a device so far. -/
inductive Phase where
  /-- Nothing that counts. -/
  | free
  /-- It has cleared the flag. -/
  | armed
  /-- It has written the slot. -/
  | written
  /-- It has raised the index, and counted the request or not. -/
  | flight (counted : Bool)

/-- The phase a device is in. -/
def phaseOf (d : VirtioDev) : CallPc → Phase
  | .ring c => if c.dev = d then .armed else .free
  | .index c => if c.dev = d then .written else .free
  | .submit c => if c.dev = d then .flight false else .free
  | .notify c => if c.dev = d then .flight true else .free
  | .loop c => if c.dev = d then .flight true else .free
  | .window c => if c.dev = d then .flight true else .free
  | .idle => .free
  | .fill _ => .free
  | .descs _ => .free
  | .reset _ => .free
  | .finish _ => .free

/-- The queue is ready and counted, and the handler finds nothing on it. -/
structure Resting (d : VirtioDev) (s : DevState) : Prop where
  ready : ∃ n, Ready n (s.queue (reqQueue d)) ∧ (s.queue (reqQueue d)).vq.submittedIndex = n
  completed : s.completed = false
  popping : ¬ Popping d s.pc

/-- What holds of a device in a phase. -/
def DevOk (d : VirtioDev) (s : DevState) : Phase → Prop
  | .free => Resting d s
  | .armed => Resting d s ∧ s.done = false
  | .written => Resting d s ∧ s.done = false
      ∧ (s.queue (reqQueue d)).vq.availRing
          ((s.queue (reqQueue d)).vq.availIndex % virtqEntryNum) = 0
  | .flight counted => ∃ n, Flight d n s
      ∧ (s.queue (reqQueue d)).vq.submittedIndex = if counted then u16 (n + 1) else n

section

variable {d : VirtioDev} {n : Nat} {s s' : DevState} {q q' : Queue}

/-- A queue on which the driver has caught up with the device has nothing to pop. -/
theorem virtqHasUsed_of_caught_up (h : q.vq.usedIndex = q.vq.consumedUsedIndex) :
    virtqHasUsed q.vq = false := by
  unfold virtqHasUsed
  rw [h]
  exact decide_eq_false (not_not_intro rfl)

theorem Ready.not_used (h : Ready n q) : virtqHasUsed q.vq = false :=
  virtqHasUsed_of_caught_up (h.used.trans h.consumed.symm)

theorem Offered.not_used (h : Offered n q) : virtqHasUsed q.vq = false :=
  virtqHasUsed_of_caught_up (h.used.trans h.consumed.symm)

theorem InDevice.not_used (h : InDevice n q) : virtqHasUsed q.vq = false :=
  virtqHasUsed_of_caught_up (h.used.trans h.consumed.symm)

/-! ## The device -/

/-- Nothing under way is nothing for the device to do. -/
theorem Ready.no_device (h : Ready n q) {ev : DeviceEvent} : ¬ DeviceStep q ev q' := by
  intro hs
  cases hs with
  | take hne => exact hne (h.last.trans h.avail.symm)
  | fill _ hd =>
      rw [h.held] at hd
      cases hd
  | publish hf =>
      rw [h.filled] at hf
      cases hf

theorem Offered.device (h : Offered n q) {ev : DeviceEvent} (hs : DeviceStep q ev q') :
    InDevice n q' := by
  cases hs with
  | take _ =>
      have hnext : q.nextAvail = 0 := by
        unfold Queue.nextAvail
        rw [h.last]
        exact h.slot
      refine ⟨h.lt, h.avail, ?_, h.used, h.consumed, ?_, fun e he => ?_⟩
      · show u16 (q.dev.lastAvail + 1) = _
        rw [h.last]
      · show q.dev.held ++ [q.nextAvail] = [0]
        rw [h.held, hnext]
        rfl
      · have he : q.dev.filled = some e := he
        rw [h.filled] at he
        cases he
  | fill _ hd =>
      rw [h.held] at hd
      cases hd
  | publish hf =>
      rw [h.filled] at hf
      cases hf

theorem InDevice.publish (h : InDevice n q) {e : VirtqUsedElem} (hf : q.dev.filled = some e) :
    Published n ⟨virtqPublish q.vq, ⟨q.dev.lastAvail, q.dev.held.erase e.id, none⟩⟩ := by
  refine ⟨h.lt, h.avail, h.last, ?_, h.consumed, ?_, rfl⟩
  · show u16 (q.vq.usedIndex + 1) = _
    rw [h.used]
  · show q.dev.held.erase e.id = []
    rw [h.held, h.filled e hf]
    rfl

theorem InDevice.device (h : InDevice n q) {ev : DeviceEvent} (hs : DeviceStep q ev q') :
    InDevice n q' ∨ Published n q' := by
  cases hs with
  | take hne => exact absurd (h.last.trans h.avail.symm) hne
  | @fill d len _ hd _ =>
      rw [h.held, List.mem_singleton] at hd
      refine Or.inl ⟨h.lt, h.avail, h.last, h.used, h.consumed, h.held, ?_⟩
      rintro e ⟨⟩
      exact hd
  | publish hf => exact Or.inr (h.publish hf)

theorem Published.no_device (h : Published n q) {ev : DeviceEvent} : ¬ DeviceStep q ev q' := by
  intro hs
  cases hs with
  | take hne => exact hne (h.last.trans h.avail.symm)
  | fill _ hd =>
      rw [h.held] at hd
      cases hd
  | publish hf =>
      rw [h.filled] at hf
      cases hf

/-- The device does not count requests, nor describe or offer any. -/
theorem deviceStep_keeps {ev : DeviceEvent} (hs : DeviceStep q ev q') :
    q'.vq.submittedIndex = q.vq.submittedIndex ∧ q'.vq.descs = q.vq.descs
      ∧ q'.vq.availIndex = q.vq.availIndex := by
  cases hs with
  | take _ => exact ⟨rfl, rfl, rfl⟩
  | fill _ _ _ => exact ⟨rfl, rfl, rfl⟩
  | publish _ => exact ⟨rfl, rfl, rfl⟩

/-- **A step of a device on the queue of its requests.** -/
theorem Flight.device (h : Flight d n s) {ev : DeviceEvent}
    (hs : DeviceStep (s.queue (reqQueue d)) ev q') :
    Flight d n { s with queue := Function.update s.queue (reqQueue d) q' } := by
  have hto : ∀ P : Queue → Prop, P q' → P (Function.update s.queue (reqQueue d) q' (reqQueue d)) :=
    fun P h => (Function.update_self (reqQueue d) q' s.queue).symm ▸ h
  cases h with
  | offered ho hd hc hp => exact .inDevice (hto (InDevice n) (ho.device hs)) hd hc hp
  | inDevice hi hd hc hp =>
      rcases hi.device hs with h1 | h1
      · exact .inDevice (hto (InDevice n) h1) hd hc hp
      · refine .published (hto (Published n) h1) hd hc fun e he => hp ?_
        rw [show s.pc = .body (reqQueue d) e from he]
        rfl
  | published hq _ _ _ => exact absurd hs hq.no_device
  | popped hq _ _ _ => exact absurd hs hq.no_device
  | noted hq _ _ _ => exact absurd hs hq.no_device
  | done hq _ _ _ => exact absurd hs hq.no_device

/-! ## The handler -/

/-- **A handler on a queue that has nothing to pop** leaves it alone, and the flag. -/
theorem handlerStep_quiet (hs : HandlerStep d s s') (hr : InRange d s.pc)
    (hu : virtqHasUsed (s.queue (reqQueue d)).vq = false) (hc : s.completed = false)
    (hp : ¬ Popping d s.pc) :
    s'.queue (reqQueue d) = s.queue (reqQueue d) ∧ s'.done = s.done ∧ s'.completed = false
      ∧ ¬ Popping d s'.pc := by
  cases hs with
  | enter _ => exact ⟨rfl, rfl, hc, id⟩
  | nothing _ => exact ⟨rfl, rfl, hc, id⟩
  | status _ => exact ⟨rfl, rfl, hc, id⟩
  | @ack st _ =>
      refine ⟨rfl, rfl, hc, ?_⟩
      show ¬ Popping d (if st.usedBuffer then .check 0 else .idle)
      split <;> exact id
  | @more q hpc hused =>
      refine ⟨rfl, rfl, hc, fun he => ?_⟩
      have he : q = reqQueue d := he
      rw [he, hu] at hused
      cases hused
  | next _ => exact ⟨rfl, rfl, hc, id⟩
  | leave _ =>
      cases d with
      | blk =>
          refine ⟨rfl, ?_, rfl, id⟩
          show (s.done || s.completed) = s.done
          rw [hc, Bool.or_false]
      | net => exact ⟨rfl, rfl, hc, id⟩
  | @read q hpc =>
      rw [hpc] at hp
      exact ⟨rfl, rfl, hc, hp⟩
  | @consume q e hpc =>
      rw [hpc] at hp
      exact ⟨setVq_other (Ne.symm hp) _, rfl, hc, hp⟩
  | @body q e hpc =>
      rw [hpc] at hp hr
      have hp : ¬ q = reqQueue d := hp
      cases d with
      | blk => exact absurd (Nat.lt_one_iff.mp hr) hp
      | net =>
          -- the other queue of the network device is the receive queue
          have hq : q = netRxQueue := by
            have hr : q < 2 := hr
            have hp : q ≠ 1 := hp
            show q = 0
            omega
          unfold drainBody
          dsimp only
          rw [if_pos hq]
          exact ⟨setVq_other (Ne.symm hp) _, rfl, hc, id⟩

/-- While nothing is under way, a handler finds nothing to pop. -/
theorem Resting.handler (h : Resting d s) (hr : InRange d s.pc) (hs : HandlerStep d s s') :
    Resting d s' ∧ s'.queue (reqQueue d) = s.queue (reqQueue d) ∧ s'.done = s.done := by
  obtain ⟨m, hready, _⟩ := h.ready
  obtain ⟨hq, hd, hc, hp⟩ := handlerStep_quiet hs hr hready.not_used h.completed h.popping
  exact ⟨⟨hq ▸ h.ready, hc, hp⟩, hq, hd⟩

/-- A published element is popped by the handler, and by it only once. -/
theorem Published.handler (h : Published n (s.queue (reqQueue d))) (hd : s.done = false)
    (hc : s.completed = false) (hb : ∀ e, s.pc ≠ .body (reqQueue d) e) (hr : InRange d s.pc)
    (hs : HandlerStep d s s') : Flight d n s' := by
  have hu : virtqHasUsed (s.queue (reqQueue d)).vq = true := by
    unfold virtqHasUsed
    rw [h.used, h.consumed]
    refine decide_eq_true ?_
    unfold u16
    omega
  cases hs with
  | enter _ => exact .published h hd hc fun _ he => by cases he
  | nothing _ => exact .published h hd hc fun _ he => by cases he
  | status _ => exact .published h hd hc fun _ he => by cases he
  | @ack st _ =>
      refine .published h hd hc fun e => ?_
      show (if st.usedBuffer then IrqPc.check 0 else .idle) ≠ _
      split <;> (intro he; cases he)
  | more _ _ => exact .published h hd hc fun _ he => by cases he
  | next _ _ _ => exact .published h hd hc fun _ he => by cases he
  | @leave q hpc hused hlast =>
      -- the last queue that is drained is the one of the requests
      rw [hpc] at hr
      have hq : q = reqQueue d := by
        cases d with
        | blk => exact Nat.lt_one_iff.mp hr
        | net =>
            have hr : q < 2 := hr
            have hlast : ¬ q + 1 < 2 := hlast
            show q = 1
            omega
      rw [hq, hu] at hused
      cases hused
  | read _ => exact .published h hd hc fun _ he => by cases he
  | @consume q e hpc =>
      by_cases hq : q = reqQueue d
      · subst hq
        refine .popped (e := e) ⟨?_, ?_, ?_, ?_, ?_, ?_, ?_⟩ hd hc rfl
        · exact Nat.mod_lt _ (by decide)
        · rw [setVq_self]; exact h.avail
        · simp only [DevState.setVq, Function.update_self]; exact h.last
        · rw [setVq_self]; exact h.used
        · rw [setVq_self]
          show u16 ((s.queue (reqQueue d)).vq.consumedUsedIndex + 1) = _
          rw [h.consumed]
        · simp only [DevState.setVq, Function.update_self]; exact h.held
        · simp only [DevState.setVq, Function.update_self]; exact h.filled
      · refine .published ?_ hd hc fun e' he => hq ?_
        · rw [setVq_other (Ne.symm hq)]; exact h
        · injection he
  | @body q e hpc =>
      rw [hpc] at hr
      have hq : q ≠ reqQueue d := fun he => hb e (he ▸ hpc)
      cases d with
      | blk => exact absurd (Nat.lt_one_iff.mp hr) hq
      | net =>
          have hrx : q = netRxQueue := by
            have hr : q < 2 := hr
            have hq : q ≠ 1 := hq
            show q = 0
            omega
          unfold drainBody
          dsimp only
          rw [if_pos hrx]
          exact .published (by rw [setVq_other (Ne.symm hq)]; exact h) hd hc fun _ he => by cases he

/-- **A step of a handler while a request is under way.** -/
theorem Flight.handler (h : Flight d n s) (hr : InRange d s.pc) (hs : HandlerStep d s s') :
    Flight d n s' := by
  cases h with
  | offered ho hd hc hp =>
      obtain ⟨h1, h2, h3, h4⟩ := handlerStep_quiet hs hr ho.not_used hc hp
      exact .offered (h1.symm ▸ ho) (h2.trans hd) h3 h4
  | inDevice hi hd hc hp =>
      obtain ⟨h1, h2, h3, h4⟩ := handlerStep_quiet hs hr hi.not_used hc hp
      exact .inDevice (h1.symm ▸ hi) (h2.trans hd) h3 h4
  | published hq hd hc hb => exact hq.handler hd hc hb hr hs
  | @popped e hq hd hc hpc =>
      cases hs with
      | @body q e' hpc' =>
          rw [hpc] at hpc'
          injection hpc' with hqq he
          subst hqq
          cases d with
          | blk => exact .noted hq rfl rfl rfl
          | net => exact .done hq rfl hc id
      | enter h => rw [hpc] at h; cases h
      | nothing h => rw [hpc] at h; cases h
      | status h => rw [hpc] at h; cases h
      | ack h => rw [hpc] at h; cases h
      | more h => rw [hpc] at h; cases h
      | next h => rw [hpc] at h; cases h
      | leave h => rw [hpc] at h; cases h
      | read h => rw [hpc] at h; cases h
      | consume h => rw [hpc] at h; cases h
  | noted hq hblk hc hpc =>
      subst hblk
      cases hs with
      | @leave q hpc' _ _ =>
          refine .done hq ?_ rfl id
          show (s.done || s.completed) = true
          rw [hc, Bool.or_true]
      | @more q hpc' hused =>
          rw [hpc] at hpc'
          injection hpc' with hqq
          subst hqq
          rw [show (0 : Nat) = reqQueue .blk from rfl, hq.not_used] at hused
          cases hused
      | @next q hpc' _ hlt =>
          rw [hpc] at hpc'
          injection hpc' with hqq
          subst hqq
          exact absurd hlt (by decide)
      | enter h => rw [hpc] at h; cases h
      | nothing h => rw [hpc] at h; cases h
      | status h => rw [hpc] at h; cases h
      | ack h => rw [hpc] at h; cases h
      | read h => rw [hpc] at h; cases h
      | consume h => rw [hpc] at h; cases h
      | body h => rw [hpc] at h; cases h
  | done hq hd hc hp =>
      obtain ⟨h1, h2, h3, h4⟩ := handlerStep_quiet hs hr hq.not_used hc hp
      exact .done (h1.symm ▸ hq) (h2.trans hd) h3 h4

theorem InRange.handler (hr : InRange d s.pc) (hs : HandlerStep d s s') : InRange d s'.pc := by
  cases hs with
  | enter _ => trivial
  | nothing _ => trivial
  | status _ => trivial
  | @ack st _ =>
      show InRange d (if st.usedBuffer then .check 0 else .idle)
      split
      · show 0 < d.queues
        cases d <;> decide
      · trivial
  | more hpc => rw [hpc] at hr; exact hr
  | next _ _ hlt => exact hlt
  | leave _ => cases d <;> trivial
  | read hpc => rw [hpc] at hr; exact hr
  | consume hpc => rw [hpc] at hr; exact hr
  | @body q e hpc =>
      rw [hpc] at hr
      cases d with
      | blk => exact hr
      | net =>
          unfold drainBody
          dsimp only
          split <;> exact hr

/-- The handler does not count requests, nor describe or offer any. -/
theorem handlerStep_keeps (hs : HandlerStep d s s') :
    (s'.queue (reqQueue d)).vq.submittedIndex = (s.queue (reqQueue d)).vq.submittedIndex
      ∧ (s'.queue (reqQueue d)).vq.descs = (s.queue (reqQueue d)).vq.descs
      ∧ (s'.queue (reqQueue d)).vq.availIndex = (s.queue (reqQueue d)).vq.availIndex := by
  cases hs with
  | @consume q e _ =>
      by_cases hq : reqQueue d = q
      · rw [← hq, setVq_self]; exact ⟨rfl, rfl, rfl⟩
      · rw [setVq_other hq]; exact ⟨rfl, rfl, rfl⟩
  | @body q e _ =>
      cases d with
      | blk => exact ⟨rfl, rfl, rfl⟩
      | net =>
          unfold drainBody
          dsimp only
          split
          · -- a received frame goes back to the other queue
            rename_i hq
            rw [setVq_other (show reqQueue .net ≠ q by rw [hq]; decide)]
            exact ⟨rfl, rfl, rfl⟩
          · exact ⟨rfl, rfl, rfl⟩
  | leave _ => cases d <;> exact ⟨rfl, rfl, rfl⟩
  | _ => exact ⟨rfl, rfl, rfl⟩

/-! ## Phases -/

theorem Flight.congr (h : Flight d n s) (hq : s'.queue (reqQueue d) = s.queue (reqQueue d))
    (hd : s'.done = s.done) (hc : s'.completed = s.completed) (hp : s'.pc = s.pc) :
    Flight d n s' := by
  cases h with
  | offered h1 h2 h3 h4 => exact .offered (hq ▸ h1) (hd.trans h2) (hc.trans h3) (hp ▸ h4)
  | inDevice h1 h2 h3 h4 => exact .inDevice (hq ▸ h1) (hd.trans h2) (hc.trans h3) (hp ▸ h4)
  | published h1 h2 h3 h4 => exact .published (hq ▸ h1) (hd.trans h2) (hc.trans h3) (hp ▸ h4)
  | popped h1 h2 h3 h4 => exact .popped (hq ▸ h1) (hd.trans h2) (hc.trans h3) (hp.trans h4)
  | noted h1 h2 h3 h4 => exact .noted (hq ▸ h1) h2 (hc.trans h3) (hp.trans h4)
  | done h1 h2 h3 h4 => exact .done (hq ▸ h1) (hd.trans h2) (hc.trans h3) (hp ▸ h4)

/-- Only the queue, the flag, `completed` and the place of the handler count. -/
theorem DevOk.congr {ph : Phase} (h : DevOk d s ph)
    (hq : s'.queue (reqQueue d) = s.queue (reqQueue d)) (hd : s'.done = s.done)
    (hc : s'.completed = s.completed) (hp : s'.pc = s.pc) : DevOk d s' ph := by
  have hrest : Resting d s → Resting d s' := fun h =>
    ⟨hq ▸ h.ready, hc.trans h.completed, hp ▸ h.popping⟩
  cases ph with
  | free => exact hrest h
  | armed => exact ⟨hrest h.1, hd.trans h.2⟩
  | written => exact ⟨hrest h.1, hd.trans h.2.1, hq ▸ h.2.2⟩
  | flight counted =>
      obtain ⟨n, hf, hsub⟩ := h
      exact ⟨n, hf.congr hq hd hc hp, hq ▸ hsub⟩

/-- **A step of a handler**, wherever it interrupts the call. -/
theorem DevOk.handler {ph : Phase} (h : DevOk d s ph) (hr : InRange d s.pc)
    (hs : HandlerStep d s s') : DevOk d s' ph := by
  cases ph with
  | free => exact (Resting.handler h hr hs).1
  | armed =>
      obtain ⟨hrest, _, hd⟩ := h.1.handler hr hs
      exact ⟨hrest, hd.trans h.2⟩
  | written =>
      obtain ⟨hrest, hq, hd⟩ := h.1.handler hr hs
      exact ⟨hrest, hd.trans h.2.1, hq ▸ h.2.2⟩
  | flight counted =>
      obtain ⟨n, hf, hsub⟩ := h
      exact ⟨n, hf.handler hr hs, (handlerStep_keeps hs).1.trans hsub⟩

theorem DevOk.device {ph : Phase} {k : Nat} {ev : DeviceEvent} (h : DevOk d s ph)
    (hs : DeviceStep (s.queue k) ev q') :
    DevOk d { s with queue := Function.update s.queue k q' } ph := by
  by_cases hk : k = reqQueue d
  · subst hk
    have hrest : ¬ Resting d s := by
      rintro ⟨⟨m, hm, _⟩, _, _⟩
      exact hm.no_device hs
    cases ph with
    | free => exact absurd h hrest
    | armed => exact absurd h.1 hrest
    | written => exact absurd h.1 hrest
    | flight counted =>
        obtain ⟨n, hf, hsub⟩ := h
        refine ⟨n, hf.device hs, ?_⟩
        dsimp only
        rw [Function.update_self, (deviceStep_keeps hs).1]
        exact hsub
  · refine h.congr ?_ rfl rfl rfl
    exact Function.update_of_ne (Ne.symm hk) ..

theorem setVq_queue (s : DevState) (k : Nat) (vq : Virtq) :
    (s.setVq k vq).queue k = { s.queue k with vq := vq } := Function.update_self ..

/-- The driver changes what the counters do not see. -/
theorem Resting.setVq (h : Resting d s) {vq : Virtq}
    (ha : vq.availIndex = (s.queue (reqQueue d)).vq.availIndex)
    (hu : vq.usedIndex = (s.queue (reqQueue d)).vq.usedIndex)
    (hc : vq.consumedUsedIndex = (s.queue (reqQueue d)).vq.consumedUsedIndex)
    (hs : vq.submittedIndex = (s.queue (reqQueue d)).vq.submittedIndex) :
    Resting d (s.setVq (reqQueue d) vq) := by
  obtain ⟨n, hn, hsub⟩ := h.ready
  refine ⟨⟨n, ?_, ?_⟩, h.completed, h.popping⟩
  · rw [setVq_queue]
    exact ⟨hn.lt, ha.trans hn.avail, hn.last, hu.trans hn.used, hc.trans hn.consumed, hn.held,
      hn.filled⟩
  · rw [setVq_queue]
    exact hs.trans hsub

/-- The slot is written. -/
theorem DevOk.ring (h : DevOk d s .armed) :
    DevOk d (s.setVq (reqQueue d) (virtqPushRing (s.queue (reqQueue d)).vq 0)) .written := by
  refine ⟨h.1.setVq rfl rfl rfl rfl, h.2, ?_⟩
  rw [setVq_queue]
  exact Function.update_self ..

/-- The index is raised: the request is under way. -/
theorem DevOk.index (h : DevOk d s .written) :
    DevOk d (s.setVq (reqQueue d) (virtqPushIndex (s.queue (reqQueue d)).vq)) (.flight false) := by
  obtain ⟨⟨⟨n, hn, hsub⟩, hc, hp⟩, hd, hslot⟩ := h
  rw [hn.avail] at hslot
  refine ⟨n, .offered ?_ hd hc hp, ?_⟩
  · rw [setVq_queue]
    refine ⟨hn.lt, ?_, hslot, hn.last, hn.used, hn.consumed, hn.held, hn.filled⟩
    show u16 ((s.queue (reqQueue d)).vq.availIndex + 1) = _
    rw [hn.avail]
  · rw [setVq_queue]
    exact hsub

theorem Flight.submit (h : Flight d n s) :
    Flight d n (s.setVq (reqQueue d) (virtqSubmit (s.queue (reqQueue d)).vq)) := by
  have hq := setVq_queue s (reqQueue d) (virtqSubmit (s.queue (reqQueue d)).vq)
  -- Counting the request changes no index that the stages speak about.
  have hready : ∀ m, Ready m (s.queue (reqQueue d)) → Ready m
      ((s.setVq (reqQueue d) (virtqSubmit (s.queue (reqQueue d)).vq)).queue (reqQueue d)) := by
    intro m hr
    rw [hq]
    exact ⟨hr.lt, hr.avail, hr.last, hr.used, hr.consumed, hr.held, hr.filled⟩
  cases h with
  | offered h1 h2 h3 h4 =>
      refine .offered ?_ h2 h3 h4
      rw [hq]
      exact ⟨h1.lt, h1.avail, h1.slot, h1.last, h1.used, h1.consumed, h1.held, h1.filled⟩
  | inDevice h1 h2 h3 h4 =>
      refine .inDevice ?_ h2 h3 h4
      rw [hq]
      exact ⟨h1.lt, h1.avail, h1.last, h1.used, h1.consumed, h1.held, h1.filled⟩
  | published h1 h2 h3 h4 =>
      refine .published ?_ h2 h3 h4
      rw [hq]
      exact ⟨h1.lt, h1.avail, h1.last, h1.used, h1.consumed, h1.held, h1.filled⟩
  | popped h1 h2 h3 h4 => exact .popped (hready _ h1) h2 h3 h4
  | noted h1 h2 h3 h4 => exact .noted (hready _ h1) h2 h3 h4
  | done h1 h2 h3 h4 => exact .done (hready _ h1) h2 h3 h4

/-- The request is counted. -/
theorem DevOk.submit (h : DevOk d s (.flight false)) :
    DevOk d (s.setVq (reqQueue d) (virtqSubmit (s.queue (reqQueue d)).vq)) (.flight true) := by
  obtain ⟨n, hf, hsub⟩ := h
  have hsub : (s.queue (reqQueue d)).vq.submittedIndex = n := hsub
  refine ⟨n, hf.submit, ?_⟩
  rw [setVq_queue]
  show u16 ((s.queue (reqQueue d)).vq.submittedIndex + 1) = u16 (n + 1)
  rw [hsub]

/-- A request that is done and whose handler has returned leaves the queue ready. -/
theorem DevOk.ret (h : DevOk d s (.flight true)) (hdone : s.done = true) (hpc : s.pc = .idle) :
    DevOk d s .free := by
  obtain ⟨n, hf, hsub⟩ := h
  have hsub : (s.queue (reqQueue d)).vq.submittedIndex = u16 (n + 1) := hsub
  cases hf with
  | offered _ h _ _ => rw [hdone] at h; cases h
  | inDevice _ h _ _ => rw [hdone] at h; cases h
  | published _ h _ _ => rw [hdone] at h; cases h
  | popped _ h _ _ => rw [hdone] at h; cases h
  | noted _ _ _ h => rw [hpc] at h; cases h
  | done hr _ hc hp => exact ⟨⟨_, hr, hsub⟩, hc, hp⟩

end

end Os1000.Proof
