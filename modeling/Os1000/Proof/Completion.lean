import Os1000.Lib.Run
import Os1000.Virtio.Interrupt

/-!
# No completion is lost

A handler clears bit 0 and then drains the queues, so an element that was published
before it looked at a queue for the last time is popped, and one that was published
after is followed by bit 0 being raised after. The queues a running handler has still
to drain are the exception the invariant makes.
-/

namespace Os1000.Proof

open Os1000 Lib

/-- The handler is not going to drain queue `q` before it returns. -/
def PastDrain (q : Nat) : IrqPc → Prop
  | .idle => True
  | .status => True
  | .ack _ => True
  | .check q' => q < q'
  | .read q' => q < q'
  | .consume q' _ => q < q'
  | .body q' _ => q < q'

/-- An unpopped element of a queue past draining has bit 0 set, or the device has still to set it. -/
def Announced (d : VirtioDev) (s : DevState) : Prop :=
  ∀ q, q < d.queues → PastDrain q s.pc → virtqHasUsed (s.queue q).vq = true →
    s.status.usedBuffer = true ∨ 0 < s.owed

section

variable {d : VirtioDev} {s s' : DevState}

@[simp] theorem setVq_self (s : DevState) (q : Nat) (vq : Virtq) :
    ((s.setVq q vq).queue q).vq = vq := by
  simp [DevState.setVq]

theorem setVq_other {q q' : Nat} (h : q' ≠ q) (vq : Virtq) :
    (s.setVq q vq).queue q' = s.queue q' := by
  simp [DevState.setVq, Function.update_of_ne h]

theorem announced_start (h : IrqStart s) : Announced d s := by
  intro q _ _ hused
  rw [h.1 q] at hused
  cases hused

/-- A step that neither pops nor publishes, clears nothing and passes no queue with elements. -/
theorem Announced.keep (h : Announced d s) (hq : ∀ q, virtqHasUsed (s'.queue q).vq = true →
      virtqHasUsed (s.queue q).vq = true)
    (hset : ∀ q, q < d.queues → PastDrain q s'.pc → virtqHasUsed (s.queue q).vq = true → PastDrain q s.pc)
    (hbit : s.status.usedBuffer = true → s'.status.usedBuffer = true) (howed : s'.owed = s.owed) :
    Announced d s' := by
  intro q hlt hs hused
  have hold := hq q hused
  rcases h q hlt (hset q hlt hs hold) hold with hb | ho
  · exact Or.inl (hbit hb)
  · exact Or.inr (howed ▸ ho)

/-- **One step of the handler.** -/
theorem announced_handler (h : Announced d s) (hs : HandlerStep d s s') : Announced d s' := by
  cases hs with
  | enter hpc => exact h.keep (fun _ => id) (fun q _ _ _ => by rw [hpc]; trivial) id rfl
  | nothing hpc => exact h.keep (fun _ => id) (fun q _ _ _ => by rw [hpc]; trivial) id rfl
  | status hpc => exact h.keep (fun _ => id) (fun q _ _ _ => by rw [hpc]; trivial) id rfl
  | @ack st hpc =>
      cases hst : st.usedBuffer with
      | true =>
          -- bit 0 is cleared, and every queue is drained from here on
          intro q _ hset _
          dsimp only at hset
          rw [if_pos rfl] at hset
          exact absurd hset (Nat.not_lt_zero q)
      | false =>
          refine h.keep (fun _ => id) (fun q _ _ _ => by rw [hpc]; trivial) ?_ rfl
          intro hb
          show (s.status.usedBuffer && !st.usedBuffer) = true
          rw [hb, hst]
          rfl
  | @more q hpc hused =>
      exact h.keep (fun _ => id) (fun q' _ hset _ => by rw [hpc]; exact hset) id rfl
  | @next q hpc hused hlt =>
      refine h.keep (fun _ => id) (fun q' _ hset hold => ?_) id rfl
      -- the queue just drained is empty, the others were past draining before
      rw [hpc]
      by_cases he : q' = q
      · rw [he, hused] at hold
        cases hold
      · have hset : q' < q + 1 := hset
        show q' < q
        omega
  | @leave q hpc hused hlt =>
      have hkeep : ∀ q', q' < d.queues → virtqHasUsed (s.queue q').vq = true → PastDrain q' s.pc := by
        intro q' hq' hold
        rw [hpc]
        by_cases he : q' = q
        · rw [he, hused] at hold
          cases hold
        · show q' < q
          omega
      cases d with
      | blk => exact h.keep (fun _ => id) (fun q' hq' _ hold => hkeep q' hq' hold) id rfl
      | net => exact h.keep (fun _ => id) (fun q' hq' _ hold => hkeep q' hq' hold) id rfl
  | @read q hpc =>
      exact h.keep (fun _ => id) (fun q' _ hset _ => by rw [hpc]; exact hset) id rfl
  | @consume q e hpc =>
      -- the queue that is popped from is still to be drained
      intro q' hlt hset hused
      have hset : q' < q := hset
      rw [setVq_other (by omega)] at hused
      exact h q' hlt (by rw [hpc]; exact hset) hused
  | @body q e hpc =>
      cases d with
      | blk => exact h.keep (fun _ => id) (fun q' _ hset _ => by rw [hpc]; exact hset) id rfl
      | net =>
          unfold drainBody
          dsimp only
          split
          · intro q' hlt hset hused
            have hset : q' < q := hset
            rw [setVq_other (by omega)] at hused
            exact h q' hlt (by rw [hpc]; exact hset) hused
          · exact h.keep (fun _ => id) (fun q' _ hset _ => by rw [hpc]; exact hset) id rfl

/-- **Every step.** -/
theorem announced_step (h : Announced d s) (hs : IrqStep d s () s') : Announced d s' := by
  cases hs with
  | handler hs => exact announced_handler h hs
  | publish _ => exact fun _ _ _ _ => Or.inr (Nat.succ_pos _)
  | raise _ => exact fun _ _ _ _ => Or.inl rfl
  | config => exact h.keep (fun _ => id) (fun _ _ hset _ => hset) id rfl

/--
**No completion is lost.** Whatever the device and its handler have done so far: if no handler is
running, the device has raised bit 0 for everything it has published, and some queue has an element
that was not popped, then bit 0 is set.
-/
theorem no_lost_completion {tr : List Unit} (hr : Run IrqStart (IrqStep d) tr s)
    (hidle : s.pc = .idle) (howed : s.owed = 0) {q : Nat} (hq : q < d.queues)
    (hused : (s.queue q).vq.usedIndex ≠ (s.queue q).vq.consumedUsedIndex) :
    s.status.usedBuffer = true := by
  have h := hr.invariant (P := Announced d) (fun _ h => announced_start h)
    fun _ _ _ h hs => announced_step h hs
  rcases h q hq (by rw [hidle]; trivial) (decide_eq_true hused.symm) with hb | ho
  · exact hb
  · omega

end

/-- A handler has popped the element that it was called for and gone on to the other queue when one
more is received. When it returns, that one is left, and the bit is set again. -/
theorem no_lost_completion_again : ∃ tr s, Run IrqStart (IrqStep .net) tr s ∧ s.pc = .idle
    ∧ (s.queue 0).vq.consumedUsedIndex = 1 ∧ (s.queue 0).vq.usedIndex = 2
    ∧ s.status.usedBuffer = true := by
  have h0 : Run IrqStart (IrqStep .net) []
      ⟨fun _ => Queue.fresh, ⟨false, false⟩, 0, false, false, .idle, 0⟩ :=
    .start ⟨fun _ => rfl, rfl, rfl⟩
  have h1 := h0.snoc (.publish (q := 0) (e := ⟨0, 60⟩) (by decide))
  have h2 := h1.snoc (.raise (by decide))
  have h3 := h2.snoc (.handler (.enter rfl))
  have h4 := h3.snoc (.handler (.status rfl rfl))
  have h5 := h4.snoc (.handler (.ack rfl))
  have h6 := h5.snoc (.handler (.more (q := 0) rfl rfl))
  have h7 := h6.snoc (.handler (.read rfl))
  have h8 := h7.snoc (.handler (.consume rfl))
  have h9 := h8.snoc (.handler (.body rfl))
  have h10 := h9.snoc (.handler (.next (q := 0) rfl rfl (by decide)))
  have h11 := h10.snoc (.publish (q := 0) (e := ⟨1, 60⟩) (by decide))
  have h12 := h11.snoc (.raise (by decide))
  have h13 := h12.snoc (.handler (.leave (q := 1) rfl rfl (by decide)))
  exact ⟨_, _, h13, rfl, rfl, rfl, no_lost_completion h13 rfl rfl (q := 0) (by decide) (by decide)⟩

end Os1000.Proof
