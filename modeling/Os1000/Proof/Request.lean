import Os1000.Lib.Run
import Os1000.Proof.Flight

/-!
# One request at a time

Of the two devices at most one has a request under way, the one whose call the kernel is
in, and how far that call has come says what its queue looks like (`DevOk`). Handlers and
devices keep this at any time they can run, and the steps of a call lead from one phase
to the next.
-/

namespace Os1000.Proof

open Os1000 Lib

/-- The invariant. -/
structure DriversInv (s : Drivers) : Prop where
  dev : ∀ d, DevOk d (s.dev d) (phaseOf d s.call)
  range : ∀ d, InRange d (s.dev d).pc
  /-- With interrupts off no handler is running. -/
  off : ¬ InterruptsOn s.sie s.call → NoHandler s

/-! ## Steps and runs -/

section

variable {s s' : Drivers}

theorem setDev_self (s : Drivers) (d : VirtioDev) (t : DevState) : (s.setDev d t).dev d = t :=
  Function.update_self ..

theorem setDev_other {d d' : VirtioDev} (h : d' ≠ d) (s : Drivers) (t : DevState) :
    (s.setDev d t).dev d' = s.dev d' := Function.update_of_ne h ..

/-- A step of a call changes the state of its device, and its phase. -/
theorem DriversInv.call (h : DriversInv s) (c : Call) (pc : CallPc) {t : DevState}
    (hoff : NoHandler s) (hcall : s'.call = pc) (hself : s'.dev c.dev = t)
    (hother : ∀ d, d ≠ c.dev → s'.dev d = s.dev d) (hpc : t.pc = (s.dev c.dev).pc)
    (hphase : ∀ d, d ≠ c.dev → phaseOf d pc = phaseOf d s.call)
    (ht : DevOk c.dev t (phaseOf c.dev pc)) : DriversInv s' := by
  have hidle : NoHandler s' := by
    intro d
    by_cases hd : d = c.dev
    · rw [hd, hself, hpc]; exact hoff c.dev
    · rw [hother d hd]; exact hoff d
  refine ⟨fun d => ?_, fun d => by rw [hidle d]; trivial, fun _ => hidle⟩
  rw [hcall]
  by_cases hd : d = c.dev
  · rw [hd, hself]; exact ht
  · rw [hother d hd, hphase d hd]; exact h.dev d

/-- A call that moves on, with nothing changed on its queue. -/
theorem DriversInv.move (h : DriversInv s) {pc : CallPc} (hdev : s'.dev = s.dev)
    (hcall : s'.call = pc) (hphase : ∀ d, phaseOf d pc = phaseOf d s.call)
    (hoff : NoHandler s) : DriversInv s' := by
  refine ⟨fun d => ?_, fun d => by rw [hdev]; exact h.range d, fun _ d => by rw [hdev]; exact hoff d⟩
  rw [hdev, hcall, hphase d]
  exact h.dev d

/-- What a handler or a device does is between the calls' steps: the call stays where it is. -/
theorem DriversInv.setDev (h : DriversInv s) {d : VirtioDev} {t : DevState}
    (hdev : DevOk d t (phaseOf d s.call)) (hrange : InRange d t.pc)
    (hidle : ¬ InterruptsOn s.sie s.call → t.pc = .idle) : DriversInv (s.setDev d t) := by
  refine ⟨fun d' => ?_, fun d' => ?_, fun hoff d' => ?_⟩
  · by_cases hd : d' = d
    · rw [hd, setDev_self]
      exact hdev
    · rw [setDev_other hd]
      exact h.dev d'
  · by_cases hd : d' = d
    · rw [hd, setDev_self]
      exact hrange
    · rw [setDev_other hd]
      exact h.range d'
  · by_cases hd : d' = d
    · rw [hd, setDev_self]
      exact hidle hoff
    · rw [setDev_other hd]
      exact h.off hoff d'

theorem driversInv_start (h : DriversStart s) : DriversInv s := by
  obtain ⟨hcall, hdev⟩ := h
  refine ⟨fun d => ?_, fun d => by rw [(hdev d).2.1]; trivial, fun _ d => (hdev d).2.1⟩
  rw [hcall]
  obtain ⟨hq, hpc, hc⟩ := hdev d
  refine ⟨⟨0, ?_, ?_⟩, hc, by rw [hpc]; exact id⟩
  · rw [hq _ rfl]
    exact ⟨by decide, rfl, rfl, rfl, rfl, rfl, rfl⟩
  · rw [hq _ rfl]
    rfl

/-- **Every step keeps the invariant.** -/
theorem driversInv_step (h : DriversInv s) {l : CallLabel} (hs : DriversStep s l s') :
    DriversInv s' := by
  cases hs with
  | reject => exact h
  | start _ hcall hoff _ => exact h.move rfl rfl (fun d => by rw [hcall]; rfl) hoff
  | @fill c hcall hoff =>
      cases c with
      | disk => exact h.move rfl rfl (fun d => by rw [hcall]; rfl) hoff
      | ethernet => exact h.move rfl rfl (fun d => by rw [hcall]; rfl) hoff
      | testPacket => exact h.move rfl rfl (fun d => by rw [hcall]; rfl) hoff
  | @descs c hcall hoff =>
      have hok := h.dev c.dev
      rw [hcall] at hok
      exact h.call c (.reset c) hoff rfl (setDev_self ..)
        (fun d hd => setDev_other hd ..) rfl (fun d _ => by rw [hcall]; rfl)
        (Resting.setVq hok rfl rfl rfl rfl)
  | @reset c hcall hoff =>
      have hok := h.dev c.dev
      rw [hcall] at hok
      refine h.call c (.ring c) hoff rfl (setDev_self ..)
        (fun d hd => setDev_other hd ..) rfl (fun d hd => ?_) ?_
      · rw [hcall]; exact if_neg (Ne.symm hd)
      · rw [show phaseOf c.dev (.ring c) = .armed from if_pos rfl]
        have hok : Resting c.dev (s.dev c.dev) := hok
        exact ⟨⟨hok.ready, hok.completed, hok.popping⟩, rfl⟩
  | @ring c hcall hoff =>
      have hok := h.dev c.dev
      rw [hcall, show phaseOf c.dev (.ring c) = .armed from if_pos rfl] at hok
      refine h.call c (.index c) hoff rfl (setDev_self ..)
        (fun d hd => setDev_other hd ..) rfl (fun d hd => ?_) ?_
      · rw [hcall]; exact (if_neg (Ne.symm hd)).trans (if_neg (Ne.symm hd)).symm
      · rw [show phaseOf c.dev (.index c) = .written from if_pos rfl]
        exact hok.ring
  | @index c hcall hoff =>
      have hok := h.dev c.dev
      rw [hcall, show phaseOf c.dev (.index c) = .written from if_pos rfl] at hok
      refine h.call c (.submit c) hoff rfl (setDev_self ..)
        (fun d hd => setDev_other hd ..) rfl (fun d hd => ?_) ?_
      · rw [hcall]; exact (if_neg (Ne.symm hd)).trans (if_neg (Ne.symm hd)).symm
      · rw [show phaseOf c.dev (.submit c) = .flight false from if_pos rfl]
        exact hok.index
  | @submit c hcall hoff =>
      have hok := h.dev c.dev
      rw [hcall, show phaseOf c.dev (.submit c) = .flight false from if_pos rfl] at hok
      refine h.call c (.notify c) hoff rfl (setDev_self ..)
        (fun d hd => setDev_other hd ..) rfl (fun d hd => ?_) ?_
      · rw [hcall]; exact (if_neg (Ne.symm hd)).trans (if_neg (Ne.symm hd)).symm
      · rw [show phaseOf c.dev (.notify c) = .flight true from if_pos rfl]
        exact hok.submit
  | notify hcall hoff => exact h.move rfl rfl (fun d => by rw [hcall]; rfl) hoff
  | wait hcall hoff _ => exact h.move rfl rfl (fun d => by rw [hcall]; rfl) hoff
  | close hcall hoff => exact h.move rfl rfl (fun d => by rw [hcall]; rfl) hoff
  | @restore c hcall hoff hdone =>
      have hok := h.dev c.dev
      rw [hcall, show phaseOf c.dev (.loop c) = .flight true from if_pos rfl] at hok
      refine h.call c (.finish c) hoff rfl rfl (fun _ _ => rfl) rfl (fun d hd => ?_)
        (hok.ret hdone (hoff c.dev))
      rw [hcall]; exact (if_neg (Ne.symm hd)).symm
  | ret hcall hoff => exact h.move rfl rfl (fun d => by rw [hcall]; rfl) hoff
  | @handler d t hon hother hstep =>
      exact h.setDev ((h.dev d).handler (h.range d) hstep) ((h.range d).handler hstep)
        fun hoff => absurd hon hoff
  | @device d k ev q' _ hstep =>
      exact h.setDev ((h.dev d).device hstep) (h.range d) fun hoff => h.off hoff d
  | @status d st =>
      exact h.setDev ((h.dev d).congr rfl rfl rfl rfl) (h.range d) fun hoff => h.off hoff d

theorem driversInv_run {tr : List CallLabel} (h : Run DriversStart DriversStep tr s) :
    DriversInv s :=
  h.invariant (fun _ h => driversInv_start h) fun _ _ _ h hs => driversInv_step h hs

/-! ## The flag -/

/-- Only a handler that has popped an element of the queue of requests sets the flag. -/
theorem handlerStep_sets {d : VirtioDev} {t t' : DevState} (hs : HandlerStep d t t')
    (hr : InRange d t.pc) (h0 : t.done = false) (h1 : t'.done = true) :
    t.completed = true ∨ ∃ e, t.pc = .body (reqQueue d) e := by
  have hkeep : t'.done ≠ t.done := by rw [h0, h1]; decide
  cases hs with
  | leave _ =>
      cases d with
      | blk =>
          have h1 : (t.done || t.completed) = true := h1
          rw [h0, Bool.false_or] at h1
          exact Or.inl h1
      | net => exact absurd rfl hkeep
  | @body q e hpc =>
      cases d with
      | blk => exact absurd rfl hkeep
      | net =>
          by_cases hq : q = netRxQueue
          · refine absurd ?_ hkeep
            unfold drainBody
            dsimp only
            rw [if_pos hq]
            rfl
          · rw [hpc] at hr
            have hr : q < 2 := hr
            have hq : q ≠ 0 := hq
            have he : q = reqQueue .net := by
              show q = 1
              omega
            exact Or.inr ⟨e, he ▸ hpc⟩
  | _ => exact absurd rfl hkeep

/-- By then the request has been given back. -/
theorem Flight.sets {d : VirtioDev} {n : Nat} {t : DevState} (h : Flight d n t)
    (h0 : t.done = false) (hset : t.completed = true ∨ ∃ e, t.pc = .body (reqQueue d) e) :
    Ready (u16 (n + 1)) (t.queue (reqQueue d)) := by
  have hne : t.completed = false → (∀ e, t.pc ≠ .body (reqQueue d) e) → False := by
    intro hc hp
    rcases hset with h | ⟨e, he⟩
    · rw [hc] at h; cases h
    · exact hp e he
  have hbody : ¬ Popping d t.pc → ∀ e, t.pc ≠ .body (reqQueue d) e := by
    intro hp e he
    rw [he] at hp
    exact hp rfl
  cases h with
  | offered _ _ hc hp => exact (hne hc (hbody hp)).elim
  | inDevice _ _ hc hp => exact (hne hc (hbody hp)).elim
  | published _ _ hc hp => exact (hne hc hp).elim
  | popped hq _ _ _ => exact hq
  | noted hq _ _ _ => exact hq
  | done _ hd _ _ => rw [h0] at hd; cases hd

theorem Resting.not_sets {d : VirtioDev} {t : DevState} (h : Resting d t) :
    ¬ (t.completed = true ∨ ∃ e, t.pc = .body (reqQueue d) e) := by
  rintro (hc | ⟨e, he⟩)
  · rw [h.completed] at hc; cases hc
  · exact h.popping (by rw [he]; rfl)

/-- Of all steps only those of a handler set a flag. -/
theorem driversStep_sets {d : VirtioDev} {l : CallLabel} (hs : DriversStep s l s')
    (h0 : (s.dev d).done = false) (h1 : (s'.dev d).done = true) :
    InterruptsOn s.sie s.call ∧ HandlerStep d (s.dev d) (s'.dev d) := by
  have hkeep : (s'.dev d).done ≠ (s.dev d).done := by rw [h0, h1]; decide
  -- a step that replaces the state of one device by one with the same flag
  have hset : ∀ (u : Drivers) (d' : VirtioDev) (t : DevState), u.dev = s.dev →
      t.done = (s.dev d').done → ((u.setDev d' t).dev d).done = (s.dev d).done := by
    intro u d' t hu ht
    by_cases hd : d = d'
    · rw [hd, setDev_self, ht]
    · rw [setDev_other hd, hu]
  cases hs with
  | @fill c _ _ => cases c <;> exact absurd rfl hkeep
  | descs _ _ => exact (hkeep (hset _ _ _ rfl rfl)).elim
  | @reset c _ _ =>
      by_cases hd : d = c.dev
      · rw [hd, setDev_self] at h1; cases h1
      · rw [setDev_other hd] at hkeep; exact absurd rfl hkeep
  | ring _ _ => exact (hkeep (hset _ _ _ rfl rfl)).elim
  | index _ _ => exact (hkeep (hset _ _ _ rfl rfl)).elim
  | submit _ _ => exact (hkeep (hset _ _ _ rfl rfl)).elim
  | @handler d' t hon _ hstep =>
      by_cases hd : d = d'
      · subst hd
        rw [setDev_self]
        exact ⟨hon, hstep⟩
      · rw [setDev_other hd] at hkeep; exact absurd rfl hkeep
  | device _ _ => exact (hkeep (hset _ _ _ rfl rfl)).elim
  | status => exact (hkeep (hset _ _ _ rfl rfl)).elim
  | _ => exact absurd rfl hkeep

/-! ## What a call relies on -/

/-- Where a call has cleared the flag and not pushed its request yet. -/
def BeforePush (c : Call) (pc : CallPc) : Prop := pc = .ring c ∨ pc = .index c

/-- Where a call has pushed its request and not found it done yet. -/
def AfterPush (c : Call) (pc : CallPc) : Prop :=
  pc = .submit c ∨ pc = .notify c ∨ pc = .loop c ∨ pc = .window c

/-- Nothing but the steps that say so writes a request buffer or its descriptors. -/
theorem driversStep_keeps {l : CallLabel} (hs : DriversStep s l s') (hl : ∀ c, l ≠ .write c) :
    s'.blkReq = s.blkReq ∧ s'.netTxBuf = s.netTxBuf
      ∧ ∀ d, (s'.requests d).vq.descs = (s.requests d).vq.descs := by
  -- a step that replaces the state of one device by one with the same descriptors
  have hset : ∀ (u : Drivers) (d' : VirtioDev) (t : DevState), u.dev = s.dev →
      (t.queue (reqQueue d')).vq.descs = (s.requests d').vq.descs →
      ∀ d, ((u.setDev d' t).requests d).vq.descs = (s.requests d).vq.descs := by
    intro u d' t hu ht d
    unfold Drivers.requests
    by_cases hd : d = d'
    · rw [hd, setDev_self, ht]
      rfl
    · rw [setDev_other hd, hu]
  cases hs with
  | @fill c _ _ => exact absurd rfl (hl c)
  | @descs c _ _ => exact absurd rfl (hl c)
  | reset _ _ => exact ⟨rfl, rfl, hset _ _ _ rfl rfl⟩
  | ring _ _ => exact ⟨rfl, rfl, hset _ _ _ rfl (by rw [setVq_queue]; rfl)⟩
  | index _ _ => exact ⟨rfl, rfl, hset _ _ _ rfl (by rw [setVq_queue]; rfl)⟩
  | submit _ _ => exact ⟨rfl, rfl, hset _ _ _ rfl (by rw [setVq_queue]; rfl)⟩
  | handler _ _ hstep => exact ⟨rfl, rfl, hset _ _ _ rfl (handlerStep_keeps hstep).2.1⟩
  | @device d k ev q' _ hstep =>
      refine ⟨rfl, rfl, hset _ _ _ rfl ?_⟩
      dsimp only
      by_cases hk : reqQueue d = k
      · subst hk
        rw [Function.update_self]
        exact (deviceStep_keeps hstep).2.1
      · rw [Function.update_of_ne hk]
        rfl
  | status => exact ⟨rfl, rfl, hset _ _ _ rfl rfl⟩
  | _ => exact ⟨rfl, rfl, fun _ => rfl⟩

theorem DriversInv.resting_of_write (h : DriversInv s) {c : Call}
    (hs : DriversStep s (.write c) s') : Resting c.dev (s.dev c.dev) := by
  have hok := h.dev c.dev
  cases hs with
  | fill hcall _ => rw [hcall] at hok; exact hok
  | descs hcall _ => rw [hcall] at hok; exact hok

theorem DriversInv.beforePush (h : DriversInv s) {c : Call} (hc : BeforePush c s.call) :
    (s.dev c.dev).done = false := by
  have hok := h.dev c.dev
  rcases hc with hc | hc
  · rw [hc, show phaseOf c.dev (.ring c) = .armed from if_pos rfl] at hok
    exact hok.2
  · rw [hc, show phaseOf c.dev (.index c) = .written from if_pos rfl] at hok
    exact hok.2.1

theorem DriversInv.afterPush (h : DriversInv s) {c : Call} (hc : AfterPush c s.call) :
    ∃ n, Flight c.dev n (s.dev c.dev) := by
  have hok := h.dev c.dev
  have hphase : ∃ b, phaseOf c.dev s.call = .flight b := by
    rcases hc with hc | hc | hc | hc
    · exact ⟨false, by rw [hc]; exact if_pos rfl⟩
    · exact ⟨true, by rw [hc]; exact if_pos rfl⟩
    · exact ⟨true, by rw [hc]; exact if_pos rfl⟩
    · exact ⟨true, by rw [hc]; exact if_pos rfl⟩
  obtain ⟨b, hb⟩ := hphase
  rw [hb] at hok
  obtain ⟨n, hf, _⟩ := hok
  exact ⟨n, hf⟩

theorem phaseOf_flight {d : VirtioDev} {pc : CallPc} {counted : Bool}
    (h : phaseOf d pc = .flight counted) : ∃ c, AfterPush c pc ∧ c.dev = d := by
  have hdev : ∀ {c : Call} {ph : Phase}, (if c.dev = d then ph else .free) = .flight counted →
      c.dev = d := by
    intro c ph hph
    by_contra hne
    rw [if_neg hne] at hph
    cases hph
  cases pc with
  | submit c => exact ⟨c, Or.inl rfl, hdev h⟩
  | notify c => exact ⟨c, Or.inr (Or.inl rfl), hdev h⟩
  | loop c => exact ⟨c, Or.inr (Or.inr (Or.inl rfl)), hdev h⟩
  | window c => exact ⟨c, Or.inr (Or.inr (Or.inr rfl)), hdev h⟩
  | ring c => rw [show phaseOf d (.ring c) = .armed from if_pos (hdev h)] at h; cases h
  | index c => rw [show phaseOf d (.index c) = .written from if_pos (hdev h)] at h; cases h
  | _ => cases h

/-- Where a flag is set, a call has pushed its request, and it has been given back. -/
theorem DriversInv.sets (h : DriversInv s) {d : VirtioDev} {l : CallLabel}
    (hs : DriversStep s l s') (h0 : (s.dev d).done = false) (h1 : (s'.dev d).done = true) :
    ∃ c n, AfterPush c s.call ∧ c.dev = d ∧ InterruptsOn s.sie s.call ∧ Ready n (s.requests d) := by
  obtain ⟨hon, hstep⟩ := driversStep_sets hs h0 h1
  have hset := handlerStep_sets hstep (h.range d) h0 h1
  have hok := h.dev d
  cases hph : phaseOf d s.call with
  | free => rw [hph] at hok; exact absurd hset (Resting.not_sets hok)
  | armed => rw [hph] at hok; exact absurd hset hok.1.not_sets
  | written => rw [hph] at hok; exact absurd hset hok.1.not_sets
  | flight counted =>
      rw [hph] at hok
      obtain ⟨c, hc, hd⟩ := phaseOf_flight hph
      obtain ⟨n, hf, _⟩ := hok
      exact ⟨c, _, hc, hd, hon, hf.sets h0 hset⟩

/-- A call returns to a machine in which nothing is under way for its device. -/
theorem DriversInv.resting_of_ret (h : DriversInv s) {c : Call}
    (hs : DriversStep s (.ret c) s') : Resting c.dev (s'.dev c.dev) := by
  have hok := (driversInv_step h hs).dev c.dev
  cases hs with
  | reject hcall _ _ => rw [hcall] at hok; exact hok
  | ret _ _ => exact hok

theorem DriversInv.resting_of_finish (h : DriversInv s) {c : Call} (hc : s.call = .finish c) :
    Resting c.dev (s.dev c.dev) := by
  have hok := h.dev c.dev
  rw [hc] at hok
  exact hok

/-- **One request at a time.** In every run:

* the buffers and the descriptors of requests are written by calls only, and when a call
  does so the device neither holds a descriptor of the queue nor has one left to take;
* a flag is set only by a handler, while a call for that device has its request pushed and
  not found it done, and with the used element published; until a call has pushed its request
  the flag is clear, however often it is interrupted;
* when a call returns, all counters of the queue agree and it is not busy. -/
theorem single_request_discipline {tr : List CallLabel} {l : CallLabel}
    (hr : Run DriversStart DriversStep tr s) (hs : DriversStep s l s') :
    ((∀ c, l ≠ .write c) → s'.blkReq = s.blkReq ∧ s'.netTxBuf = s.netTxBuf
      ∧ ∀ d, (s'.requests d).vq.descs = (s.requests d).vq.descs)
    ∧ (∀ c, l = .write c →
      (s.requests c.dev).dev.held = []
        ∧ (s.requests c.dev).dev.lastAvail = (s.requests c.dev).vq.availIndex)
    ∧ (∀ d, (s.dev d).done = false → (s'.dev d).done = true →
      ∃ c, AfterPush c s.call ∧ c.dev = d ∧ InterruptsOn s.sie s.call
        ∧ HandlerStep d (s.dev d) (s'.dev d)
        ∧ (s.requests d).vq.usedIndex = (s.requests d).vq.availIndex
        ∧ (s.requests d).dev.held = [])
    ∧ (∀ c, BeforePush c s.call → (s.dev c.dev).done = false)
    ∧ (∀ c, AfterPush c s.call ∨ s.call = .finish c → (s.dev c.dev).done = true →
      (s.requests c.dev).vq.usedIndex = (s.requests c.dev).vq.availIndex)
    ∧ (∀ c, l = .ret c →
      (s'.requests c.dev).vq.submittedIndex = (s'.requests c.dev).vq.consumedUsedIndex
        ∧ (s'.requests c.dev).vq.consumedUsedIndex = (s'.requests c.dev).vq.availIndex
        ∧ (s'.requests c.dev).vq.availIndex = (s'.requests c.dev).vq.usedIndex
        ∧ virtqIsBusy (s'.requests c.dev).vq = false) := by
  have hinv := driversInv_run hr
  refine ⟨driversStep_keeps hs, ?_, ?_, fun c hc => hinv.beforePush hc, ?_, ?_⟩
  · rintro c rfl
    obtain ⟨n, hn, _⟩ := (hinv.resting_of_write hs).ready
    exact ⟨hn.held, hn.last.trans hn.avail.symm⟩
  · intro d h0 h1
    obtain ⟨c, n, hcall, hd, hon, hn⟩ := hinv.sets hs h0 h1
    exact ⟨c, hcall, hd, hon, (driversStep_sets hs h0 h1).2, hn.used.trans hn.avail.symm, hn.held⟩
  · rintro c (hc | hc) hdone
    · obtain ⟨n, hf⟩ := hinv.afterPush hc
      cases hf with
      | offered _ h _ _ => rw [hdone] at h; cases h
      | inDevice _ h _ _ => rw [hdone] at h; cases h
      | published _ h _ _ => rw [hdone] at h; cases h
      | popped _ h _ _ => rw [hdone] at h; cases h
      | noted hn _ _ _ => exact hn.used.trans hn.avail.symm
      | done hn _ _ _ => exact hn.used.trans hn.avail.symm
    · obtain ⟨n, hn, _⟩ := (hinv.resting_of_finish hc).ready
      exact hn.used.trans hn.avail.symm
  · rintro c rfl
    obtain ⟨n, hn, hsub⟩ := (hinv.resting_of_ret hs).ready
    refine ⟨hsub.trans hn.consumed.symm, hn.consumed.trans hn.avail.symm,
      hn.avail.trans hn.used.symm, ?_⟩
    unfold virtqIsBusy
    exact decide_eq_false (not_not_intro (hn.consumed.trans hsub.symm))

end

/-- A write of sector 0. -/
def sampleCall : Call := .disk (fun _ => 0) 0 true

/-- A write that is made with interrupts on. The device is done with it before the call has counted
it, and the handler interrupts the call there and sets the flag. The call finds it set and returns. -/
theorem single_request_discipline_disk : ∃ tr s s', Run DriversStart DriversStep tr s
    ∧ s.sie = true ∧ s.call = .submit sampleCall ∧ DriversStep s .quiet s'
    ∧ (s.dev .blk).done = false ∧ (s'.dev .blk).done = true
    ∧ (s.requests .blk).vq.usedIndex = (s.requests .blk).vq.availIndex
    ∧ ∃ tr' u u', Run DriversStart DriversStep (tr ++ .quiet :: tr') u
      ∧ DriversStep u (.ret sampleCall) u' ∧ virtqIsBusy (u'.requests .blk).vq = false := by
  have h0 : Run DriversStart DriversStep []
      ⟨fun _ => ⟨fun _ => Queue.fresh, ⟨false, false⟩, 0, false, false, .idle, 0⟩, .idle, false,
        ⟨0, 0, fun _ => 0, 0⟩, fun _ => 0, 0, 0, 0, 1⟩ :=
    .start ⟨rfl, fun _ => ⟨fun _ _ => rfl, rfl, rfl⟩⟩
  have h1 := h0.snoc (.start (c := sampleCall) true rfl (fun _ => rfl) Nat.one_pos)
  have h2 := h1.snoc (.fill (c := sampleCall) rfl fun _ => rfl)
  have h3 := h2.snoc (.descs (c := sampleCall) rfl fun _ => rfl)
  have h4 := h3.snoc (.reset (c := sampleCall) rfl fun d => by cases d <;> rfl)
  have h5 := h4.snoc (.ring (c := sampleCall) rfl fun d => by cases d <;> rfl)
  have h6 := h5.snoc (.index (c := sampleCall) rfl fun d => by cases d <;> rfl)
  -- the device
  have h7 := h6.snoc (.device (d := .blk) (q := 0) (by decide) (.take (by decide)))
  have h8 := h7.snoc (.device (d := .blk) (q := 0) (by decide)
    (.fill (d := 0) rfl (by decide) (by decide : 1 < 2 ^ 32)))
  have h9 := h8.snoc (.device (d := .blk) (q := 0) (by decide) (.publish rfl))
  have h10 := h9.snoc (@DriversStep.status _ .blk ⟨true, false⟩)
  -- the handler
  have hnet : ∀ {s : Drivers}, (s.dev .net).pc = .idle → ∀ d, d ≠ .blk → (s.dev d).pc = .idle := by
    intro s hs d hd
    cases d with
    | blk => exact absurd rfl hd
    | net => exact hs
  have h11 := h10.snoc (.handler (d := .blk) rfl (hnet rfl) (.enter rfl))
  have h12 := h11.snoc (.handler (d := .blk) rfl (hnet rfl) (.status rfl rfl))
  have h13 := h12.snoc (.handler (d := .blk) rfl (hnet rfl) (.ack rfl))
  have h14 := h13.snoc (.handler (d := .blk) rfl (hnet rfl) (.more rfl rfl))
  have h15 := h14.snoc (.handler (d := .blk) rfl (hnet rfl) (.read rfl))
  have h16 := h15.snoc (.handler (d := .blk) rfl (hnet rfl) (.consume rfl))
  have h17 := h16.snoc (.handler (d := .blk) rfl (hnet rfl) (.body rfl))
  have hset := single_request_discipline h17
    (.handler (d := .blk) rfl (hnet rfl) (.leave (q := 0) rfl rfl (by decide)))
  have h18 := h17.snoc (.handler (d := .blk) rfl (hnet rfl) (.leave (q := 0) rfl rfl (by decide)))
  -- the call goes on
  have h19 := h18.snoc (.submit (c := sampleCall) rfl fun d => by cases d <;> rfl)
  have h20 := h19.snoc (.notify (c := sampleCall) rfl fun d => by cases d <;> rfl)
  have h21 := h20.snoc (.restore (c := sampleCall) rfl (fun d => by cases d <;> rfl) rfl)
  have hret := single_request_discipline h21 (.ret (c := sampleCall) rfl fun d => by cases d <;> rfl)
  obtain ⟨_, _, _, _, _, hused, _⟩ := hset.2.2.1 .blk rfl rfl
  exact ⟨_, _, _, h17, rfl, rfl,
    .handler (d := .blk) rfl (hnet rfl) (.leave (q := 0) rfl rfl (by decide)), rfl, rfl, hused,
    _, _, _, h21, .ret rfl fun d => by cases d <;> rfl, (hret.2.2.2.2.2 sampleCall rfl).2.2.2⟩

end Os1000.Proof
