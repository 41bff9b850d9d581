import Os1000.Proof.External

/-!
# What the drivers keep under the controller

The invariants of the drivers (`DriversInv`) and of completions (`Announced`) hold in the
machine whose handlers are called by the interrupt controller, too. To them comes that the
counters of the receive queue never lap each other, so that a handler that has found an
element pops one.
-/

namespace Os1000.Proof

open Os1000 Lib

/-! ## What the machine inherits -/

section

variable {s s' : Core} {l : CallLabel}

/-- What holds of every device holds after one of them was replaced. -/
theorem forall_setDev {P : VirtioDev → DevState → Prop} {u : Drivers} {d : VirtioDev} {t : DevState}
    (h : ∀ d, P d (u.dev d)) (ht : P d t) : ∀ d', P d' ((u.setDev d t).dev d') := by
  intro d'
  by_cases hd : d' = d
  · rw [hd, setDev_self]
    exact ht
  · rw [setDev_other hd]
    exact h d'

theorem Claims.enter_step (h : Claims s) {d : VirtioDev} {irq : Nat} (ht : s.trap = .call d irq) :
    HandlerStep d (s.dev d) { s.dev d with pc := .status } :=
  .enter (h.noHandler (by rw [ht]; rfl) d)

theorem Claims.on_of (h : Claims s) {pc : TrapPc} (ht : s.trap = pc) (hne : pc ≠ .idle) :
    InterruptsOn s.sie s.call := h.on (ht ▸ hne)

/-- A handler step that the controller has led to is one of the drivers' machine. -/
theorem driversInv_core (hc : Claims s) (h : DriversInv s.toDrivers) (hs : CoreStep s l s') :
    DriversInv s'.toDrivers := by
  cases hs with
  | cpu hs =>
      cases hs with
      | call _ _ hstep _ _ _ => exact driversInv_step h hstep
      | take _ _ _ => exact h
      | claim _ => exact h
      | enter ht =>
          have hon := hc.on_of ht (fun h0 => by cases h0)
          exact driversInv_step h (.handler hon (fun d' _ => hc.noHandler (by rw [ht]; rfl) d')
            (hc.enter_step ht))
      | handler ht _ hstep =>
          have hon := hc.on_of ht (fun h0 => by cases h0)
          exact driversInv_step h (.handler hon (fun d' hd => hc.others (by rw [ht]; rfl) hd) hstep)
      | complete _ => exact h
      | forward _ _ _ _ _ => exact h
  | outside hs =>
      cases hs with
      | start sie ht hcall hacc =>
          exact driversInv_step h (.start sie hcall (hc.noHandler (by rw [ht]; rfl)) hacc)
      | reject _ _ _ => exact h
      | @device d _ _ _ _ hstep =>
          exact h.setDev (((h.dev d).device hstep).congr rfl rfl rfl rfl) (h.range d)
            fun hoff => h.off hoff d
      | @raise d _ =>
          exact h.setDev ((h.dev d).congr rfl rfl rfl rfl) (h.range d) fun hoff => h.off hoff d
      | @config d =>
          exact h.setDev ((h.dev d).congr rfl rfl rfl rfl) (h.range d) fun hoff => h.off hoff d
      | lines => exact h

theorem CallFrame.hasUsed {d : VirtioDev} {t t' : DevState} (h : CallFrame d t t') (q : Nat) :
    virtqHasUsed (t'.queue q).vq = virtqHasUsed (t.queue q).vq := by
  unfold virtqHasUsed
  rw [h.used q, h.consumed q]

theorem CallFrame.announced {d : VirtioDev} {t t' : DevState} (h : CallFrame d t t')
    (ha : Announced d t) : Announced d t' :=
  ha.keep (fun q hq => h.hasUsed q ▸ hq) (fun _ _ hp _ => h.pc ▸ hp) (fun hb => h.status ▸ hb) h.owed

/-- What a device does to a queue that it has. -/
theorem announced_device {d : VirtioDev} {t : DevState} {k : Nat} {ev : DeviceEvent} {q' : Queue}
    (h : Announced d t) (hs : DeviceStep (t.queue k) ev q') :
    Announced d { t with queue := Function.update t.queue k q', owed := t.owed + ev.owes } := by
  -- only publishing changes what there is to pop, and that is owed an interrupt
  have hquiet : q'.vq.usedIndex = (t.queue k).vq.usedIndex →
      q'.vq.consumedUsedIndex = (t.queue k).vq.consumedUsedIndex → ev.owes = 0 →
      Announced d { t with queue := Function.update t.queue k q', owed := t.owed + ev.owes } := by
    intro hu hcons howes
    refine h.keep (fun q hq => ?_) (fun _ _ hp _ => hp) id (by rw [howes]; rfl)
    by_cases hqk : q = k
    · subst hqk
      dsimp only at hq
      rw [Function.update_self] at hq
      unfold virtqHasUsed at hq ⊢
      rw [hu, hcons] at hq
      exact hq
    · dsimp only at hq
      rw [Function.update_of_ne hqk] at hq
      exact hq
  cases hs with
  | take _ => exact hquiet rfl rfl rfl
  | fill _ _ _ => exact hquiet rfl rfl rfl
  | publish _ => exact fun _ _ _ _ => Or.inr (Nat.succ_pos _)

theorem announced_core (hc : Claims s) (h : ∀ d, Announced d (s.dev d)) (hs : CoreStep s l s') :
    ∀ d, Announced d (s'.dev d) := by
  cases hs with
  | cpu hs =>
      cases hs with
      | call _ _ hstep hmove _ _ => exact fun d => (callStep_frame hstep hmove d).announced (h d)
      | take _ _ _ => exact h
      | claim _ => exact h
      | @enter d irq ht => exact forall_setDev h (announced_handler (h d) (hc.enter_step ht))
      | @handler d _ _ _ _ hstep => exact forall_setDev h (announced_handler (h d) hstep)
      | complete _ => exact h
      | forward _ _ _ _ _ => exact h
  | outside hs =>
      cases hs with
      | start _ _ _ _ => exact h
      | reject _ _ _ => exact h
      | @device d _ _ _ _ hstep => exact forall_setDev h (announced_device (h d) hstep)
      | raise _ => exact forall_setDev h fun _ _ _ _ => Or.inl rfl
      | @config d =>
          exact forall_setDev h ((h d).keep (fun _ => id) (fun _ _ hp _ => hp) id rfl)
      | lines => exact h

end

/-! ## The receive queue -/

/-- How far a counter is ahead of another. -/
def gap (head tail : Nat) : Nat := (head + 2 ^ 16 - tail) % 2 ^ 16

/-- The buffer that the handler has popped and not made available again. -/
def rxHand : IrqPc → Nat
  | .body q _ => if q = netRxQueue then 1 else 0
  | _ => 0

/-- The handler has found an element on the receive queue and not popped it. -/
def RxPops : IrqPc → Prop
  | .read q => q = netRxQueue
  | .consume q _ => q = netRxQueue
  | _ => False

/-- Sixteen buffers go round, so the counters never lap each other. -/
structure RxOk (q : Queue) (pc : IrqPc) : Prop where
  avail : q.vq.availIndex < 2 ^ 16
  last : q.dev.lastAvail < 2 ^ 16
  used : q.vq.usedIndex < 2 ^ 16
  consumed : q.vq.consumedUsedIndex < 2 ^ 16
  room : gap q.vq.availIndex q.dev.lastAvail + q.dev.held.length
    + gap q.vq.usedIndex q.vq.consumedUsedIndex + rxHand pc ≤ virtqEntryNum
  filled : ∀ e, q.dev.filled = some e → e.id ∈ q.dev.held
  pops : RxPops pc → q.vq.usedIndex ≠ q.vq.consumedUsedIndex

section

variable {q q' : Queue} {pc pc' : IrqPc}

theorem RxOk.move (h : RxOk q pc) (hhand : rxHand pc' = 0)
    (hpops : RxPops pc' → q.vq.usedIndex ≠ q.vq.consumedUsedIndex) : RxOk q pc' := by
  refine ⟨h.avail, h.last, h.used, h.consumed, ?_, h.filled, hpops⟩
  have := h.room
  omega

/-- The handler pops an element. -/
theorem RxOk.consume (h : RxOk q pc) (hpops : RxPops pc) (e : VirtqUsedElem) :
    RxOk { q with vq := virtqConsume q.vq } (.body netRxQueue e) := by
  have hne := h.pops hpops
  refine ⟨h.avail, h.last, h.used, Nat.mod_lt _ (by decide), ?_, h.filled, fun h0 => by cases h0⟩
  have h1 : gap q.vq.availIndex q.dev.lastAvail + q.dev.held.length
    + gap q.vq.usedIndex q.vq.consumedUsedIndex + rxHand pc ≤ 16 := h.room
  have h2 := h.used
  have h3 := h.consumed
  show gap q.vq.availIndex q.dev.lastAvail + q.dev.held.length
    + gap q.vq.usedIndex (u16 (q.vq.consumedUsedIndex + 1)) + 1 ≤ 16
  unfold gap u16 at *
  omega

/-- The handler makes the buffer available again. -/
theorem RxOk.push {e : VirtqUsedElem} (h : RxOk q (.body netRxQueue e)) (vq : Virtq)
    (ha : vq.availIndex = u16 (q.vq.availIndex + 1)) (hu : vq.usedIndex = q.vq.usedIndex)
    (hc : vq.consumedUsedIndex = q.vq.consumedUsedIndex) :
    RxOk { q with vq := vq } (.check netRxQueue) := by
  refine ⟨?_, h.last, ?_, ?_, ?_, h.filled, fun h0 => by cases h0⟩
  · show vq.availIndex < _
    rw [ha]
    exact Nat.mod_lt _ (by decide)
  · show vq.usedIndex < _
    rw [hu]
    exact h.used
  · show vq.consumedUsedIndex < _
    rw [hc]
    exact h.consumed
  · have h1 : gap q.vq.availIndex q.dev.lastAvail + q.dev.held.length
        + gap q.vq.usedIndex q.vq.consumedUsedIndex + 1 ≤ 16 := h.room
    have h2 := h.avail
    have h3 := h.last
    show gap vq.availIndex q.dev.lastAvail + q.dev.held.length
        + gap vq.usedIndex vq.consumedUsedIndex + 0 ≤ 16
    rw [ha, hu, hc]
    unfold gap u16 at *
    omega

/-- The device takes a buffer, writes an element, or publishes it. -/
theorem RxOk.device {ev : DeviceEvent} (h : RxOk q pc) (hs : DeviceStep q ev q') : RxOk q' pc := by
  have hroom : gap q.vq.availIndex q.dev.lastAvail + q.dev.held.length
    + gap q.vq.usedIndex q.vq.consumedUsedIndex + rxHand pc ≤ 16 := h.room
  have h1 := h.avail
  have h2 := h.last
  have h3 := h.used
  have h4 := h.consumed
  cases hs with
  | take hne =>
      refine ⟨h1, Nat.mod_lt _ (by decide), h3, h4, ?_, fun e he => ?_, h.pops⟩
      · show gap q.vq.availIndex (u16 (q.dev.lastAvail + 1)) + (q.dev.held ++ [q.nextAvail]).length
          + gap q.vq.usedIndex q.vq.consumedUsedIndex + rxHand pc ≤ 16
        rw [List.length_append, List.length_singleton]
        unfold gap u16 at *
        omega
      · exact List.mem_append_left _ (h.filled e he)
  | fill _ hd _ =>
      refine ⟨h1, h2, h3, h4, hroom, ?_, h.pops⟩
      rintro e ⟨⟩
      exact hd
  | @publish e he =>
      have hmem := h.filled e he
      have hlen := List.length_erase_of_mem hmem
      have hpos := List.length_pos_of_mem hmem
      have hgap : gap (u16 (q.vq.usedIndex + 1)) q.vq.consumedUsedIndex
          = gap q.vq.usedIndex q.vq.consumedUsedIndex + 1 := by
        unfold gap u16 at *
        omega
      refine ⟨h1, h2, Nat.mod_lt _ (by decide), h4, ?_, (fun e' he' => by cases he'), fun _ heq => ?_⟩
      · show gap q.vq.availIndex q.dev.lastAvail + (q.dev.held.erase e.id).length
          + gap (u16 (q.vq.usedIndex + 1)) q.vq.consumedUsedIndex + rxHand pc ≤ 16
        rw [hlen, hgap]
        omega
      · -- it is one element ahead at least
        have heq : u16 (q.vq.usedIndex + 1) = q.vq.consumedUsedIndex := heq
        rw [heq] at hgap
        unfold gap at hgap
        omega

/-- **A step of the handler.** -/
theorem rxOk_handler {t t' : DevState} (h : RxOk (t.queue netRxQueue) t.pc)
    (hs : HandlerStep .net t t') : RxOk (t'.queue netRxQueue) t'.pc := by
  cases hs with
  | enter _ => exact h.move rfl False.elim
  | nothing _ _ => exact h.move rfl False.elim
  | status _ _ => exact h.move rfl False.elim
  | @ack st _ =>
      refine h.move ?_ ?_
      · show rxHand (if st.usedBuffer then .check 0 else .idle) = 0
        split <;> rfl
      · show RxPops (if st.usedBuffer then .check 0 else .idle) → _
        split <;> exact False.elim
  | @more q _ hused =>
      refine h.move rfl fun hq => ?_
      have hq : q = netRxQueue := hq
      rw [hq] at hused
      exact (of_decide_eq_true hused).symm
  | next _ _ _ => exact h.move rfl False.elim
  | leave _ _ _ => exact h.move rfl False.elim
  | @read q hpc =>
      rw [hpc] at h
      exact h.move rfl h.pops
  | @consume q e hpc =>
      rw [hpc] at h
      by_cases hq : q = netRxQueue
      · subst hq
        rw [setVq_queue]
        exact h.consume rfl e
      · rw [setVq_other (Ne.symm hq)]
        exact h.move (if_neg hq) False.elim
  | @body q e hpc =>
      rw [hpc] at h
      unfold drainBody
      dsimp only
      by_cases hq : q = netRxQueue
      · rw [if_pos hq]
        subst hq
        rw [setVq_queue]
        exact h.push _ rfl rfl rfl
      · rw [if_neg hq]
        exact h.move rfl False.elim

theorem netRxReady_ok (netRxPaddr : Nat) :
    RxOk (netRxReady netRxPaddr) .idle ∧ virtqHasUsed (netRxReady netRxPaddr).vq = false := by
  have h := loop_inv (f := fun vq i => virtioNetEnqueueRx vq netRxPaddr i)
    (fun k vq => k ≤ netRxBufNum → vq.availIndex = k ∧ vq.usedIndex = 0 ∧ vq.consumedUsedIndex = 0)
    (s := virtqInit) netRxBufNum (fun _ => ⟨rfl, rfl, rfl⟩) (by
      intro k vq hk hvq hk'
      obtain ⟨h1, h2, h3⟩ := hvq (Nat.le_of_lt hk)
      refine ⟨?_, h2, h3⟩
      show u16 (vq.availIndex + 1) = _
      have hk : k < 16 := hk
      rw [h1]
      unfold u16
      omega)
  obtain ⟨h1, h2, h3⟩ := h (Nat.le_refl _)
  have h1 : (netRxReady netRxPaddr).vq.availIndex = netRxBufNum := h1
  have h2 : (netRxReady netRxPaddr).vq.usedIndex = 0 := h2
  have h3 : (netRxReady netRxPaddr).vq.consumedUsedIndex = 0 := h3
  refine ⟨⟨?_, Nat.two_pow_pos 16, ?_, ?_, ?_, (fun e he => by cases he), fun h0 => by cases h0⟩,
    virtqHasUsed_of_caught_up (h2.trans h3.symm)⟩
  · rw [h1]; decide
  · rw [h2]; decide
  · rw [h3]; decide
  · rw [h1, h2, h3]
    show gap netRxBufNum 0 + 0 + gap 0 0 + 0 ≤ virtqEntryNum
    decide

end

/-! ## The invariant -/

/-- Everything the machine keeps. -/
structure CoreInv (s : Core) : Prop where
  claims : Claims s
  drivers : DriversInv s.toDrivers
  announced : ∀ d, Announced d (s.dev d)
  rx : RxOk ((s.dev .net).queue netRxQueue) (s.dev .net).pc

section

variable {s s' : Core} {l : CallLabel}

theorem rxOk_core (hc : Claims s) (h : RxOk ((s.dev .net).queue netRxQueue) (s.dev .net).pc)
    (hs : CoreStep s l s') : RxOk ((s'.dev .net).queue netRxQueue) (s'.dev .net).pc := by
  -- a step that replaces the state of one device
  have hset : ∀ {d : VirtioDev} {t : DevState},
      (d = .net → RxOk (t.queue netRxQueue) t.pc) →
      RxOk (((s.setDev d t).dev .net).queue netRxQueue) ((s.setDev d t).dev .net).pc := by
    intro d t ht
    by_cases hd : VirtioDev.net = d
    · subst hd
      rw [setDev_self]
      exact ht rfl
    · rw [setDev_other hd]
      exact h
  cases hs with
  | cpu hs =>
      cases hs with
      | call _ _ hstep hmove _ _ =>
          have hf := callStep_frame hstep hmove .net
          dsimp only
          rw [hf.pc, hf.other netRxQueue (by decide)]
          exact h
      | take _ _ _ => exact h
      | claim _ => exact h
      | enter ht =>
          refine hset ?_
          rintro rfl
          exact rxOk_handler h (hc.enter_step ht)
      | handler _ _ hstep =>
          refine hset ?_
          rintro rfl
          exact rxOk_handler h hstep
      | complete _ => exact h
      | forward _ _ _ _ _ => exact h
  | outside hs =>
      cases hs with
      | start _ _ _ _ => exact h
      | reject _ _ _ => exact h
      | @device _ k _ q' _ hstep =>
          refine hset ?_
          rintro rfl
          dsimp only
          by_cases hk : netRxQueue = k
          · subst hk
            rw [Function.update_self]
            exact h.device hstep
          · rw [Function.update_of_ne hk]
            exact h
      | raise _ =>
          refine hset ?_
          rintro rfl
          exact h
      | config =>
          refine hset ?_
          rintro rfl
          exact h
      | lines => exact h

theorem coreInv_start (h : CoreStart s) : CoreInv s := by
  have hclaims := claims_start h
  obtain ⟨hd, hrx, _, _⟩ := h
  refine ⟨hclaims, driversInv_start hd, fun d q hq _ hused => ?_, ?_⟩
  · -- nothing has been published
    by_cases hreq : q = reqQueue d
    · rw [(hd.2 d).1 q hreq] at hused
      cases hused
    · cases d with
      | blk => exact absurd (Nat.lt_one_iff.mp hq) hreq
      | net =>
          have hq0 : q = netRxQueue := by
            have hq : q < 2 := hq
            have hreq : q ≠ 1 := hreq
            show q = 0
            omega
          rw [hq0, hrx, (netRxReady_ok _).2] at hused
          cases hused
  · rw [hrx, (hd.2 .net).2.1]
    exact (netRxReady_ok _).1

theorem coreInv_step (h : CoreInv s) (hs : CoreStep s l s') : CoreInv s' :=
  ⟨claims_step h.claims hs, driversInv_core h.claims h.drivers hs,
    announced_core h.claims h.announced hs, rxOk_core h.claims h.rx hs⟩

theorem coreInv_run {tr : List CallLabel} (h : Run CoreStart CoreStep tr s) : CoreInv s :=
  h.invariant (fun _ h => coreInv_start h) fun _ _ _ h hs => coreInv_step h hs

/-- A handler that is about to pop an element has one to pop. -/
theorem CoreInv.consumes (h : CoreInv s) {d : VirtioDev} {q : Nat} {e : VirtqUsedElem}
    (hpc : (s.dev d).pc = .consume q e) :
    ((s.dev d).queue q).vq.usedIndex < 2 ^ 16 ∧ ((s.dev d).queue q).vq.consumedUsedIndex < 2 ^ 16
      ∧ ((s.dev d).queue q).vq.usedIndex ≠ ((s.dev d).queue q).vq.consumedUsedIndex := by
  by_cases hreq : q = reqQueue d
  · have hpop : Popping d (s.dev d).pc := by
      rw [hpc]
      exact hreq
    have hok := h.drivers.dev d
    cases hph : phaseOf d s.call with
    | free => rw [hph] at hok; exact absurd hpop hok.popping
    | armed => rw [hph] at hok; exact absurd hpop hok.1.popping
    | written => rw [hph] at hok; exact absurd hpop hok.1.popping
    | flight counted =>
      rw [hph] at hok
      obtain ⟨n, hf, _⟩ := hok
      cases hf with
      | offered _ _ _ hp => exact absurd hpop hp
      | inDevice _ _ _ hp => exact absurd hpop hp
      | published hq _ _ _ =>
          rw [hreq, hq.used, hq.consumed]
          have hlt := hq.lt
          unfold u16
          omega
      | popped _ _ _ hb => rw [hpc] at hb; cases hb
      | noted _ _ _ hb => rw [hpc] at hb; cases hb
      | done _ _ _ hp => exact absurd hpop hp
  · have hrange := h.drivers.range d
    rw [hpc] at hrange
    cases d with
    | blk => exact absurd (Nat.lt_one_iff.mp hrange) hreq
    | net =>
        have hq0 : q = netRxQueue := by
          have hrange : q < 2 := hrange
          have hreq : q ≠ 1 := hreq
          show q = 0
          omega
        subst hq0
        refine ⟨h.rx.used, h.rx.consumed, h.rx.pops ?_⟩
        rw [hpc]
        rfl

end

end Os1000.Proof
