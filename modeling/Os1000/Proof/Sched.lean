import Os1000.Proof.Progress
import Os1000.Lib.Channel

/-!
# Whose turn it is

`yield` scans the process table upwards from the slot after the current process, whose
slot number is its pid less one, and so goes round the table. A process that exits
has its pid cleared before the scan, which then starts from slot 0: the round begins
anew, and whoever is in a slot above the one that exited may be passed over for
someone below it. As long as that cannot happen, everyone gets a turn.
-/

namespace Os1000.Proof

open Os1000 Lib

/-- The event ends in `yield` selecting process `q`. -/
def Selects : Event → Nat → Prop
  | .yield next, q => next = q
  | .exit _ next, q => next = q
  | _, _ => False

/--
When a process exits, the others that can run are all in lower slots or all in higher ones.
-/
def OneSided (k : Kernel) : Event → Prop
  | .exit p _ => (∀ q, q < p → ¬ Eligible k q) ∨ ∀ q, p < q → q < procsMax → ¬ Eligible k q
  | _ => True

theorem Selects.unique {e : Event} {q r : Nat} (hq : Selects e q) (hr : Selects e r) : q = r := by
  cases e with
  | exit _ next => exact hq.symm.trans hr
  | yield next => exact hq.symm.trans hr
  | _ => cases hq

section

variable {L : Layout} {k k' : Kernel} {p q r : Nat}

theorem Settled.eligible (h : Settled k) (hr : r < procsMax) (hi : r ≠ k.idleProc)
    (hst : (k.procs r).state = .runnable) : Eligible k r :=
  ⟨hst, by rw [h.pid r hr hi hst]; omega⟩

theorem Settled.eligible_ne_idle (h : Settled k) (he : Eligible k r) : r ≠ k.idleProc := by
  rintro rfl
  have := he.2
  rw [h.idle_pid] at this
  omega

/-- When somebody can run, the scan finds the first one ahead of where it starts. -/
theorem findNext_scan (hr : r < procsMax) (he : Eligible k r) :
    ∃ i, i < procsMax ∧ findNext k = scanSlot k i ∧ Eligible k (scanSlot k i)
      ∧ ∀ j, j < i → ¬ Eligible k (scanSlot k j) := by
  rcases findNext_cases k with h | ⟨_, hno⟩
  · exact h
  · obtain ⟨j, hj, rfl⟩ := scanSlot_surj k hr
    exact absurd he (hno j hj)

/-- After a plain `yield` the scan goes round from the current slot. -/
theorem Settled.findNext_ahead (h : Settled k) (hi : k.currentProc ≠ k.idleProc)
    (hr : r < procsMax) (he : Eligible k r) :
    Eligible k (findNext k)
      ∧ ahead procsMax k.currentProc (findNext k) ≤ ahead procsMax k.currentProc r := by
  have hpid := h.pid _ h.current_lt hi h.current_runnable
  have hscan : ∀ i, scanSlot k i = (k.currentProc + 1 + i) % procsMax := by
    intro i
    unfold scanSlot
    rw [hpid]
  obtain ⟨i, hlt, e, hel, hfirst⟩ := findNext_scan hr he
  obtain ⟨j, hj, hjr⟩ := scanSlot_surj k hr
  have hij : i ≤ j := by
    by_contra hgt
    exact hfirst j (by omega) (by rw [hjr]; exact he)
  rw [e]
  refine ⟨hel, ?_⟩
  rw [← hjr, hscan, hscan, ahead_mod h.current_lt hlt, ahead_mod h.current_lt hj]
  omega

/-- After the current process is released the scan goes up from slot 0. -/
theorem Gone.findNext_lowest {k1 : Kernel} (hg : Gone p k k1) (hp : k.currentProc = p)
    (hr : r < procsMax) (he : Eligible k1 r) :
    Eligible k1 (findNext k1) ∧ findNext k1 < procsMax ∧ findNext k1 ≤ r := by
  have hscan : ∀ i, i < procsMax → scanSlot k1 i = i := by
    intro i hi
    unfold scanSlot
    rw [hg.currentProc, hp, hg.pid, Nat.zero_add]
    exact Nat.mod_eq_of_lt hi
  obtain ⟨i, hlt, e, hel, hfirst⟩ := findNext_scan hr he
  rw [hscan i hlt] at e hel
  rw [e]
  refine ⟨hel, hlt, ?_⟩
  by_contra hgt
  exact hfirst r (by omega) (by rw [hscan r hr]; exact he)

/--
**One step of the round.** Either nobody is selected and the current process stays, or the one
selected is no further ahead of the current process than `r`, which can run.
-/
theorem turn_step {e : Event} (h : Settled k) (hs : Step L k e k') (hone : OneSided k e)
    (hi : k.currentProc ≠ k.idleProc) (hr : r < procsMax) (hri : r ≠ k.idleProc)
    (hst : (k.procs r).state = .runnable) (hrc : r ≠ k.currentProc) :
    ((∀ x, ¬ Selects e x) ∧ k'.currentProc = k.currentProc ∧ k'.idleProc = k.idleProc)
      ∨ (Selects e k'.currentProc ∧ k'.idleProc = k.idleProc ∧ k'.currentProc ≠ k'.idleProc
        ∧ ahead procsMax k.currentProc k'.currentProc ≤ ahead procsMax k.currentProc r) := by
  have hset' := settled_step h hs
  have he := h.eligible hr hri hst
  cases hs with
  | create hc =>
      have hm := made_createProcess hc
      exact Or.inl ⟨fun _ hx => hx, hm.currentProc, hm.idleProc⟩
  | shmGet hl hc =>
      have hk := keep_shmGet 0 hc
      exact Or.inl ⟨fun _ hx => hx, hk.currentProc, hk.idleProc⟩
  | shmAttach hl hc =>
      have hk := keep_shmAttach hc
      exact Or.inl ⟨fun _ hx => hx, hk.currentProc, hk.idleProc⟩
  | shmDetach hl hc =>
      have hk := keep_shmDetach hc
      exact Or.inl ⟨fun _ hx => hx, hk.currentProc, hk.idleProc⟩
  | exit hl hne hc =>
      obtain ⟨k1, hrel, rfl⟩ := sysExit_ok hc
      have hg := gone_releaseProcess hrel
      have hother : ∀ x, x ≠ k.currentProc → k1.procs x = k.procs x := by
        intro x hx
        rw [hg.procs x hx]
        exact setProc_of_ne _ _ _ hx
      have hel : ∀ x, Eligible k1 x → x ≠ k.currentProc ∧ Eligible k x := by
        intro x hx
        have hxc : x ≠ k.currentProc := by
          rintro rfl
          have := hx.1
          rw [hg.state] at this
          cases this
        refine ⟨hxc, ?_⟩
        unfold Eligible at hx ⊢
        rwa [hother x hxc] at hx
      have her : Eligible k1 r := by
        unfold Eligible at he ⊢
        rwa [hother r hrc]
      obtain ⟨g1, g2, g3⟩ := hg.findNext_lowest rfl hr her
      refine Or.inr ⟨rfl, hg.idleProc, ?_, ?_⟩
      · exact hset'.eligible_ne_idle (r := findNext k1) g1
      · show ahead procsMax k.currentProc (findNext k1) ≤ _
        obtain ⟨hxc, hx⟩ := hel _ g1
        refine ahead_le_of_le ?_ g3
        -- the one selected and `r` are on the same side of the one that exited
        rcases hone with hlow | hhigh
        · have h1 : ¬ findNext k1 < k.currentProc := fun hlt => hlow _ hlt hx
          have h2 : ¬ r < k.currentProc := fun hlt => hlow _ hlt he
          omega
        · have h1 : ¬ k.currentProc < findNext k1 := fun hlt => hhigh _ hlt g2 hx
          have h2 : ¬ k.currentProc < r := fun hlt => hhigh _ hlt hr he
          omega
  | yield hc =>
      obtain rfl := h.yield_eq hc
      obtain ⟨g1, g2⟩ := h.findNext_ahead hi hr he
      exact Or.inr ⟨rfl, rfl, hset'.eligible_ne_idle (r := findNext k) g1, g2⟩

end

/-- Steps of runs in which every exit is one-sided. -/
def FairStep (L : Layout) (k : Kernel) (e : Event) (k' : Kernel) : Prop :=
  Step L k e k' ∧ OneSided k e

/-- The round that began at `q` has not come as far as `r`. -/
structure Short (q r : Nat) (k : Kernel) : Prop where
  settled : Settled k
  busy : k.currentProc ≠ k.idleProc
  notIdle : r ≠ k.idleProc
  short : k.currentProc = q ∨ ahead procsMax q k.currentProc < ahead procsMax q r

section

variable {L : Layout} {k k' : Kernel} {q r : Nat}

theorem Short.ne_current (h : Short q r k) (hqr : r ≠ q) : r ≠ k.currentProc := by
  rintro rfl
  rcases h.short with e | e
  · exact hqr e
  · exact absurd e (Nat.lt_irrefl _)

/-- A step selects `r`, or keeps the round short of `r` and does not select `q`. -/
theorem short_step {e : Event} (h : Short q r k) (hs : FairStep L k e k') (hq : q < procsMax)
    (hr : r < procsMax) (hqr : r ≠ q) (hst : (k.procs r).state = .runnable) :
    Selects e r ∨ (Short q r k' ∧ ¬ Selects e q) := by
  have hset' := settled_step h.settled hs.1
  rcases turn_step h.settled hs.1 hs.2 h.busy hr h.notIdle hst (h.ne_current hqr) with
    ⟨hno, hc, hidle⟩ | ⟨hsel, hidle, hbusy, hle⟩
  · refine Or.inr ⟨⟨hset', ?_, ?_, ?_⟩, hno q⟩
    · rw [hc, hidle]; exact h.busy
    · rw [hidle]; exact h.notIdle
    · rw [hc]; exact h.short
  · rcases ahead_step hq hr h.settled.current_lt hset'.current_lt hqr h.short hle with hx | ⟨hx, hlt⟩
    · rw [hx] at hsel
      exact Or.inl hsel
    · exact Or.inr ⟨⟨hset', hbusy, by rw [hidle]; exact h.notIdle, Or.inr hlt⟩,
        fun hsq => hx (hsel.unique hsq)⟩

/-- Along a path, while `r` can run: it is selected, or the round stays short of it. -/
theorem short_path {es : List (Event × Kernel)} (hq : q < procsMax) (hr : r < procsMax)
    (hqr : r ≠ q) (hp : Path (FairStep L) k es k') : Short q r k →
    (k.procs r).state = .runnable → (∀ x, x ∈ es → (x.2.procs r).state = .runnable) →
    (∃ x, x ∈ es ∧ Selects x.1 r) ∨ (Short q r k' ∧ (k'.procs r).state = .runnable) := by
  induction hp with
  | nil => exact fun h hst _ => Or.inr ⟨h, hst⟩
  | @cons s s' s'' e es hs _ ih =>
      intro h hst hall
      rcases short_step h hs hq hr hqr hst with hsel | ⟨h', _⟩
      · exact Or.inl ⟨(e, s'), List.mem_cons_self, hsel⟩
      · have hs' := hall (e, s') List.mem_cons_self
        rcases ih h' hs' fun x hx => hall x (List.mem_cons_of_mem _ hx) with ⟨x, hx, hsel⟩ | h''
        · exact Or.inl ⟨x, List.mem_cons_of_mem _ hx, hsel⟩
        · exact Or.inr h''

end

theorem settled_run {L : Layout} {tr : List Event} {k : Kernel}
    (h : Run (Booted L) (FairStep L) tr k) : Settled k :=
  Run.invariant (P := Settled) (fun _ => settled_boot) (fun _ _ _ hs hst => settled_step hs hst.1) h

/--
**Round robin is fair** as long as every exit is one-sided. `q` is selected, and after any number of
further steps selected again. Then every other process that could run all the time in between was
selected in between.
-/
theorem round_robin_fair {L : Layout} {tr : List Event} {k₀ k₁ k₂ k₃ : Kernel} {e₁ e₂ : Event}
    {es : List (Event × Kernel)} {q r : Nat}
    (hrun : Run (Booted L) (FairStep L) tr k₀)
    (hfirst : FairStep L k₀ e₁ k₁) (hq₁ : Selects e₁ q) (hq : q ≠ k₁.idleProc)
    (hbetween : Path (FairStep L) k₁ es k₂)
    (hsecond : FairStep L k₂ e₂ k₃) (hq₂ : Selects e₂ q)
    (hr : r < procsMax) (hri : r ≠ k₁.idleProc) (hrq : r ≠ q)
    (hst : (k₁.procs r).state = .runnable)
    (hall : ∀ x, x ∈ es → (x.2.procs r).state = .runnable) :
    ∃ x, x ∈ es ∧ Selects x.1 r := by
  have hset₁ := settled_step (settled_run hrun) hfirst.1
  have hcur : k₁.currentProc = q := by
    cases hfirst.1 with
    | exit _ _ _ => exact hq₁
    | yield _ => exact hq₁
    | _ => cases hq₁
  have hqlt : q < procsMax := hcur ▸ hset₁.current_lt
  have h₁ : Short q r k₁ := ⟨hset₁, by rw [hcur]; exact hq, hri, Or.inl hcur⟩
  rcases short_path hqlt hr hrq hbetween h₁ hst hall with hsel | ⟨h₂, hst₂⟩
  · exact hsel
  · -- a round that is short of `r` cannot be back at `q`
    rcases short_step h₂ hsecond hqlt hr hrq hst₂ with hsel | ⟨_, hno⟩
    · exact absurd (hsel.unique hq₂) hrq
    · exact absurd hq₂ hno

/-- Processes 1 and 2 take turns: 2 is selected between two selections of 1. -/
theorem round_robin_fair_two :
    ∃ k₀ k₁ k₂ k₃, Run (Booted sampleLayout) (FairStep sampleLayout) (creates 2) k₀
      ∧ FairStep sampleLayout k₀ (.yield 1) k₁ ∧ FairStep sampleLayout k₁ (.yield 2) k₂
      ∧ FairStep sampleLayout k₂ (.yield 1) k₃
      ∧ ∃ x, x ∈ [(Event.yield 2, k₂)] ∧ Selects x.1 2 := by
  obtain ⟨k₀, n, hrun, _, h₀, hcur₀, _⟩ := opening_run (L := sampleLayout)
    (I := Booted sampleLayout) (S := FairStep sampleLayout) (by decide)
    (fun _ hb _ => hb) (fun _ _ _ hs _ _ => ⟨hs, trivial⟩) 2 (by decide) (by decide)
  obtain ⟨hs₁, h₁⟩ := h₀.yield (by decide)
  rw [h₀.next_idle hcur₀ (by decide) (by decide)] at hs₁
  have hcur₁ : (scheduled k₀).currentProc = 1 := h₀.next_idle hcur₀ (by decide) (by decide)
  obtain ⟨hs₂, h₂⟩ := h₁.yield (by decide)
  have hnext₂ := h₁.next hcur₁ (by decide) (by decide) (by decide)
  rw [hnext₂] at hs₂
  obtain ⟨hs₃, _⟩ := h₂.yield (by decide)
  have hcur₂ : (scheduled (scheduled k₀)).currentProc = 2 := hnext₂
  -- going round from 2, only 1 and 2 can run, and 1 comes first
  have hnext₃ : findNext (scheduled (scheduled k₀)) = 1 := by
    obtain ⟨hel, hle⟩ := h₂.inv.settled.findNext_ahead (r := 1)
      (by rw [hcur₂, h₂.idle]; decide) (by decide) (h₂.eligible (by decide) (by decide) (by decide))
    obtain ⟨hlt, _⟩ := findNext_runnable h₂.inv.settled.idle_lt h₂.inv.settled.idle_runnable
    have hne := h₂.inv.settled.eligible_ne_idle hel
    rw [h₂.idle] at hne
    rw [hcur₂] at hle
    obtain ⟨x, hx⟩ : ∃ x, findNext (scheduled (scheduled k₀)) = x := ⟨_, rfl⟩
    rw [hx] at hel hle hlt hne ⊢
    have hx2 : x ≤ 2 := by
      by_contra hgt
      have := hel.1
      rw [h₂.unused x (by omega) hlt] at this
      cases this
    rcases (by omega : x = 1 ∨ x = 2) with rfl | rfl
    · rfl
    · exact absurd hle (by decide)
  rw [hnext₃] at hs₃
  have hf₁ : FairStep sampleLayout k₀ (.yield 1) (scheduled k₀) := ⟨hs₁, trivial⟩
  have hf₃ : FairStep sampleLayout (scheduled (scheduled k₀)) (.yield 1) _ := ⟨hs₃, trivial⟩
  refine ⟨k₀, _, _, _, hrun, hf₁, ⟨hs₂, trivial⟩, hf₃, ?_⟩
  refine round_robin_fair (q := 1) hrun hf₁ rfl
    (by rw [h₁.idle]; decide) (.cons ⟨hs₂, trivial⟩ .nil) hf₃ rfl (by decide)
    (by rw [h₁.idle]; decide) (by decide) (h₁.runnable 2 (by decide)) ?_
  intro x hx
  rw [List.mem_singleton.mp hx]
  exact h₂.runnable 2 (by decide)

/--
**An exit can cost a turn.** Processes 1, 2 and 3 can run all the time. 1 is selected, then 2; 2 exits,
and the scan that should go on to 3 starts from slot 0 and selects 1 again.
-/
theorem exit_skips_turn :
    ∃ k₀ k₁ k₂ k₃, Run (Booted sampleLayout) (Step sampleLayout) (creates 3) k₀
      ∧ Step sampleLayout k₀ (.yield 1) k₁ ∧ Step sampleLayout k₁ (.yield 2) k₂
      ∧ Step sampleLayout k₂ (.exit 2 1) k₃
      ∧ (∀ k, k ∈ [k₁, k₂, k₃] → k.idleProc = 0 ∧ (k.procs 1).state = .runnable
        ∧ (k.procs 3).state = .runnable) := by
  obtain ⟨k₀, n, hrun, _, h₀, hcur₀, _⟩ := opening_run (L := sampleLayout)
    (I := Booted sampleLayout) (S := Step sampleLayout) (by decide)
    (fun _ hb _ => hb) (fun _ _ _ hs _ _ => hs) 3 (by decide) (by decide)
  obtain ⟨hs₁, h₁⟩ := h₀.yield (by decide)
  rw [h₀.next_idle hcur₀ (by decide) (by decide)] at hs₁
  have hcur₁ : (scheduled k₀).currentProc = 1 := h₀.next_idle hcur₀ (by decide) (by decide)
  obtain ⟨hs₂, h₂⟩ := h₁.yield (by decide)
  have hnext₂ := h₁.next hcur₁ (by decide) (by decide) (by decide)
  rw [hnext₂] at hs₂
  obtain ⟨k₂, hk₂⟩ : ∃ k₂, scheduled (scheduled k₀) = k₂ := ⟨_, rfl⟩
  have hcur₂ : (scheduled (scheduled k₀)).currentProc = 2 := hnext₂
  rw [hk₂] at hs₂ h₂ hcur₂
  obtain ⟨k3, hrel, hs₃⟩ := exit_ok h₂.inv.own (k := k₂)
    (by rw [hcur₂]; exact ⟨by decide, by rw [h₂.runnable 2 (by decide)]; decide⟩)
    (by rw [hcur₂, h₂.idle]; decide)
  have hg := gone_releaseProcess hrel
  rw [hcur₂] at hs₃ hg
  have hother : ∀ x, x ≠ 2 → k3.procs x = k₂.procs x := by
    intro x hx
    rw [hg.procs x hx]
    unfold exiting
    rw [hcur₂]
    exact setProc_of_ne _ _ _ hx
  -- the lowest slot that can run is 1
  have hnext₃ : findNext k3 = 1 := by
    have he : Eligible k3 1 := by
      unfold Eligible
      rw [hother 1 (by decide)]
      exact h₂.eligible (by decide) (by decide) (by decide)
    obtain ⟨hel, _, hle⟩ := hg.findNext_lowest hcur₂ (by decide) he
    have hne : findNext k3 ≠ 0 := by
      intro e
      rw [e] at hel
      have h0 := hel.2
      rw [hother 0 (by decide)] at h0
      have hp := h₂.inv.settled.idle_pid
      rw [h₂.idle] at hp
      omega
    omega
  rw [hnext₃] at hs₃
  refine ⟨k₀, _, _, _, hrun, hs₁, hs₂, hs₃, ?_⟩
  intro k hk
  simp only [List.mem_cons, List.not_mem_nil, or_false] at hk
  rcases hk with rfl | rfl | rfl
  · exact ⟨h₁.idle, h₁.runnable 1 (by decide), h₁.runnable 3 (by decide)⟩
  · exact ⟨h₂.idle, h₂.runnable 1 (by decide), h₂.runnable 3 (by decide)⟩
  · refine ⟨hg.idleProc.trans h₂.idle, ?_, ?_⟩
    · show (k3.procs 1).state = .runnable
      rw [hother 1 (by decide)]
      exact h₂.runnable 1 (by decide)
    · show (k3.procs 3).state = .runnable
      rw [hother 3 (by decide)]
      exact h₂.runnable 3 (by decide)

/-! ## Slots and selections -/

section

variable {L : Layout} {k k' : Kernel} {p q : Nat}

theorem settled_all {tr : List Event} (h : Run (Booted L) (Step L) tr k) : Settled k :=
  Run.invariant (P := Settled) (fun _ => settled_boot) (fun _ _ _ hs hst => settled_step hs hst) h

/-- Whoever a `yield` selects can run, or nobody can and it is the idle process. -/
theorem selected_step {e : Event} (h : Settled k) (hs : Step L k e k') (hq : Selects e q) :
    k'.currentProc = q ∧ (Eligible k' q ∨ (q = k'.idleProc ∧ ∀ p, p < procsMax → ¬ Eligible k' p)) := by
  have key : ∀ k1 : Kernel, findNext k1 = q →
      Eligible k1 q ∨ (q = k1.idleProc ∧ ∀ p, p < procsMax → ¬ Eligible k1 p) := by
    rintro k1 rfl
    rcases findNext_cases k1 with ⟨i, _, e, he, _⟩ | ⟨e, hno⟩
    · rw [e]
      exact Or.inl he
    · refine Or.inr ⟨e, fun p hp => ?_⟩
      obtain ⟨j, hj, rfl⟩ := scanSlot_surj k1 hp
      exact hno j hj
  cases hs with
  | exit _ _ hc =>
      obtain ⟨k1, _, rfl⟩ := sysExit_ok hc
      exact ⟨hq, key k1 hq⟩
  | yield hc =>
      obtain rfl := h.yield_eq hc
      exact ⟨hq, key k hq⟩
  | _ => cases hq

/-- The idle process keeps its slot. -/
theorem idle_step {e : Event} (h : Settled k) (hs : Step L k e k') :
    k'.idleProc = k.idleProc ∧ (∀ next, e ≠ .exit k.idleProc next)
      ∧ ∀ image, e ≠ .create image k.idleProc := by
  cases hs with
  | create hc =>
      have hm := made_createProcess hc
      refine ⟨hm.idleProc, nofun, ?_⟩
      intro image he
      injection he with _ he
      have := hm.wasUnused
      rw [he, h.idle_runnable] at this
      cases this
  | shmGet hl hc => exact ⟨(keep_shmGet 0 hc).idleProc, nofun, nofun⟩
  | shmAttach hl hc => exact ⟨(keep_shmAttach hc).idleProc, nofun, nofun⟩
  | shmDetach hl hc => exact ⟨(keep_shmDetach hc).idleProc, nofun, nofun⟩
  | exit hl hi hc =>
      obtain ⟨k1, hrel, rfl⟩ := sysExit_ok hc
      refine ⟨(gone_releaseProcess hrel).idleProc, ?_, nofun⟩
      intro next he
      injection he with he
      exact hi he
  | yield hc =>
      obtain rfl := h.yield_eq hc
      exact ⟨rfl, nofun, nofun⟩

/-- A slot that is not in use stays so, is not selected and does not exit, unless it is filled. -/
theorem unused_step {e : Event} (h : Settled k) (hs : Step L k e k') (hp : p < procsMax)
    (hu : (k.procs p).state = .unused) (hno : ∀ image, e ≠ .create image p) :
    (k'.procs p).state = .unused ∧ ¬ Selects e p ∧ ∀ next, e ≠ .exit p next := by
  have hset' := settled_step h hs
  have hlive : ∀ {q}, Live k q → p ≠ q := by
    rintro q hl rfl
    exact hl.2 hu
  have hstay : (k'.procs p).state = .unused := by
    cases hs with
    | @create _ image q hc =>
        have hpq : p ≠ q := fun e => hno image (by rw [e])
        rw [(made_createProcess hc).procs p hpq]
        exact hu
    | shmGet hl hc => rw [(keep_shmGet _ hc).procs p (hlive hl)]; exact hu
    | shmAttach hl hc => rw [(keep_shmAttach hc).procs p (hlive hl)]; exact hu
    | shmDetach hl hc => rw [(keep_shmDetach hc).procs p (hlive hl)]; exact hu
    | exit hl hi hc =>
        obtain ⟨k1, hrel, rfl⟩ := sysExit_ok hc
        show (k1.procs p).state = .unused
        rw [(gone_releaseProcess hrel).procs p (hlive hl)]
        unfold exiting
        rw [setProc_of_ne _ _ _ (hlive hl)]
        exact hu
    | yield hc =>
        obtain rfl := h.yield_eq hc
        exact hu
  refine ⟨hstay, ?_, ?_⟩
  · intro hsel
    have hrun := hset'.current_runnable
    rw [(selected_step h hs hsel).1, hstay] at hrun
    cases hrun
  · rintro next rfl
    cases hs with
    | exit hl hi hc => exact hl.2 hu

end

/--
**The scheduler is safe.** In every state of every run:
* the pid of a process is its slot number plus one, except for the idle process, whose pid is 0;
* whoever a `yield` selects can run, or nobody can and it is the idle process;
* a `yield` releases nobody, and the one that ends an exit releases the process that exited, whose
  slot is then unused, is never selected and never released again, until it is filled anew;
* the idle process is always in the same slot, which is never released nor filled.
-/
theorem scheduler_safe {L : Layout} {tr : List Event} {k : Kernel}
    (h : Run (Booted L) (Step L) tr k) :
    (∀ p, Live k p → p ≠ k.idleProc → (k.procs p).pid = p + 1)
    ∧ (Live k k.idleProc ∧ (k.procs k.idleProc).pid = 0)
    ∧ (∀ e k' q, Step L k e k' → Selects e q → k'.currentProc = q
      ∧ (Eligible k' q ∨ (q = k'.idleProc ∧ ∀ p, p < procsMax → ¬ Eligible k' p)))
    ∧ (∀ next k', Step L k (.yield next) k' → k' = { k with currentProc := next })
    ∧ (∀ p next k', Step L k (.exit p next) k' →
      (∃ k1, releaseProcess L (exiting k) p = .ok k1 ∧ k' = { k1 with currentProc := next })
      ∧ (k'.procs p).state = .unused
      ∧ ∀ es k'', Path (Step L) k' es k'' → (∀ x, x ∈ es → ∀ image, x.1 ≠ .create image p) →
        (k''.procs p).state = .unused
        ∧ ∀ x, x ∈ es → ¬ Selects x.1 p ∧ ∀ next, x.1 ≠ .exit p next)
    ∧ ∀ es k', Path (Step L) k es k' → k'.idleProc = k.idleProc
      ∧ ∀ x, x ∈ es → (∀ next, x.1 ≠ .exit k.idleProc next)
        ∧ ∀ image, x.1 ≠ .create image k.idleProc := by
  have hset := settled_all h
  refine ⟨?_, ⟨⟨hset.idle_lt, by rw [hset.idle_runnable]; decide⟩, hset.idle_pid⟩, ?_, ?_, ?_, ?_⟩
  · intro p hl hi
    refine hset.pid p hl.1 hi ?_
    cases hst : (k.procs p).state with
    | unused => exact absurd hst hl.2
    | runnable => rfl
    | exited => exact absurd hst (hset.notExited p hl.1)
  · exact fun e k' q hs hq => selected_step hset hs hq
  · intro next k' hs
    cases hs with
    | yield hc =>
        obtain rfl := hset.yield_eq hc
        rfl
  · intro p next k' hs
    have hset' := settled_step hset hs
    cases hs with
    | exit hl hi hc =>
        obtain ⟨k1, hrel, rfl⟩ := sysExit_ok hc
        have hu : ((scheduled k1).procs k.currentProc).state = .unused :=
          (gone_releaseProcess hrel).state
        refine ⟨⟨k1, hrel, rfl⟩, hu, ?_⟩
        intro es k'' hp hno
        obtain ⟨⟨_, h1⟩, h2⟩ := Path.invariant_labels
          (P := fun t => Settled t ∧ (t.procs k.currentProc).state = .unused)
          (C := fun e => ∀ image, e ≠ .create image k.currentProc)
          (Q := fun e => ¬ Selects e k.currentProc ∧ ∀ next, e ≠ .exit k.currentProc next)
          (fun t e t' ht hC hs => by
            obtain ⟨g1, g2⟩ := unused_step ht.1 hs hl.1 ht.2 hC
            exact ⟨⟨settled_step ht.1 hs, g1⟩, g2⟩) hp ⟨hset', hu⟩ hno
        exact ⟨h1, h2⟩
  · intro es k' hp
    obtain ⟨⟨_, h1⟩, h2⟩ := Path.invariant_labels
      (P := fun t => Settled t ∧ t.idleProc = k.idleProc) (C := fun _ => True)
      (Q := fun e => (∀ next, e ≠ .exit k.idleProc next) ∧ ∀ image, e ≠ .create image k.idleProc)
      (fun t e t' ht _ hs => by
        obtain ⟨g1, g2⟩ := idle_step ht.1 hs
        rw [ht.2] at g1 g2
        exact ⟨⟨settled_step ht.1 hs, g1⟩, g2⟩) hp ⟨hset, rfl⟩ fun _ _ => trivial
    exact ⟨h1, h2⟩

/--
Two processes are made, the first one is selected and exits. That selects the second one, and so does
its next `yield`, while the slot of the first stays unused.
-/
theorem scheduler_safe_exit :
    ∃ k₁ k₂ k₃, Run (Booted sampleLayout) (Step sampleLayout) (creates 2 ++ [.yield 1]) k₁
      ∧ ((k₁.procs 0).pid = 0 ∧ (k₁.procs 1).pid = 2 ∧ (k₁.procs 2).pid = 3)
      ∧ Step sampleLayout k₁ (.exit 1 2) k₂ ∧ Step sampleLayout k₂ (.yield 2) k₃
      ∧ (k₃.procs 1).state = .unused ∧ k₃.currentProc = 2 ∧ k₃.idleProc = 0 := by
  obtain ⟨k, n, hrun, _, h, hcur, _⟩ := opening_run (L := sampleLayout)
    (I := Booted sampleLayout) (S := Step sampleLayout) (by decide)
    (fun _ hb _ => hb) (fun _ _ _ hs _ _ => hs) 2 (by decide) (by decide)
  obtain ⟨hs₁, h₁⟩ := h.yield (by decide)
  have hnext := h.next_idle hcur (by decide) (by decide)
  rw [hnext] at hs₁
  have hrun₁ := Run.snoc hrun hs₁
  have hcur₁ : (scheduled k).currentProc = 1 := hnext
  obtain ⟨k₁, hk₁⟩ : ∃ k₁, scheduled k = k₁ := ⟨_, rfl⟩
  rw [hk₁] at hrun₁ h₁ hcur₁
  obtain ⟨hpid, ⟨_, hidle⟩, hselect, _, hexit, _⟩ := scheduler_safe hrun₁
  rw [h₁.idle] at hidle hpid
  have hpid₂ := hpid 2 (h₁.live (by decide) (by decide)) (by decide)
  -- process 1 exits
  obtain ⟨k₂, hrel, hs₂⟩ := exit_ok h₁.inv.own (by rw [hcur₁]; exact h₁.live (by decide) (by decide))
    (by rw [hcur₁, h₁.idle]; decide)
  rw [hcur₁] at hrel hs₂
  have hgone := gone_releaseProcess hrel
  obtain ⟨_, hunused, hlater⟩ := hexit 1 _ _ hs₂
  have hproc₂ : ∀ q, q ≠ 1 → (scheduled k₂).procs q = k₁.procs q := by
    intro q hq
    refine (hgone.procs q hq).trans (setProc_of_ne _ _ _ ?_)
    rw [hcur₁]
    exact hq
  have hidle₂ : (scheduled k₂).idleProc = 0 := hgone.idleProc.trans h₁.idle
  -- and only process 2 is left
  have hel : Eligible (scheduled k₂) 2 := by
    unfold Eligible
    rw [hproc₂ 2 (by decide), hpid₂]
    exact ⟨h₁.runnable 2 (by decide), by decide⟩
  have honly : ∀ q, q < procsMax → Eligible (scheduled k₂) q → q = 2 := by
    intro q hq hq'
    by_contra hne
    obtain rfl | rfl | hgt : q = 0 ∨ q = 1 ∨ 2 < q := by omega
    · have := hq'.2
      rw [hproc₂ 0 (by decide), hidle] at this
      cases this
    · have := hq'.1
      rw [hunused] at this
      cases this
    · have := hq'.1
      rw [hproc₂ q (by omega), h₁.unused q hgt hq] at this
      cases this
  have hlt : ∀ {t : Kernel} {tr : List Event}, Run (Booted sampleLayout) (Step sampleLayout) tr t →
      t.currentProc < procsMax := fun hr => (settled_all hr).current_lt
  have hrun₂ := Run.snoc hrun₁ hs₂
  have hto₂ : findNext k₂ = 2 := by
    obtain ⟨_, h' | ⟨_, hno⟩⟩ := hselect _ _ _ hs₂ rfl
    · exact honly _ (hlt hrun₂) h'
    · exact absurd hel (hno 2 (by decide))
  rw [hto₂] at hs₂ hrun₂
  -- the next `yield`
  obtain ⟨_, _, hselect₂, _⟩ := scheduler_safe hrun₂
  have hs₃ := (settled_all hrun₂).yield_step sampleLayout
  have hto₃ : findNext (scheduled k₂) = 2 := by
    obtain ⟨_, h' | ⟨_, hno⟩⟩ := hselect₂ _ _ _ hs₃ rfl
    · exact honly _ (hlt (hrun₂.snoc hs₃)) h'
    · exact absurd hel (hno 2 (by decide))
  rw [hto₃] at hs₃
  refine ⟨k₁, scheduled k₂, _, hrun₁, ⟨hidle, hpid 1 (h₁.live (by decide) (by decide)) (by decide),
    hpid₂⟩, hs₂, hs₃, ?_, hto₃, hidle₂⟩
  exact (hlater _ _ (.cons hs₃ .nil) fun x hx image => by
    obtain rfl := List.mem_singleton.mp hx
    exact nofun).1

end Os1000.Proof
