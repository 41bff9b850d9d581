import Os1000.Proof.Calls

/-!
# The process table between calls

A slot is unused, and then blank, or runnable, and then its pid is its slot number
plus one, except for the idle process, whose pid is zero. `PROC_EXITED` is never seen
between two calls: the `yield` at the end of `SYS_EXIT` releases the process before
anything else runs. None of this depends on the allocator or on what a process
recorded, so it holds in every run without a condition.
-/

namespace Os1000.Proof

open Os1000 Lib

/-- The process table as every call leaves it. -/
structure Settled (k : Kernel) : Prop where
  notExited : ∀ p, p < procsMax → (k.procs p).state ≠ .exited
  /-- An unused slot owns nothing and has nothing attached. -/
  blank : ∀ p, p < procsMax → (k.procs p).state = .unused →
    (k.procs p).appended = [] ∧ ∀ i, i < procShmMax → (k.procs p).shmMappings i = .cleared
  pid : ∀ p, p < procsMax → p ≠ k.idleProc → (k.procs p).state = .runnable →
    (k.procs p).pid = p + 1
  idle_lt : k.idleProc < procsMax
  idle_pid : (k.procs k.idleProc).pid = 0
  idle_runnable : (k.procs k.idleProc).state = .runnable
  current_lt : k.currentProc < procsMax
  current_runnable : (k.procs k.currentProc).state = .runnable

/-! ## The scan of `yield` -/

/-- What the scan settled on, and why. -/
theorem findNext_cases (k : Kernel) :
    (∃ i, i < procsMax ∧ findNext k = scanSlot k i ∧ Eligible k (scanSlot k i)
      ∧ ∀ j, j < i → ¬ Eligible k (scanSlot k j)) ∨
    (findNext k = k.idleProc ∧ ∀ j, j < procsMax → ¬ Eligible k (scanSlot k j)) := by
  unfold findNext
  split
  · rename_i i hf
    rw [List.find?_range_eq_some, decide_eq_true_eq] at hf
    refine Or.inl ⟨i, List.mem_range.mp hf.2.1, rfl, hf.1, ?_⟩
    intro j hj
    simpa using hf.2.2 j hj
  · rename_i hf
    rw [List.find?_eq_none] at hf
    refine Or.inr ⟨rfl, ?_⟩
    intro j hj
    simpa using hf j (List.mem_range.mpr hj)

/-- The first slot of the scan that can run is the one it settles on. -/
theorem findNext_eq {k : Kernel} {i q : Nat} (hi : i < procsMax) (hq : scanSlot k i = q)
    (he : Eligible k q) (hno : ∀ j, j < i → ¬ Eligible k (scanSlot k j)) : findNext k = q := by
  subst hq
  rcases findNext_cases k with ⟨i', hi', e, he', hno'⟩ | ⟨_, hno'⟩
  · rcases Nat.lt_trichotomy i i' with h | h | h
    · exact absurd he (hno' i h)
    · rw [e, h]
    · exact absurd he' (hno i' h)
  · exact absurd he (hno' i hi)

theorem scanSlot_lt (k : Kernel) (i : Nat) : scanSlot k i < procsMax :=
  Nat.mod_lt _ (by decide)

/-- The scan reaches every slot. -/
theorem scanSlot_surj (k : Kernel) {p : Nat} (hp : p < procsMax) :
    ∃ i, i < procsMax ∧ scanSlot k i = p := by
  refine ⟨(p + (procsMax - (k.procs k.currentProc).pid % procsMax)) % procsMax,
    Nat.mod_lt _ (by decide), ?_⟩
  unfold scanSlot
  unfold procsMax at *
  omega

/-- `yield` picks a runnable process, provided the idle process is one. -/
theorem findNext_runnable {k : Kernel} (hlt : k.idleProc < procsMax)
    (hr : (k.procs k.idleProc).state = .runnable) :
    findNext k < procsMax ∧ (k.procs (findNext k)).state = .runnable := by
  rcases findNext_cases k with ⟨i, _, e, he, _⟩ | ⟨e, _⟩
  · rw [e]; exact ⟨scanSlot_lt k i, he.1⟩
  · rw [e]; exact ⟨hlt, hr⟩

/-! ## Steps -/

section

variable {L : Layout} {k k' : Kernel} {p : Nat}

/-- Calls on behalf of a live process. -/
theorem Settled.keep (h : Settled k) (hl : Live k p) (hk : Keep p k k') : Settled k' := by
  have hst : ∀ q, (k'.procs q).state = (k.procs q).state := by
    intro q
    by_cases hq : q = p
    · rw [hq]; exact hk.state
    · rw [hk.procs q hq]
  have hpid : ∀ q, (k'.procs q).pid = (k.procs q).pid := by
    intro q
    by_cases hq : q = p
    · rw [hq]; exact hk.pid
    · rw [hk.procs q hq]
  refine ⟨?_, ?_, ?_, ?_, ?_, ?_, ?_, ?_⟩
  · intro q hq
    rw [hst]; exact h.notExited q hq
  · intro q hq hu
    rw [hst] at hu
    have hqp : q ≠ p := fun e => hl.2 (e ▸ hu)
    rw [hk.procs q hqp]
    exact h.blank q hq hu
  · intro q hq hi hr
    rw [hk.idleProc] at hi
    rw [hst] at hr
    rw [hpid]; exact h.pid q hq hi hr
  · rw [hk.idleProc]; exact h.idle_lt
  · rw [hk.idleProc, hpid]; exact h.idle_pid
  · rw [hk.idleProc, hst]; exact h.idle_runnable
  · rw [hk.currentProc]; exact h.current_lt
  · rw [hk.currentProc, hst]; exact h.current_runnable

/-- Picking the next process. -/
theorem Settled.scheduled (hne : ∀ p, p < procsMax → (k.procs p).state ≠ .exited)
    (hb : ∀ p, p < procsMax → (k.procs p).state = .unused →
      (k.procs p).appended = [] ∧ ∀ i, i < procShmMax → (k.procs p).shmMappings i = .cleared)
    (hpid : ∀ p, p < procsMax → p ≠ k.idleProc → (k.procs p).state = .runnable →
      (k.procs p).pid = p + 1)
    (hlt : k.idleProc < procsMax) (hip : (k.procs k.idleProc).pid = 0)
    (hir : (k.procs k.idleProc).state = .runnable) : Settled (scheduled k) := by
  obtain ⟨h1, h2⟩ := findNext_runnable hlt hir
  exact ⟨hne, hb, hpid, hlt, hip, hir, h1, h2⟩

/-- `create_process` leaves a runnable process in an unused slot. -/
structure Made (p : Nat) (k k' : Kernel) : Prop extends Local p k k' where
  lt : p < procsMax
  wasUnused : (k.procs p).state = .unused
  lowest : ∀ q, q < p → (k.procs q).state ≠ .unused
  pid : (k'.procs p).pid = p + 1
  state : (k'.procs p).state = .runnable
  wrote : (k.procs p).regionWrites ++ List.range maxRegions <+: (k'.procs p).regionWrites
  freed : k'.freed = k.freed

theorem made_createProcess {image : List UInt8} (h : createProcess L k image = .ok (p, k')) :
    Made p k k' := by
  obtain ⟨hp, hu, hlow, k1, hb, rfl⟩ := createProcess_ok h
  have hreset := resetProcess_spec L k p
  have hg := grow_buildSpace hb
  refine ⟨(hreset.toLocal.trans hg.toLocal).trans (local_setProc k1 p _), hp, hu, hlow, ?_, ?_, ?_, ?_⟩
  · rw [setProc_self]
  · rw [setProc_self]
  · rw [setProc_self, ← hreset.wrote]
    exact hg.writes
  · exact hg.freed.trans hreset.freed

theorem Settled.made (h : Settled k) (hm : Made p k k') : Settled k' := by
  have hidle : k.idleProc ≠ p := by
    intro e
    have := h.idle_runnable
    rw [e, hm.wasUnused] at this
    cases this
  have hcur : k.currentProc ≠ p := by
    intro e
    have := h.current_runnable
    rw [e, hm.wasUnused] at this
    cases this
  refine ⟨?_, ?_, ?_, ?_, ?_, ?_, ?_, ?_⟩
  · intro q hq
    by_cases hqp : q = p
    · rw [hqp, hm.state]; decide
    · rw [hm.procs q hqp]; exact h.notExited q hq
  · intro q hq hu
    have hqp : q ≠ p := by
      rintro rfl
      rw [hm.state] at hu
      cases hu
    rw [hm.procs q hqp] at hu ⊢
    exact h.blank q hq hu
  · intro q hq hi hr
    by_cases hqp : q = p
    · rw [hqp]; exact hm.pid
    · rw [hm.procs q hqp] at hr ⊢
      rw [hm.idleProc] at hi
      exact h.pid q hq hi hr
  · rw [hm.idleProc]; exact h.idle_lt
  · rw [hm.idleProc, hm.procs _ hidle]; exact h.idle_pid
  · rw [hm.idleProc, hm.procs _ hidle]; exact h.idle_runnable
  · rw [hm.currentProc]; exact h.current_lt
  · rw [hm.currentProc, hm.procs _ hcur]; exact h.current_runnable

theorem Settled.exit (h : Settled k) (hi : k.currentProc ≠ k.idleProc) {k1 : Kernel}
    (hg : Gone k.currentProc (exiting k) k1) : Settled (Proof.scheduled k1) := by
  have hother : ∀ q, q ≠ k.currentProc → k1.procs q = k.procs q := by
    intro q hq
    rw [hg.procs q hq]
    exact setProc_of_ne _ _ _ hq
  have hidle : k1.idleProc = k.idleProc := hg.idleProc
  apply Settled.scheduled
  · intro q hq
    by_cases hqc : q = k.currentProc
    · rw [hqc, hg.state]; decide
    · rw [hother q hqc]; exact h.notExited q hq
  · intro q hq hu
    by_cases hqc : q = k.currentProc
    · rw [hqc]; exact ⟨hg.appended, hg.mappings⟩
    · rw [hother q hqc] at hu ⊢
      exact h.blank q hq hu
  · intro q hq hqi hr
    have hqc : q ≠ k.currentProc := by
      rintro rfl
      rw [hg.state] at hr
      cases hr
    rw [hother q hqc] at hr ⊢
    rw [hidle] at hqi
    exact h.pid q hq hqi hr
  · rw [hidle]; exact h.idle_lt
  · rw [hidle, hother _ hi.symm]; exact h.idle_pid
  · rw [hidle, hother _ hi.symm]; exact h.idle_runnable

/-- A `yield` between calls releases nobody. -/
theorem Settled.yield_eq (h : Settled k) (hy : yield L k = .ok k') : k' = Proof.scheduled k := by
  rcases yield_ok hy with ⟨hst, _⟩ | ⟨_, e⟩
  · exact absurd hst (h.notExited _ h.current_lt)
  · exact e

/-- A `yield` in a settled table cannot fail. -/
theorem Settled.yield_step (h : Settled k) (L : Layout) :
    Step L k (.yield (findNext k)) (Proof.scheduled k) := by
  have hy : yield L k = .ok (Proof.scheduled k) := by
    unfold yield
    dsimp only
    rw [if_neg (h.notExited _ h.current_lt)]
    rfl
  exact .yield hy

/-- **Every call leaves the process table settled.** -/
theorem settled_step {e : Event} (h : Settled k) (hs : Step L k e k') : Settled k' := by
  cases hs with
  | create hc => exact h.made (made_createProcess hc)
  | shmGet hl hc => exact h.keep hl (keep_shmGet _ hc)
  | shmAttach hl hc => exact h.keep hl (keep_shmAttach hc)
  | shmDetach hl hc => exact h.keep hl (keep_shmDetach hc)
  | exit hl hi hc =>
      obtain ⟨k1, hr, rfl⟩ := sysExit_ok hc
      exact h.exit hi (gone_releaseProcess hr)
  | yield hc =>
      rw [h.yield_eq hc]
      exact Settled.scheduled h.notExited h.blank h.pid h.idle_lt h.idle_pid h.idle_runnable

end

/-! ## Boot -/

/-- Every slot is unused. -/
structure Blank (k : Kernel) : Prop where
  pid : ∀ p, (k.procs p).pid = 0
  state : ∀ p, (k.procs p).state = .unused
  appended : ∀ p, (k.procs p).appended = []
  imageRegions : ∀ p, (k.procs p).imageRegions = []
  mappings : ∀ p i, i < procShmMax → (k.procs p).shmMappings i = .cleared

section

variable {L : Layout} {k k' : Kernel}

theorem blank_initProcess (h : Blank k) (p : Nat) : Blank (initProcess L k p) := by
  obtain ⟨hr, hpid, hst⟩ := initProcess_spec L (h.appended p) (h.imageRegions p)
  refine ⟨?_, ?_, ?_, ?_, ?_⟩
  · intro q
    by_cases hq : q = p
    · rw [hq]; exact hpid
    · rw [hr.procs q hq]; exact h.pid q
  · intro q
    by_cases hq : q = p
    · rw [hq]; exact hst
    · rw [hr.procs q hq]; exact h.state q
  · intro q
    by_cases hq : q = p
    · rw [hq]; exact hr.appended
    · rw [hr.procs q hq]; exact h.appended q
  · intro q
    by_cases hq : q = p
    · rw [hq]; exact hr.imageRegions
    · rw [hr.procs q hq]; exact h.imageRegions q
  · intro q
    by_cases hq : q = p
    · rw [hq]; exact hr.mappings
    · rw [hr.procs q hq]; exact h.mappings q

theorem blank_zeroed (m : Mem) (r : Ram) (f : Nat → ShmObject) :
    Blank { Kernel.zeroed m with toRam := r, shmTable := f, nextShmId := 1 } :=
  ⟨fun _ => rfl, fun _ => rfl, fun _ => rfl, fun _ => rfl, fun _ _ _ => rfl⟩

theorem Blank.driven {region : Nat} {r : Ram} (h : Blank k) :
    Blank { k with toRam := r, driverRegions := k.driverRegions ++ [region] } :=
  ⟨h.pid, h.state, h.appended, h.imageRegions, h.mappings⟩

theorem shmInit_spec (k : Kernel) :
    ∃ f, shmInit k = { k with shmTable := f, nextShmId := 1 }
      ∧ ∀ s, s < shmMax → f s = .cleared := by
  have h := loop_inv (f := fun k i => Kernel.setObj k i .cleared) (s := k)
    (fun n k' => ∃ f, k' = { k with shmTable := f } ∧ ∀ s, s < n → f s = .cleared) shmMax
    ⟨k.shmTable, rfl, fun _ h => absurd h (Nat.not_lt_zero _)⟩
    (by
      rintro n _ - ⟨f, rfl, hf⟩
      refine ⟨Function.update f n .cleared, rfl, ?_⟩
      intro s hs
      by_cases hsn : s = n
      · subst hsn; simp
      · rw [Function.update_of_ne hsn]; exact hf s (by omega))
  obtain ⟨f, hk, hf⟩ := h
  refine ⟨f, ?_, hf⟩
  unfold shmInit
  rw [hk]

/-- The state in which a driver has allocated its region. -/
def driven (k : Kernel) (region : Nat) (r : Ram) : Kernel :=
  { k with toRam := r, driverRegions := k.driverRegions ++ [region] }

/--
**Induction over boot**: what holds of the cleared tables and survives every driver's
allocation and the clearing of the process table holds before the idle process is created.
-/
theorem boot_inv {m : Mem} (P : Kernel → Prop)
    (h0 : ∀ f, (∀ s, s < shmMax → f s = ShmObject.cleared) → P { Kernel.zeroed m with
      toRam := initRegions L (Kernel.zeroed m).toRam, shmTable := f, nextShmId := 1 })
    (hdriver : ∀ t n pa region r, P t → n ∈ driverPages →
      allocPages t.toRam n = .ok (pa, region, r) → P (driven t region r))
    (hinit : ∀ t p, p < procsMax → P t → P (initProcess L t p))
    (h : boot L m = .ok k) :
    ∃ k2 p k3, P k2 ∧ createProcess L k2 [] = .ok (p, k3)
      ∧ k = { k3.setProc p fun q => { q with pid := 0 } with idleProc := p, currentProc := p } := by
  unfold boot at h
  obtain ⟨k1, h1, h⟩ := bind_eq_ok.mp h
  unfold initProcesses at h
  obtain ⟨⟨p, k3⟩, h2, h⟩ := bind_eq_ok.mp h
  refine ⟨_, p, k3, ?_, h2, (pure_eq_ok.mp h).symm⟩
  have hk1 : P k1 := by
    obtain ⟨f, hf, hc⟩ := shmInit_spec
      { Kernel.zeroed m with toRam := initRegions L (Kernel.zeroed m).toRam }
    rw [hf] at h1
    refine listM_inv (fun _ t => P t) driverPages (h0 f hc) ?_ h1
    intro _ n t t' hn ht ha
    unfold allocDriver at ha
    obtain ⟨⟨pa, region, r⟩, ha, hb⟩ := bind_eq_ok.mp ha
    rw [← pure_eq_ok.mp hb]
    exact hdriver t n pa region r ht hn ha
  exact loop_inv (fun _ t => P t) procsMax hk1 (fun i t hi ht => hinit t i hi ht)

/-- The idle process is the one in slot 0. -/
theorem settled_boot (h : Booted L k) : Settled k := by
  obtain ⟨m, hm⟩ := h
  obtain ⟨k2, p, k3, hb, hc, rfl⟩ := boot_inv Blank
    (fun f _ => blank_zeroed m _ f) (fun _ _ _ _ _ ht _ _ => ht.driven)
    (fun _ p _ ht => blank_initProcess ht p) hm
  have hmade := made_createProcess hc
  have hother : ∀ q, q ≠ p →
      (k3.setProc p fun q => { q with pid := 0 }).procs q = k2.procs q := by
    intro q hq
    rw [setProc_of_ne _ _ _ hq, hmade.procs q hq]
  refine ⟨?_, ?_, ?_, hmade.lt, ?_, ?_, hmade.lt, ?_⟩
  · intro q hq
    dsimp only
    by_cases hqp : q = p
    · subst hqp
      rw [setProc_self]
      dsimp only
      rw [hmade.state]
      decide
    · rw [hother q hqp, hb.state q]; decide
  · intro q hq hu
    dsimp only at hu ⊢
    have hqp : q ≠ p := by
      rintro rfl
      rw [setProc_self] at hu
      dsimp only at hu
      rw [hmade.state] at hu
      cases hu
    rw [hother q hqp]
    exact ⟨hb.appended q, hb.mappings q⟩
  · intro q hq hi hr
    dsimp only at hi hr
    rw [hother q hi, hb.state q] at hr
    cases hr
  · dsimp only
    rw [setProc_self]
  · dsimp only
    rw [setProc_self]
    exact hmade.state
  · dsimp only
    rw [setProc_self]
    exact hmade.state

end

end Os1000.Proof
