import Os1000.Proof.Isolation
import Mathlib.Data.List.Nodup

/-!
# Nothing is freed twice, and what an exit leaves behind

Over whole runs: the region indices that processes, objects and drivers keep are all
different and all allocated, so that nothing `release_process` and `shm_detach` give
back is refused. And when a process exits, everything it ever recorded goes back to
the allocator exactly once, with one exception. The loop of `release_process` takes
the value 0 in `regions` for an empty entry, but 0 is an index like any other once
`merge_free_regions` has cleared slot 0; a region that got that index stays allocated
and belongs to nobody.
-/

namespace Os1000.Proof

open Os1000 Lib

section

variable {L : Layout} {X : Nat → Prop} {k k' : Kernel} {p : Nat}

/-! ## Exclusive ownership -/

/-- The first `current_idx` entries of the record. -/
def recordedRegions (q : Process) : List Nat := (List.range q.currentIdx).map q.regions

theorem recordedRegions_eq {q : Process} (h : Recorded q)
    (hlen : q.appended.length ≤ procRegionMax) : recordedRegions q = q.appended := by
  have hidx := h.idx hlen
  unfold recordedRegions
  refine List.ext_getElem? fun n => ?_
  by_cases hn : n < q.appended.length
  · have hget := List.getElem?_eq_getElem hn
    rw [hget, List.getElem?_map, List.getElem?_range (by omega)]
    exact congrArg some (h.entry n _ (by omega) hget)
  · rw [List.getElem?_eq_none (l := q.appended) (by omega),
      List.getElem?_eq_none (by rw [List.length_map, List.length_range]; omega)]

/-- The slots of the processes that are not `PROC_UNUSED`, and of the objects in use. -/
def liveSlots (k : Kernel) : List Nat :=
  (List.range procsMax).filter fun p => decide ((k.procs p).state ≠ .unused)
def usedObjects (k : Kernel) : List Nat := (List.range shmMax).filter fun s => (k.shmTable s).used

/-- Every region index that a process has recorded, an object has or a driver keeps. -/
def heldRegions (k : Kernel) : List Nat :=
  (liveSlots k).flatMap (fun p => recordedRegions (k.procs p))
    ++ ((usedObjects k).map (fun s => (k.shmTable s).regionIdx) ++ k.driverRegions)

theorem mem_liveSlots {p : Nat} (h : p ∈ liveSlots k) : p < procsMax :=
  List.mem_range.mp (List.mem_filter.mp h).1

theorem mem_usedObjects {s : Nat} (h : s ∈ usedObjects k) :
    s < shmMax ∧ (k.shmTable s).used = true :=
  ⟨List.mem_range.mp (List.mem_filter.mp h).1, (List.mem_filter.mp h).2⟩

section Held

variable (ho : Own L X k) (hf : Fits k)
include ho hf

theorem mem_recordedRegions {r : Nat} (hp : p ∈ liveSlots k)
    (hr : r ∈ recordedRegions (k.procs p)) : Holds k (.proc p) r := by
  have hlt := mem_liveSlots hp
  rw [recordedRegions_eq (ho.recorded p hlt) (hf p hlt)] at hr
  exact ⟨hlt, hr⟩

theorem mem_heldRegions {r : Nat} (h : r ∈ heldRegions k) : ∃ o, Holds k o r := by
  unfold heldRegions at h
  rcases List.mem_append.mp h with h | h
  · obtain ⟨p, hp, hr⟩ := List.mem_flatMap.mp h
    exact ⟨.proc p, mem_recordedRegions ho hf hp hr⟩
  · rcases List.mem_append.mp h with h | h
    · obtain ⟨s, hs, rfl⟩ := List.mem_map.mp h
      exact ⟨.shm s, (mem_usedObjects hs).1, (mem_usedObjects hs).2, rfl⟩
    · exact ⟨.driver, h⟩

/-- Two holders of one index are the same, and no list of one holder repeats an index. -/
theorem nodup_heldRegions : (heldRegions k).Nodup := by
  unfold heldRegions
  rw [List.nodup_append, List.nodup_append]
  refine ⟨?_, ⟨?_, ho.driverNodup, ?_⟩, ?_⟩
  · rw [List.nodup_flatMap]
    constructor
    · intro p hp
      have hlt := mem_liveSlots hp
      rw [recordedRegions_eq (ho.recorded p hlt) (hf p hlt)]
      exact ho.nodup p hlt
    · have hnd : (liveSlots k).Nodup := List.nodup_range.filter _
      refine List.Pairwise.imp_of_mem ?_ hnd
      intro p q hp hq hne r hrp hrq
      have := ho.ledger.excl (mem_recordedRegions ho hf hp hrp) (mem_recordedRegions ho hf hq hrq)
      injection this with e
      exact hne e
  · have hnd : (usedObjects k).Nodup := List.nodup_range.filter _
    refine hnd.map_on ?_
    intro s hs s' hs' he
    have h1 : Holds k (.shm s) (k.shmTable s).regionIdx :=
      ⟨(mem_usedObjects hs).1, (mem_usedObjects hs).2, rfl⟩
    have h2 : Holds k (.shm s') (k.shmTable s).regionIdx :=
      ⟨(mem_usedObjects hs').1, (mem_usedObjects hs').2, he.symm⟩
    injection ho.ledger.excl h1 h2
  · intro a ha b hb
    obtain ⟨s, hs, rfl⟩ := List.mem_map.mp ha
    rintro rfl
    have h1 : Holds k (.shm s) (k.shmTable s).regionIdx :=
      ⟨(mem_usedObjects hs).1, (mem_usedObjects hs).2, rfl⟩
    have h2 : Holds k .driver (k.shmTable s).regionIdx := hb
    cases ho.ledger.excl h1 h2
  · intro a ha b hb
    rintro rfl
    obtain ⟨p, hp, hr⟩ := List.mem_flatMap.mp ha
    have h1 := mem_recordedRegions ho hf hp hr
    rcases List.mem_append.mp hb with hb | hb
    · obtain ⟨s, hs, rfl⟩ := List.mem_map.mp hb
      have h2 : Holds k (.shm s) (k.shmTable s).regionIdx :=
        ⟨(mem_usedObjects hs).1, (mem_usedObjects hs).2, rfl⟩
      cases ho.ledger.excl h1 h2
    · have h2 : Holds k .driver a := hb
      cases ho.ledger.excl h1 h2

end Held

end

/--
**Regions are owned exclusively.** In every run in which each process records at most
`PROC_REGION_MAX` regions: the indices recorded by processes, objects and drivers are pairwise
distinct and allocated; releasing any live process and detaching at any address succeed; and the
only panic of `alloc_pages`, and so of its `region_to_addr`, is the one for want of space.
-/
theorem regions_owned_exclusively {L : Layout} {tr : List Event} {k : Kernel}
    (h : FittingRun L tr k) :
    (heldRegions k).Nodup
      ∧ (∀ r, r ∈ heldRegions k → r < maxRegions ∧ (k.regions r).state = .allocated)
      ∧ (∀ p, Live k p → ∃ k', releaseProcess L
          (k.setProc p fun q => { q with state := .exited }) p = .ok k')
      ∧ (∀ p vaddr, Live k p → ∃ ret k', shmDetach k p vaddr = .ok (ret, k'))
      ∧ ∀ n e, allocPages k.toRam n = .error e → e = .outOfMemory := by
  obtain ⟨_, ho, hf⟩ := own_run h
  refine ⟨nodup_heldRegions ho hf, ?_, ?_, ?_, fun _ _ => allocPages_error⟩
  · intro r hr
    obtain ⟨o, hh⟩ := mem_heldRegions ho hf hr
    exact ho.of_holds hh
  · intro p hl
    have hox : Own L (fun _ => True) (k.setProc p fun q => { q with state := .exited }) :=
      ho.setProc p rfl rfl rfl (ho.window p hl.1)
    obtain ⟨k', hk', _⟩ := releaseProcess_spec hl.1 hox (fun _ hx => hx) fun _ _ _ => trivial
    exact ⟨k', hk'⟩
  · exact fun p vaddr hl => shmDetach_total vaddr hl.1 ho

/-- With one process created, it can be released. -/
theorem regions_owned_exclusively_one :
    ∃ k k', FittingRun sampleLayout (creates 1) k ∧ Live k 1
      ∧ releaseProcess sampleLayout (k.setProc 1 fun q => { q with state := .exited }) 1
        = .ok k' := by
  obtain ⟨k, n, hrun, _, h, _⟩ := opening_run (L := sampleLayout)
    (I := fun k => Booted sampleLayout k ∧ Fits k)
    (S := fun k e k' => Step sampleLayout k e k' ∧ Fits k') (by decide)
    (fun _ hb hf => ⟨hb, hf⟩) (fun _ _ _ hs _ hf => ⟨hs, hf⟩) 1 (by decide) (by decide)
  have hl : Live k 1 := h.live (by decide) (by decide)
  obtain ⟨k', hk'⟩ := (regions_owned_exclusively hrun).2.2.1 1 hl
  exact ⟨k, k', hrun, hl, hk'⟩

/-! ## Leaving nothing behind -/

/-- An exiting process has not got region index 0, and its record fits. -/
def Returnable (k : Kernel) : Event → Prop
  | .exit p _ => 0 ∉ (k.procs p).appended ∧ (k.procs p).appended.length ≤ procRegionMax
  | _ => True

/-- Runs in which images fit and every exit is returnable. -/
def ReturningRun (L : Layout) : List Event → Kernel → Prop :=
  Run (fun k => Booted L k ∧ regionsNeeded L 0 ≤ procRegionMax)
    (fun k e k' => Step L k e k' ∧ ImageFits L e ∧ FewObjects k' ∧ Returnable k e)

section

variable {L : Layout} {X : Nat → Prop} {k k' : Kernel} {p : Nat}

/-- Everything is released of a record that fits and does not have index 0. -/
theorem released_all {q : Process} (h : Recorded q) (hlen : q.appended.length ≤ procRegionMax)
    (h0 : 0 ∉ q.appended) : released q = q.appended := by
  rw [released_eq h hlen, List.filter_eq_self]
  intro r hr
  rw [decide_eq_true_eq]
  rintro rfl
  exact h0 hr

theorem Returnable.writesOff {next : Nat} (ho : Own L X k) (hp : k.currentProc < procsMax)
    (h : Returnable k (.exit k.currentProc next)) : WritesOff X k k.currentProc := by
  intro r hr hnot
  rw [released_all (ho.recorded _ hp) h.2 h.1] at hnot
  exact absurd hr hnot

/-- Whoever owns something after a process was released owned it before. -/
theorem Gone.holds {k1 : Kernel} (hg : Gone p k k1) (ht : Thins k k1) {o : Owner} {r : Nat}
    (h : Holds k1 o r) : Holds k o r ∧ o ≠ .proc p := by
  cases o with
  | driver => exact ⟨by rw [holds_driver, ← hg.driverRegions]; exact h, by simp⟩
  | proc q =>
      obtain ⟨hq, hr⟩ := h
      by_cases hqp : q = p
      · rw [hqp, hg.appended] at hr
        cases hr
      · rw [hg.procs q hqp] at hr
        exact ⟨⟨hq, hr⟩, fun e => hqp (by injection e)⟩
  | shm s =>
      obtain ⟨hs, hu, hr⟩ := h
      have hobj := ht.obj s hs hu
      rw [hobj] at hr
      exact ⟨⟨hs, ht.used hs hu, hr⟩, by simp⟩

/-- What the exiting process had is not allocated any more, unless written off. -/
theorem exit_not_allocated {k1 : Kernel} (ho : Own L (fun _ => False) k)
    (hp : k.currentProc < procsMax)
    (hrel : releaseProcess L (exiting k) k.currentProc = .ok k1)
    (ho1 : Own L (fun _ => False) k1) {r : Nat} (hr : r ∈ (k.procs k.currentProc).appended) :
    (k1.regions r).state ≠ .allocated := by
  intro ha
  have hhold : Holds (exiting k) (.proc k.currentProc) r := by
    refine ⟨hp, ?_⟩
    unfold exiting
    rw [setProc_self]
    exact hr
  rcases ho1.covered r (ho.of_holds (o := .proc k.currentProc) ⟨hp, hr⟩).1 ha with hx | ⟨o, hh⟩
  · exact hx
  · obtain ⟨h1, h2⟩ := (gone_releaseProcess hrel).holds (thins_releaseProcess hrel) hh
    exact h2 ((ho.exiting hp).ledger.excl h1 hhold)

theorem inv_returning {tr : List Event} (h : ReturningRun L tr k) : Inv L (fun _ => False) k := by
  refine Run.invariant (P := Inv L fun _ => False) (fun _ hb => inv_boot hb.1 hb.2) ?_ h
  rintro t e t' hi ⟨hs, hfit, hfew, hret⟩
  refine inv_step hi hs hfit hfew ?_
  rintro next rfl
  exact hret.writesOff hi.own hi.settled.current_lt

end

/--
**An exit returns everything**, if the process has not got region index 0. In every run whose exits
are all such: every allocated region belongs to a live process, to an object in use or to a driver;
and when a process exits, every region ever recorded for it is passed to `release_pages` exactly
once and is not allocated afterwards.
-/
theorem exit_returns_everything {L : Layout} {tr : List Event} {k : Kernel}
    (h : ReturningRun L tr k) :
    (∀ r, r < maxRegions → (k.regions r).state = .allocated →
      ∃ o, Holds k o r ∧ ∀ p, o = .proc p → Live k p)
    ∧ ∀ p next k', Step L k (.exit p next) k' → Returnable k (.exit p next) →
      ∃ passed, k'.freed = k.freed ++ passed ∧ ∀ r, r ∈ (k.procs p).appended →
        passed.count r = 1 ∧ (k'.regions r).state ≠ .allocated := by
  have hinv := inv_returning h
  have ho := hinv.own
  refine ⟨?_, ?_⟩
  · intro r hr ha
    rcases ho.covered r hr ha with hx | ⟨o, hh⟩
    · exact absurd hx id
    · refine ⟨o, hh, ?_⟩
      rintro p rfl
      refine ⟨hh.1, fun hu => ?_⟩
      have := hh.2
      rw [(hinv.settled.blank p hh.1 hu).1] at this
      cases this
  · intro p next k' hs hret
    cases hs with
    | exit hl hi hc =>
        obtain ⟨k1, hrel, rfl⟩ := sysExit_ok hc
        obtain ⟨k1', hrel', ho1, objs, hf, hobjs⟩ := exit_spec ho hl.1 (hret.writesOff ho hl.1)
        obtain rfl : k1 = k1' := by rw [hrel] at hrel'; injection hrel'
        rw [released_all (ho.recorded _ hl.1) hret.2 hret.1] at hf
        refine ⟨_, hf, fun r hr => ⟨?_, exit_not_allocated ho hl.1 hrel ho1 hr⟩⟩
        -- none of the objects' regions is one of the process's
        have hnot : r ∉ objs := by
          intro hm
          obtain ⟨s, hh⟩ := hobjs r hm
          have h2 : Holds k (.proc k.currentProc) r := ⟨hl.1, hr⟩
          cases ho.ledger.excl hh h2
        rw [List.count_append, List.count_eq_zero_of_not_mem hnot, Nat.zero_add]
        exact List.count_eq_one_of_mem (ho.nodup _ hl.1) hr

/-- Process 1 exits with everything it was given, the window of its page table unused. -/
theorem exit_returns_everything_one :
    ∃ k next k' passed, ReturningRun sampleLayout (creates 1 ++ [.yield 1]) k
      ∧ Step sampleLayout k (.exit 1 next) k' ∧ (k.procs 1).appended ≠ []
      ∧ k'.freed = k.freed ++ passed ∧ ∀ r, r ∈ (k.procs 1).appended →
        passed.count r = 1 ∧ (k'.regions r).state ≠ .allocated := by
  obtain ⟨k₀, n, hrun, _, h₀, hcur, _, hfits⟩ := opening_run (L := sampleLayout)
    (I := fun k => Booted sampleLayout k ∧ regionsNeeded sampleLayout 0 ≤ procRegionMax)
    (S := fun k e k' => Step sampleLayout k e k' ∧ ImageFits sampleLayout e ∧ FewObjects k'
      ∧ Returnable k e) (by decide) (fun _ hb _ => ⟨hb, by decide⟩)
    (fun _ _ _ hs hf _ => ⟨hs, show regionsNeeded sampleLayout 0 ≤ _ by decide, hf, trivial⟩) 1
    (by decide) (by decide)
  obtain ⟨hs, h⟩ := h₀.yield (by decide)
  have hnext := h₀.next_idle hcur (by decide) (by decide)
  rw [hnext] at hs
  have hfew : FewObjects (scheduled k₀) := by
    show k₀.shmCreated < _
    rw [h₀.objects]; decide
  have hrun₁ : ReturningRun sampleLayout (creates 1 ++ [.yield 1]) (scheduled k₀) :=
    Run.snoc hrun ⟨hs, trivial, hfew, trivial⟩
  obtain ⟨k, hk⟩ : ∃ k, scheduled k₀ = k := ⟨_, rfl⟩
  have hc : (scheduled k₀).currentProc = 1 := hnext
  have hf : Fits (scheduled k₀) := hfits
  rw [hk] at hrun₁ h hc hf
  have hl : Live k 1 := h.live (by decide) (by decide)
  obtain ⟨k1, hrel, hex⟩ := exit_ok h.inv.own (by rw [hc]; exact hl) (by rw [hc, h.idle]; decide)
  rw [hc] at hex
  have hret : Returnable k (.exit 1 (findNext k1)) := by
    refine ⟨fun h0 => ?_, hf 1 (by decide)⟩
    have := (h.inv.own.of_holds (o := .proc 1) ⟨by decide, h0⟩).2
    rw [h.plenty.rest] at this
    cases this
  obtain ⟨passed, hp, hall⟩ := (exit_returns_everything hrun₁).2 1 _ _ hex hret
  refine ⟨k, _, _, passed, hrun₁, hex, ?_, hp, hall⟩
  obtain ⟨root, T, hsp⟩ := h.inv.spaces 1 hl.1 hl.2
  exact List.ne_nil_of_mem hsp.tree.root_mem

/-! ## Region index 0 -/

section

variable {L : Layout} {X : Nat → Prop} {k k' : Kernel} {p : Nat}

/-- The first page of a new process goes into slot 0 if that is unused. -/
theorem createProcess_zero {image : List UInt8} (h0 : (k.regions 0).state = .unused)
    (hc : createProcess L k image = .ok (p, k')) : 0 ∈ (k'.procs p).appended := by
  obtain ⟨_, _, _, k1, hb, rfl⟩ := createProcess_ok hc
  have hr := resetProcess_spec L k p
  have hsub : ∀ {t t' : Kernel}, Grow p t t' → 0 ∈ (t.procs p).appended →
      0 ∈ (t'.procs p).appended := by
    intro t t' hg hm
    obtain ⟨new, e⟩ := hg.appended
    rw [e]
    exact List.mem_append_left _ hm
  rw [setProc_self]
  refine buildSpace_inv (fun t => 0 ∈ (t.procs p).appended) ?_
    (fun t t' _ _ _ ht hm => hsub (grow_mapPage hm) ht)
    (fun t _ _ _ _ ht ha => hsub (grow_imaged (allocPages_spec ha).freed) ht) hb
  intro t e1
  obtain ⟨pt, idx, r, ha, rfl⟩ := allocPageTable_ok e1
  obtain rfl := allocPages_zero (by rw [hr.table]; exact h0) ha
  rw [recordRegion_appended]
  simp

/-- Nothing is done for a process that has nothing attached. -/
theorem shmProcessCleanup_unmapped
    (h : ∀ i, i < procShmMax → ((k.procs p).shmMappings i).used = 0) :
    shmProcessCleanup k p = .ok k := by
  have hloop : ∃ k', shmProcessCleanup k p = .ok k' ∧ k' = k := by
    refine loopM_ok (fun _ t => t = k) procShmMax rfl ?_
    rintro i t hi rfl
    refine ⟨t, ?_, rfl⟩
    dsimp only
    rw [if_neg (fun hne => hne (h i hi))]
    rfl
  obtain ⟨k', hk', rfl⟩ := hloop
  exact hk'

/-- What is not released stays as it is. -/
theorem releaseProcess_keeps {r : Nat} (ho : Own L X k) (hp : p < procsMax)
    (hun : ∀ i, i < procShmMax → ((k.procs p).shmMappings i).used = 0)
    (hrel : releaseProcess L k p = .ok k') (hnot : r ∉ released (k.procs p))
    (ha : (k.regions r).state = .allocated) : k'.regions r = k.regions r := by
  obtain ⟨k1, k2, f, h1, h2, _, rfl⟩ := releaseProcess_ok hrel
  rw [shmProcessCleanup_unmapped hun] at h1
  injection h1 with h1
  subst h1
  obtain ⟨k2', h2', _, hall, _⟩ := releaseRegions_spec hp ho
  obtain rfl : k2 = k2' := by rw [h2] at h2'; injection h2'
  exact (releaseAll_released ho.part hall).keep r hnot ha

/-- Detaching the last mapping of an object whose page was the last one handed out. -/
theorem Opening.shmDetach_last {n c o s i : Nat} (h : Opening L n c o k) (hl : Live k p)
    (hs : s < shmMax) (hu : (k.shmTable s).used = true) (hi : i < procShmMax)
    (hn : Names k (k.shmTable s).id p i) (href : (k.shmTable s).refcount = 1)
    (hidx : (k.shmTable s).regionIdx = n) (h1 : 1 ≤ n) (hlt : n < maxRegions)
    (hstop : stopOf k.regions n = (k.regions 0).start) :
    ∃ k', Step L k (.shmDetach p (slotAddr i) 0) k' ∧ Keep p k k'
      ∧ k'.shmCreated = k.shmCreated ∧ k'.shmTable = Function.update k.shmTable s .cleared
      ∧ k'.regions = swallow (markFree k.regions n) n 0 := by
  obtain ⟨ret, k', hd⟩ := shmDetach_total (slotAddr i) hl.1 h.inv.own
  have hva := h.inv.own.window p hl.1 i hi hn.1
  rcases shmDetach_ok hd with ⟨_, _, hno⟩ | ⟨rfl, j, k1, ⟨hj, huj, hvj⟩, hun, hput⟩
  · exact absurd ⟨hi, hn.1, hva⟩ (hno i)
  · obtain rfl : j = i := slotAddr_inj ((h.inv.own.window p hl.1 j hj huj).symm.trans hvj)
    refine ⟨k', .shmDetach hl hd, keep_shmDetach hd, (thins_shmDetach hd).shmCreated, ?_⟩
    -- the mapping named the object, and was the last one
    have hfind := h.inv.ids.findById_eq hs hu
    rw [hn.2, hfind] at hput
    obtain ⟨htab, _, _⟩ := unmapPage_shmTable hun
    have hreg : k1.regions = k.regions := by
      rcases unmapPage_ok hun with ⟨_, rfl⟩ | ⟨_, rfl⟩
      · rfl
      · rfl
    rcases hput with ⟨hnone, _⟩ | ⟨s', hsome, hput⟩
    · cases hnone
    · obtain rfl : s = s' := by injection hsome
      have hobj : (k1.setMapping p j .cleared).shmTable s = k.shmTable s := by
        rw [setMapping_shmTable, htab]
      rcases shmPut_ok hput with ⟨hgt, _⟩ | ⟨_, r, hrel, rfl⟩
      · rw [hobj, href] at hgt
        exact absurd hgt (by decide)
      · rw [hobj, hidx, setMapping_toRam, releasePages_of_allocated hlt
          (by rw [hreg]; exact h.plenty.taken n h1 (le_refl n))] at hrel
        injection hrel with hrel
        have hr : r.regions = mergeFreeRegions (markFree k1.regions n) := by rw [← hrel]
        rw [hreg] at hr
        refine ⟨?_, hr.trans (h.plenty.release_last h.inv.own.part h1 hlt hstop)⟩
        show Function.update ((k1.setMapping p j .cleared).shmTable) s .cleared = _
        rw [setMapping_shmTable, htab]

/-- Process 1, which has attached an object, makes another one. -/
theorem second_object (hfit : regionsNeeded L 0 ≤ procRegionMax)
    (hroom : driverPages.length + 2 * regionsNeeded L 0 + 4 < maxRegions) :
    ∃ k₁ k n, GuardedRun L
        (creates 1 ++ [.yield 1] ++ [.shmGet 1 1 1] ++ [.shmAttach 1 1 (slotAddr 0)]) k₁
      ∧ Step L k₁ (.shmGet 1 2 2) k ∧ FewObjects k
      ∧ 1 ≤ n ∧ n ≤ driverPages.length + 2 * regionsNeeded L 0 + 3 ∧ Opening L n 1 2 k
      ∧ k.currentProc = 1 ∧ Names k 1 1 0
      ∧ (∀ i, i < procShmMax → i ≠ 0 → ((k.procs 1).shmMappings i).used = 0)
      ∧ ((k.shmTable 0).used = true ∧ (k.shmTable 0).id = 1 ∧ (k.shmTable 0).key = 1)
      ∧ ((k.shmTable 1).used = true ∧ (k.shmTable 1).id = 2 ∧ (k.shmTable 1).refcount = 0
        ∧ (k.shmTable 1).regionIdx = n)
      ∧ (∀ s, s < shmMax → s ≠ 0 → s ≠ 1 → (k.shmTable s).used = false)
      ∧ stopOf k.regions n = (k.regions 0).start := by
  obtain ⟨k₁, n, hrun₁, hn, h₁, hcur, hnm, hmap, ⟨hu, hid, hkey, _⟩, hrest⟩ :=
    attached_run hfit (by omega)
  have hnone : findByKey k₁ 2 = none := findByKey_other (by rw [hkey]; decide) hrest
  obtain ⟨r, hs, h, hstop, hfew⟩ := h₁.shmGet (s := 1) (h₁.live (p := 1) (by decide) (by decide))
    (show (0 : Int) < 2 by decide) hnone (by decide) (hrest 1 (by decide) (by decide))
    (fun j hj => by obtain rfl : j = 0 := by omega
                    exact hu) (by omega) (by decide)
  obtain ⟨k, hk⟩ : ∃ k, created k₁ 1 2 (k₁.regions 0).start (n + 1) r = k := ⟨_, rfl⟩
  have hnew : k.shmTable 1 = newObject k₁ 2 (k₁.regions 0).start (n + 1) := by
    rw [← hk]; exact created_self ..
  have hold : ∀ s, s ≠ 1 → k.shmTable s = k₁.shmTable s := by
    intro s hs
    rw [← hk]; exact created_of_ne _ _ _ _ _ hs
  have hid₂ : (k.shmTable 1).id = 2 := by
    rw [hnew]
    show k₁.nextShmId = 2
    rw [h₁.inv.ids.next, h₁.objects]
    rfl
  have hproc : k.procs = k₁.procs := by rw [← hk]; rfl
  have hreg : k.regions = r.regions := by rw [← hk]; rfl
  have hcur' : k.currentProc = 1 := by rw [← hk]; exact hcur
  rw [hk] at hs h hfew
  refine ⟨k₁, k, n + 1, hrun₁, hs, hfew, by omega, by omega, h, hcur', ?_, ?_, ?_,
    ⟨by rw [hnew]; rfl, hid₂, by rw [hnew]; rfl, by rw [hnew]; rfl⟩, ?_, by rw [hreg]; exact hstop⟩
  · unfold Names
    rw [hproc]
    exact hnm
  · rw [hproc]
    exact hmap
  · rw [hold 0 (by decide)]
    exact ⟨hu, hid, hkey⟩
  · intro s hlt h0 h1
    rw [hold s h1]
    exact hrest s hlt h0

/-- The table for the window is there as soon as its first slot is mapped. -/
theorem Opening.window_table {n c o s : Nat} (h : Opening L n c o k) (hl : Live k p)
    (hs : s < shmMax) (hu : (k.shmTable s).used = true) (hn : Names k (k.shmTable s).id p 0) :
    entry1 k p (vpn1 (slotAddr 1)) &&& pageV ≠ 0 := by
  have hw := h.inv.walk_used (i := 0) hl.1 (by decide) hn.1 hs hu hn.2.symm
  intro hz
  unfold walk at hw
  dsimp only at hw
  rw [show vpn1 (slotAddr 0) = vpn1 (slotAddr 1) by decide] at hw
  unfold entry1 at hz
  rw [if_pos hz] at hw
  cases hw

/--
Process 1 makes and attaches a second object and detaches it again. Its page was the last one
handed out, so that slot 0 of the region table becomes an unused entry.
-/
theorem slotZero_run (hfit : regionsNeeded L 0 ≤ procRegionMax)
    (hroom : driverPages.length + 2 * regionsNeeded L 0 + 4 < maxRegions) :
    ∃ k₁ k₂ k₃ k n, GuardedRun L
        (creates 1 ++ [.yield 1] ++ [.shmGet 1 1 1] ++ [.shmAttach 1 1 (slotAddr 0)]) k₁
      ∧ Path (fun k e k' => Step L k e k' ∧ ImageFits L e ∧ FewObjects k') k₁
        [(.shmGet 1 2 2, k₂), (.shmAttach 1 2 (slotAddr 1), k₃), (.shmDetach 1 (slotAddr 1) 0, k)] k
      ∧ ((k₂.shmTable 1).used = true ∧ (k₂.shmTable 1).id = 2)
      ∧ ((k.shmTable 0).used = true ∧ (k.shmTable 0).id = 1 ∧ (k.shmTable 0).key = 1)
      ∧ (∀ s, s < shmMax → s ≠ 0 → (k.shmTable s).used = false)
      ∧ n ≤ driverPages.length + 2 * regionsNeeded L 0 + 3 ∧ k.currentProc = 1 ∧ k.idleProc = 0
      ∧ (∀ q, q ≤ 1 → (k.procs q).state = .runnable)
      ∧ (∀ q, 1 < q → q < procsMax → (k.procs q).state = .unused)
      ∧ k.shmCreated = 2 ∧ (k.regions 0).state = .unused
      ∧ ∀ c, n + c < maxRegions → Room c k.regions := by
  obtain ⟨k₁, k₂, n, hrun₁, hs₂, hfew₂, hpos, hn, h₂, hcur₂, hnm, hmap, ⟨hu, hid, hkey⟩,
    ⟨hu₂, hid₂, href₂, hidx₂⟩, hrest, hstop⟩ := second_object hfit hroom
  have hlive₂ := h₂.live (p := 1) (by decide) (by decide)
  -- attached in the second slot of the window
  obtain ⟨k2', n', hm, hs₃, _, h₃, hfew₃, hsame⟩ := h₂.shmAttach (p := 1) (s := 1) (i := 1) hlive₂
    (by decide) hu₂ (by decide) (hmap 1 (by decide) (by decide))
    (fun j hj => by obtain rfl : j = 0 := by omega
                    exact hnm.1) (by omega) (by decide)
  obtain ⟨hreg₃, rfl⟩ :=
    hsame (h₂.window_table hlive₂ (show 0 < shmMax by decide) hu (by rw [hid]; exact hnm))
  rw [hid₂] at hs₃ h₃ hfew₃
  have hgrow := grow_mapPage hm
  obtain ⟨k₃, hk₃⟩ : ∃ k₃, attached k2' 1 1 1 2 = k₃ := ⟨_, rfl⟩
  have hobj₃ : k₃.shmTable 1 = { k₂.shmTable 1 with refcount := (k₂.shmTable 1).refcount + 1 } := by
    rw [← hk₃]
    unfold attached
    rw [setObj_self, hgrow.shmTable]
  have hother₃ : ∀ s, s ≠ 1 → k₃.shmTable s = k₂.shmTable s := by
    intro s hs
    rw [← hk₃, ← hgrow.shmTable]
    exact setObj_of_ne _ _ _ hs
  have hnm₃ : Names k₃ 2 1 1 := by
    rw [← hk₃]
    unfold Names attached
    rw [setObj_procs, setMapping_self]
    dsimp only
    rw [Function.update_self]
    exact ⟨by decide, rfl⟩
  have hreg : k₃.regions = k₂.regions := by
    rw [← hk₃]
    exact hreg₃
  have hcur₃ : k₃.currentProc = 1 := by
    rw [← hk₃]
    exact hgrow.currentProc.trans hcur₂
  rw [hk₃] at hs₃ hfew₃ h₃
  -- and detached
  obtain ⟨k₄, hs₄, hkeep, hcr, htab₄, hreg₄⟩ := h₃.shmDetach_last (p := 1) (s := 1) (i := 1)
    (h₃.live (by decide) (by decide)) (by decide) (by rw [hobj₃]; exact hu₂) (by decide)
    (by rw [hobj₃]; dsimp only; rw [hid₂]; exact hnm₃) (by rw [hobj₃]; exact congrArg (· + 1) href₂)
    (by rw [hobj₃]; exact hidx₂) hpos (by omega) (by rw [hreg]; exact hstop)
  have hst : ∀ q, (k₄.procs q).state = (k₃.procs q).state := by
    intro q
    by_cases hq : q = 1
    · rw [hq]; exact hkeep.state
    · rw [hkeep.procs q hq]
  have hfew₄ : FewObjects k₄ := by
    unfold FewObjects
    rw [hcr, h₃.objects]; decide
  have hother₄ : ∀ s, s ≠ 1 → k₄.shmTable s = k₂.shmTable s := by
    intro s hs
    rw [htab₄, Function.update_of_ne hs, hother₃ s hs]
  refine ⟨k₁, k₂, k₃, k₄, _, hrun₁, .cons ⟨hs₂, trivial, hfew₂⟩ (.cons ⟨hs₃, trivial, hfew₃⟩
    (.cons ⟨hs₄, trivial, hfew₄⟩ .nil)), ⟨hu₂, hid₂⟩, ?_, ?_, hn, hkeep.currentProc.trans hcur₃,
    hkeep.idleProc.trans h₃.idle, fun q hq => (hst q).trans (h₃.runnable q hq),
    fun q hq hlt => (hst q).trans (h₃.unused q hq hlt), hcr.trans h₃.objects, ?_, ?_⟩
  · rw [hother₄ 0 (by decide)]
    exact ⟨hu, hid, hkey⟩
  · intro s hs h0
    by_cases h1 : s = 1
    · rw [h1, htab₄, Function.update_self]
      rfl
    · rw [hother₄ s h1]
      exact hrest s hs h0 h1
  · rw [hreg₄, swallow_gone]
    rfl
  · intro c hc
    rw [hreg₄]
    exact h₃.plenty.room_released hpos (by omega) hc

end

/--
**Region index 0 leaks.** Slot 0 of the region table has become an unused entry, and the page table
of process 2 gets that index. When process 2 exits, the index is taken for an empty entry of its
record: the region is never passed to `release_pages`, stays allocated and belongs to nobody.
-/
theorem slot_zero_leaks :
    ∃ tr k next k' passed, GuardedRun sampleLayout tr k ∧ Step sampleLayout k (.exit 2 next) k'
      ∧ 0 ∈ (k.procs 2).appended ∧ k'.freed = k.freed ++ passed ∧ 0 ∉ passed
      ∧ (k'.regions 0).state = .allocated ∧ ∀ o, ¬ Holds k' o 0 := by
  obtain ⟨_, _, _, k, n, hrun₀, hpath, _, _, _, hn, hcur, hidle, hst, hun, hcr, h0, hroom⟩ :=
    slotZero_run (L := sampleLayout) (by decide) (by decide)
  have hrun : GuardedRun sampleLayout _ k := Run.append hrun₀ hpath
  have hn : n ≤ 49 := hn
  have hinv := inv_run hrun
  have hblank := fun q hq hu => (hinv.settled.blank q hq hu).1
  -- process 2 is created
  obtain ⟨k₁, hk₁, _, hlen⟩ := (room_supply 70).createProcess (L := sampleLayout) (p := 2) []
    hinv.own hblank (by decide) (hun 2 (by decide) (by decide))
    (fun q hq => by rw [hst q (by omega)]; decide) (by decide) (by decide)
    (hroom 70 (by unfold maxRegions; omega))
  have hmade := made_createProcess hk₁
  have hcl := (own_createProcess hinv.own hblank hk₁
    (hlen.trans (show regionsNeeded sampleLayout 0 ≤ _ by decide))).2
  have hfew₁ : FewObjects k₁ := by
    unfold FewObjects
    rw [hmade.shmCreated, hcr]; decide
  have hfit : ImageFits sampleLayout (.create [] 2) := by
    show regionsNeeded sampleLayout 0 ≤ _
    decide
  have hrun₁ : GuardedRun sampleLayout (_ ++ [.create [] 2]) k₁ :=
    Run.snoc hrun ⟨.create hk₁, hfit, hfew₁⟩
  have hinv₁ := inv_run hrun₁
  have hzero := createProcess_zero h0 hk₁
  -- and gets its turn
  have hnext : findNext k₁ = 2 := by
    have hpid : (k₁.procs 1).pid = 2 :=
      hinv₁.settled.pid 1 (by decide) (by rw [hmade.idleProc, hidle]; decide)
        (by rw [hmade.procs 1 (by decide)]; exact hst 1 (by decide))
    refine findNext_eq (i := 0) (by decide) ?_ ⟨hmade.state, by rw [hmade.pid]; decide⟩
      fun j hj => by omega
    unfold scanSlot
    rw [hmade.currentProc, hcur, hpid]
    rfl
  have hs₂ := hinv₁.settled.yield_step sampleLayout
  have hrun₂ : GuardedRun sampleLayout (_ ++ [.yield (findNext k₁)]) (scheduled k₁) :=
    Run.snoc hrun₁ ⟨hs₂, trivial, hfew₁⟩
  have hcur₂ : (scheduled k₁).currentProc = 2 := hnext
  have hinv₂ := inv_run hrun₂
  have hproc₂ : (scheduled k₁).procs = k₁.procs := rfl
  have hidle₂ : (scheduled k₁).idleProc = 0 := hmade.idleProc.trans hidle
  obtain ⟨k₂, hk₂⟩ : ∃ k₂, scheduled k₁ = k₂ := ⟨_, rfl⟩
  rw [hk₂] at hrun₂ hinv₂ hcur₂ hproc₂ hidle₂
  rw [← hproc₂] at hzero hlen
  have hl : Live k₂ 2 := ⟨by decide, by rw [hproc₂, hmade.state]; decide⟩
  -- it exits
  obtain ⟨k₃, hrel, hs₃⟩ := exit_ok hinv₂.own (by rw [hcur₂]; exact hl)
    (by rw [hcur₂, hidle₂]; decide)
  obtain ⟨k₃', hrel', _, objs, hf, hobjs⟩ := exit_spec hinv₂.own (by rw [hcur₂]; exact hl.1)
    fun _ _ _ => trivial
  obtain rfl : k₃ = k₃' := by rw [hrel] at hrel'; injection hrel'
  rw [hcur₂] at hrel hs₃ hf
  have hex : (exiting k₂).procs 2 = { k₂.procs 2 with state := .exited } := by
    unfold exiting
    rw [hcur₂]
    exact setProc_self ..
  have hox : Own sampleLayout (fun _ => True) (exiting k₂) :=
    hinv₂.own.exiting (by rw [hcur₂]; exact hl.1)
  have hnot : 0 ∉ released (k₂.procs 2) := by
    rw [released_eq (hinv₂.own.recorded 2 hl.1)
      (hlen.trans (show regionsNeeded sampleLayout 0 ≤ _ by decide))]
    intro hm
    exact absurd rfl (of_decide_eq_true (List.mem_filter.mp hm).2)
  have hhold : Holds (exiting k₂) (.proc 2) 0 := ⟨hl.1, by rw [hex]; exact hzero⟩
  have ha : ((exiting k₂).regions 0).state = .allocated := (hox.of_holds hhold).2
  have hkept : k₃.regions 0 = (exiting k₂).regions 0 := by
    refine releaseProcess_keeps hox hl.1 ?_ hrel (by rw [hex]; exact hnot) ha
    intro i hi
    rw [hex]
    dsimp only
    rw [hproc₂, hcl i hi]
    rfl
  refine ⟨_, k₂, _, _, objs ++ released (k₂.procs 2), hrun₂, hs₃, hzero, hf, ?_, ?_, ?_⟩
  · intro hm
    rcases List.mem_append.mp hm with hm | hm
    · obtain ⟨s, hh⟩ := hobjs 0 hm
      have h2 : Holds k₂ (.proc 2) 0 := ⟨hl.1, hzero⟩
      cases hinv₂.own.ledger.excl hh h2
    · exact hnot hm
  · show (k₃.regions 0).state = .allocated
    rw [hkept]
    exact ha
  · intro o hh
    have hh : Holds k₃ o 0 := hh
    obtain ⟨h1, h2⟩ := (gone_releaseProcess hrel).holds (thins_releaseProcess hrel) hh
    exact h2 (hox.ledger.excl h1 hhold)

end Os1000.Proof
