import Os1000.Proof.Isolation
import Os1000.Proof.Overflow

/-!
# Shared memory

What the invariant says of the object table, the mapping tables and the windows of
the processes, taken together: reference counts are exact, every mapping in use is
backed by a leaf word and every other slot of the window by none, and no two objects
share an id, a key, a page or a region.
-/

namespace Os1000.Proof

open Os1000 Lib

section

variable {L : Layout} {X : Nat → Prop} {k k' : Kernel} {p s s' : Nat}

/-! ## The objects -/

theorem Own.regionIdx_inj (ho : Own L X k) (hs : s < shmMax) (hs' : s' < shmMax)
    (hu : (k.shmTable s).used = true) (hu' : (k.shmTable s').used = true)
    (he : (k.shmTable s).regionIdx = (k.shmTable s').regionIdx) : s = s' := by
  have h1 : Holds k (.shm s) (k.shmTable s).regionIdx := ⟨hs, hu, rfl⟩
  have h2 : Holds k (.shm s') (k.shmTable s).regionIdx := ⟨hs', hu', he.symm⟩
  have := ho.ledger.excl h1 h2
  injection this

theorem Own.pa_inj (ho : Own L X k) (hs : s < shmMax) (hs' : s' < shmMax)
    (hu : (k.shmTable s).used = true) (hu' : (k.shmTable s').used = true)
    (he : (k.shmTable s).pa = (k.shmTable s').pa) : s = s' := by
  have h1 := ho.object_page hs hu
  rw [he] at h1
  exact ho.regionIdx_inj hs hs' hu hu' (h1.unique ho (ho.object_page hs' hu'))

end

/--
**Reference counting is exact.** In every state of every run: (a) an object's count is the number
of process slots that name it; (b) a mapping in use names an object in use, lies at its slot's
address and is what the page table maps there, for user mode, readable and writable; (c) the page
table maps nothing at the address of a slot that is not in use; (d) objects differ in id, key,
page and region, and an object's region is allocated and starts at its page.
-/
theorem shm_refcounts_exact {L : Layout} {tr : List Event} {k : Kernel} (h : GuardedRun L tr k) :
    (∀ s, s < shmMax → (k.shmTable s).used = true →
      (k.shmTable s).refcount = (namers k (k.shmTable s).id).card)
    ∧ (∀ p i, p < procsMax → i < procShmMax → ((k.procs p).shmMappings i).used ≠ 0 →
      ((k.procs p).shmMappings i).vaddr = shmUserBase + i * shmPageSize
      ∧ ∃ s, s < shmMax ∧ (k.shmTable s).used = true
        ∧ (k.shmTable s).id = ((k.procs p).shmMappings i).shmId
        ∧ walk k.mem (k.procs p).pageTable ((k.procs p).shmMappings i).vaddr
          = some (pte (k.shmTable s).pa (pageU ||| pageR ||| pageW)))
    ∧ (∀ p i, Live k p → i < procShmMax → ((k.procs p).shmMappings i).used = 0 →
      walk k.mem (k.procs p).pageTable (shmUserBase + i * shmPageSize) = none)
    ∧ (∀ s s', s < shmMax → s' < shmMax → s ≠ s' → (k.shmTable s).used = true →
      (k.shmTable s').used = true →
      (k.shmTable s).id ≠ (k.shmTable s').id ∧ (k.shmTable s).key ≠ (k.shmTable s').key
        ∧ (k.shmTable s).pa ≠ (k.shmTable s').pa
        ∧ (k.shmTable s).regionIdx ≠ (k.shmTable s').regionIdx)
    ∧ ∀ s, s < shmMax → (k.shmTable s).used = true →
      (k.shmTable s).regionIdx < maxRegions
        ∧ (k.regions (k.shmTable s).regionIdx).state = .allocated
        ∧ (k.regions (k.shmTable s).regionIdx).start = (k.shmTable s).pa := by
  have hinv := inv_run h
  refine ⟨hinv.counted.count, ?_, ?_, ?_, ?_⟩
  · intro p i hp hi hu
    have hva := hinv.own.window p hp i hi hu
    obtain ⟨s, hs, hus, hid⟩ := hinv.counted.named p hp i hi hu
    refine ⟨hva, s, hs, hus, hid, ?_⟩
    rw [hva]
    exact hinv.walk_used hp hi hu hs hus hid
  · exact fun p i hl hi hu => hinv.walk_unused hl hi hu
  · intro s s' hs hs' hne hu hu'
    exact ⟨fun e => hne (hinv.ids.id_inj hs hs' hu hu' e),
      fun e => hne (hinv.ids.key_inj s s' hs hs' hu hu' e),
      fun e => hne (hinv.own.pa_inj hs hs' hu hu' e),
      fun e => hne (hinv.own.regionIdx_inj hs hs' hu hu' e)⟩
  · intro s hs hu
    obtain ⟨h1, h2, h3, _⟩ := hinv.own.object_page hs hu
    exact ⟨h1, h2, h3⟩

/-- With its one mapping the object process 1 has made has the count 1. -/
theorem shm_refcounts_exact_attached :
    ∃ tr k, GuardedRun sampleLayout tr k ∧ (k.shmTable 0).used = true
      ∧ (k.shmTable 0).refcount = 1 ∧ (namers k (k.shmTable 0).id).card = 1 := by
  obtain ⟨k, n, hrun, _, h, _, hn, _, ⟨hu, hid, _, href⟩, _⟩ :=
    attached_run (L := sampleLayout) (by decide) (by decide)
  have hc := (shm_refcounts_exact hrun).1 0 (by decide) hu
  refine ⟨_, k, hrun, hu, href, ?_⟩
  rw [href] at hc
  omega

/--
**An image that does not fit costs an object its page.** Process 1 has an image of 44 pages. It
makes two objects, attaches the second and exits: the first is still in use, but its region is not
allocated any more.
-/
theorem big_image_frees_object :
    ∃ tr k, Run (Booted sampleLayout) (fun k e k' => Step sampleLayout k e k' ∧ FewObjects k') tr k
      ∧ (k.shmTable 0).used = true
      ∧ (k.regions (k.shmTable 0).regionIdx).state ≠ .allocated := by
  obtain ⟨k₀, n, hrun₀, hn, h₀, hcur₀, hno₀, _⟩ := opening_run (L := sampleLayout)
    (I := Booted sampleLayout) (S := fun k e k' => Step sampleLayout k e k' ∧ FewObjects k')
    (by decide) (fun _ hb _ => hb) (fun _ _ _ hs hf _ => ⟨hs, hf⟩) 0 (by decide) (by decide)
  have hn : n ≤ 26 := hn
  have hn20 := h₀.idle_length.trans (h₀.appended_le (show 0 < procsMax by decide))
  have hmax : maxRegions = 128 := rfl
  obtain ⟨k₁, hk₁, h₁⟩ := packed_create h₀ (by omega)
  have hmade := made_createProcess hk₁
  have hno₁ := hno₀.local hmade.toLocal
  have hfew₁ : FewObjects k₁ := by unfold FewObjects; rw [hno₁.none]; decide
  have hrun₁ := Run.snoc hrun₀ ⟨Step.create hk₁, hfew₁⟩
  -- it is the only one that can run
  have hnext : findNext k₁ = 1 := by
    have hpid : (k₁.procs 0).pid = 0 := by
      have := h₁.settled.idle_pid
      rwa [hmade.idleProc, h₀.idle] at this
    have hscan : ∀ i, scanSlot k₁ i = i % procsMax := by
      intro i
      unfold scanSlot
      rw [hmade.currentProc, hcur₀, hpid, Nat.zero_add]
    refine findNext_eq (i := 1) (by decide) (hscan 1) ⟨hmade.state, by rw [hmade.pid]; decide⟩ ?_
    intro j hj hel
    obtain rfl : j = 0 := by omega
    have := hel.2
    rw [hscan, show 0 % procsMax = 0 from rfl, hpid] at this
    omega
  obtain ⟨hs₂, h₂⟩ := h₁.yield
  have hcur₂ : (scheduled k₁).currentProc = 1 := hnext
  have hidle₂ : (scheduled k₁).idleProc = 0 := hmade.idleProc.trans h₀.idle
  have hno₂ : NoObjects (scheduled k₁) := ⟨hno₁.next, hno₁.none, hno₁.released, hno₁.unused⟩
  have hrun₂ := Run.snoc hrun₁ ⟨hs₂, show FewObjects (scheduled k₁) from hfew₁⟩
  obtain ⟨k₂, hk₂⟩ : ∃ k₂, scheduled k₁ = k₂ := ⟨_, rfl⟩
  rw [hk₂] at h₂ hcur₂ hidle₂ hno₂ hrun₂
  -- the first object gets the slot after the last one of the process
  have hnone₂ : findByKey k₂ 1 = none :=
    findByKey_none_iff.mpr fun s hs hu => absurd hu (by rw [hno₂.unused s hs]; decide)
  obtain ⟨pa, r, hs₃, hfew₃, h₃⟩ := h₂.shmGet (s := 0) (show (0 : Int) < 1 by decide) hnone₂ (by decide)
    (hno₂.unused 0 (by decide)) (fun j hj => absurd hj (Nat.not_lt_zero j)) (by omega)
    (by rw [hno₂.none]; decide)
  have hrun₃ := Run.snoc hrun₂ ⟨hs₃, hfew₃⟩
  have hobj₃ : (created k₂ 0 1 pa (n + 65 + 1) r).shmTable 0 = newObject k₂ 1 pa (n + 65 + 1) :=
    created_self ..
  have hrest₃ : ∀ s, s < shmMax → s ≠ 0 →
      ((created k₂ 0 1 pa (n + 65 + 1) r).shmTable s).used = false := by
    intro s hs hne
    rw [created_of_ne _ _ _ _ _ hne]
    exact hno₂.unused s hs
  have hcr₃ : (created k₂ 0 1 pa (n + 65 + 1) r).shmCreated = 1 := by
    show k₂.shmCreated + 1 = 1
    rw [hno₂.none]
  have hcur₃ : (created k₂ 0 1 pa (n + 65 + 1) r).currentProc = 1 := hcur₂
  have hidle₃ : (created k₂ 0 1 pa (n + 65 + 1) r).idleProc = 0 := hidle₂
  obtain ⟨k₃, hk₃⟩ : ∃ k₃, created k₂ 0 1 pa (n + 65 + 1) r = k₃ := ⟨_, rfl⟩
  rw [hk₃] at h₃ hrun₃ hobj₃ hrest₃ hcr₃ hcur₃ hidle₃
  -- the second one the next
  have hnone₃ : findByKey k₃ 2 = none := by
    refine findByKey_other ?_ hrest₃
    rw [hobj₃]
    show (1 : Int) ≠ 2
    decide
  obtain ⟨pa', r', hs₄, hfew₄, h₄⟩ := h₃.shmGet (s := 1) (show (0 : Int) < 2 by decide) hnone₃ (by decide)
    (hrest₃ 1 (by decide) (by decide))
    (fun j hj => by
      obtain rfl : j = 0 := by omega
      rw [hobj₃]; rfl) (by omega) (by rw [hcr₃]; decide)
  have hrun₄ := Run.snoc hrun₃ ⟨hs₄, hfew₄⟩
  have hobj₄ : (created k₃ 1 2 pa' (n + 65 + 1 + 1) r').shmTable 1
      = newObject k₃ 2 pa' (n + 65 + 1 + 1) := created_self ..
  have hzero₄ : (created k₃ 1 2 pa' (n + 65 + 1 + 1) r').shmTable 0 = newObject k₂ 1 pa (n + 65 + 1) :=
    (created_of_ne _ _ _ _ _ (by decide)).trans hobj₃
  have hcr₄ : (created k₃ 1 2 pa' (n + 65 + 1 + 1) r').shmCreated = 2 := by
    show k₃.shmCreated + 1 = 2
    rw [hcr₃]
  have hcur₄ : (created k₃ 1 2 pa' (n + 65 + 1 + 1) r').currentProc = 1 := hcur₃
  have hidle₄ : (created k₃ 1 2 pa' (n + 65 + 1 + 1) r').idleProc = 0 := hidle₃
  obtain ⟨k₄, hk₄⟩ : ∃ k₄, created k₃ 1 2 pa' (n + 65 + 1 + 1) r' = k₄ := ⟨_, rfl⟩
  rw [hk₄] at h₄ hrun₄ hobj₄ hzero₄ hcr₄ hcur₄ hidle₄
  have hu₄ : (k₄.shmTable 1).used = true := by rw [hobj₄]; rfl
  -- attaching it sends `current_idx` to the slot of the first, and exiting frees that
  obtain ⟨k₅, hs₅, hcr₅, h₅⟩ := h₄.shmAttach (by omega) (by omega) (by omega)
    (show 1 < shmMax by decide) hu₄
  have hfew₅ : FewObjects k₅ := by unfold FewObjects; rw [hcr₅, hcr₄]; decide
  have hrun₅ := Run.snoc hrun₄ ⟨hs₅, hfew₅⟩
  have hregs : ∀ j, j < procRegionMax → (k₄.procs 1).regions j = n + 1 + j := by
    intro j hj
    refine (h₄.own.recorded 1 (by decide)).entry j _ hj ?_
    unfold procRegionMax at hj
    rw [h₄.appended, List.getElem?_map, List.getElem?_range (by omega)]
    rfl
  obtain ⟨k₆, next, hs₆, htab, hst⟩ := h₅.exit (ids_step h₄.ids hs₅ hfew₅) hcur₄ hidle₄ (by omega)
    (by omega) hregs h₄.unmapped (by decide) hu₄ (by rw [hobj₄]; rfl) (by rw [hobj₄]; rfl)
  have hfew₆ : FewObjects k₆ := by
    rcases thins_or_created hs₆ with ht | ⟨_, _, _, _, _, _, he, _⟩
    · unfold FewObjects
      rw [ht.shmCreated]
      exact hfew₅
    · cases he
  refine ⟨_, k₆, .snoc hrun₅ ⟨hs₆, hfew₆⟩, ?_, ?_⟩
  · rw [htab 0 (by decide), hzero₄]; rfl
  · rw [htab 0 (by decide), hzero₄]
    exact hst

end Os1000.Proof
