import Os1000.Proof.Frame

/-!
# What each call did

For every function of the kernel that can fail, what its success tells: which branch
it took and the state it left, in terms of the functions it called. The proofs above
cite these lemmas and never open the functions again.
-/

namespace Os1000.Proof

open Os1000 Lib

variable {L : Layout} {k k' : Kernel} {p : Nat}

/-! ## Page tables -/

/-- The first-level entry for `v1` in the page table of process `p`. -/
def entry1 (k : Kernel) (p v1 : Nat) : Nat := load32 k.mem ((k.procs p).pageTable + 4 * v1)

/-- The first-level entry that links a second-level table. -/
def linkTo (table0 : Nat) : Nat := ((table0 / pageSize) <<< 10) ||| pageV

/-- The state in which `map_page` has a new table at `pt`, region `idx`, linked at `v1`. -/
def linked (L : Layout) (k : Kernel) (p v1 pt idx : Nat) (r : Ram) : Kernel :=
  let k1 := recordRegion L { k with toRam := r } p idx
  { k1 with mem := store32 k1.mem ((k.procs p).pageTable + 4 * v1) (linkTo pt) }

theorem ensureTable_ok {v1 : Nat} (h : ensureTable L k p v1 = .ok k') :
    (entry1 k p v1 &&& pageV ≠ 0 ∧ k' = k) ∨
    (entry1 k p v1 &&& pageV = 0 ∧ ∃ pt idx r, allocPages k.toRam 1 = .ok (pt, idx, r)
      ∧ k' = linked L k p v1 pt idx r) := by
  unfold ensureTable at h
  dsimp only at h
  split at h
  · rename_i hv
    obtain ⟨⟨pt, idx, r⟩, ha, h⟩ := bind_eq_ok.mp h
    exact Or.inr ⟨hv, pt, idx, r, ha, (pure_eq_ok.mp h).symm⟩
  · rename_i hv
    exact Or.inl ⟨hv, (pure_eq_ok.mp h).symm⟩

theorem ensureTable_of_valid {v1 : Nat} (he : entry1 k p v1 &&& pageV ≠ 0) :
    ensureTable L k p v1 = .ok k := by
  unfold entry1 at he
  unfold ensureTable
  dsimp only
  rw [if_neg he]
  rfl

theorem ensureTable_of_alloc {v1 pt idx : Nat} {r : Ram} (he : entry1 k p v1 &&& pageV = 0)
    (ha : allocPages k.toRam 1 = .ok (pt, idx, r)) :
    ensureTable L k p v1 = .ok (linked L k p v1 pt idx r) := by
  unfold entry1 at he
  unfold ensureTable
  dsimp only
  rw [if_pos he]
  exact bind_eq_ok.mpr ⟨_, ha, rfl⟩

/-- The state after `map_page` has written its leaf entry. -/
def leafed (k : Kernel) (p vaddr e : Nat) : Kernel :=
  { k with mem := store32 k.mem (ptePage (entry1 k p (vpn1 vaddr)) + 4 * vpn0 vaddr) e }

theorem ensureTable_pageTable {v1 : Nat} (h : ensureTable L k p v1 = .ok k') :
    (k'.procs p).pageTable = (k.procs p).pageTable := by
  rcases ensureTable_ok h with ⟨_, rfl⟩ | ⟨_, pt, idx, r, _, rfl⟩
  · rfl
  · exact recordRegion_pageTable L _ p idx

theorem mapPage_ok {vaddr paddr flags : Nat} (h : mapPage L k p vaddr paddr flags = .ok k') :
    vaddr % pageSize = 0 ∧ paddr % pageSize = 0 ∧ ∃ k1, ensureTable L k p (vpn1 vaddr) = .ok k1
      ∧ k' = leafed k1 p vaddr (pte paddr flags) := by
  unfold mapPage at h
  dsimp only at h
  split at h
  · cases h
  · rename_i hv
    split at h
    · cases h
    · rename_i hp
      obtain ⟨k1, h1, h⟩ := bind_eq_ok.mp h
      refine ⟨by simpa using hv, by simpa using hp, k1, h1, ?_⟩
      unfold leafed entry1
      rw [ensureTable_pageTable h1]
      exact (pure_eq_ok.mp h).symm

theorem unmapPage_ok {vaddr : Nat} (h : unmapPage k p vaddr = .ok k') :
    (entry1 k p (vpn1 vaddr) &&& pageV = 0 ∧ k' = k) ∨
    (entry1 k p (vpn1 vaddr) &&& pageV ≠ 0 ∧ k' = leafed k p vaddr 0) := by
  unfold unmapPage at h
  dsimp only at h
  split at h
  · cases h
  · split at h
    · rename_i hv
      injection h with h
      exact Or.inl ⟨hv, h.symm⟩
    · rename_i hv
      injection h with h
      exact Or.inr ⟨hv, h.symm⟩

/-- `unmap_page` refuses nothing but an unaligned address. -/
theorem unmapPage_of_aligned {vaddr : Nat} (h : vaddr % pageSize = 0) :
    ∃ k', unmapPage k p vaddr = .ok k' := by
  unfold unmapPage
  dsimp only
  rw [if_neg (by simpa using h)]
  split
  · exact ⟨_, rfl⟩
  · exact ⟨_, rfl⟩

theorem grow_ensureTable {v1 : Nat} (h : ensureTable L k p v1 = .ok k') : Grow p k k' := by
  rcases ensureTable_ok h with ⟨_, rfl⟩ | ⟨_, pt, idx, r, ha, rfl⟩
  · exact Grow.refl p _
  · exact ((grow_setRam p (allocPages_spec ha).freed).trans (grow_recordRegion L _ p idx)).trans
      (grow_setMem p _ _)

theorem grow_mapPage {vaddr paddr flags : Nat} (h : mapPage L k p vaddr paddr flags = .ok k') :
    Grow p k k' := by
  obtain ⟨_, _, k1, h1, rfl⟩ := mapPage_ok h
  exact (grow_ensureTable h1).trans (grow_setMem p _ _)

/-! ## Building an address space -/

theorem allocPageTable_ok (h : allocPageTable L k p = .ok k') :
    ∃ pt idx r, allocPages k.toRam 1 = .ok (pt, idx, r)
      ∧ k' = recordRegion L (({ k with toRam := r } : Kernel).setProc p
          fun q => { q with pageTable := pt }) p idx := by
  unfold allocPageTable at h
  obtain ⟨⟨pt, idx, r⟩, ha, h⟩ := bind_eq_ok.mp h
  exact ⟨pt, idx, r, ha, (pure_eq_ok.mp h).symm⟩

/-- The state in which a new page of the image is recorded and filled, but not mapped. -/
def imaged (L : Layout) (k : Kernel) (p page region : Nat) (r : Ram) (bytes : List UInt8) :
    Kernel :=
  let k1 := (recordRegion L { k with toRam := r } p region).setProc p
    fun q => { q with imageRegions := q.imageRegions ++ [region] }
  { k1 with mem := writeBytes k1.mem page bytes }

theorem mapImagePage_ok {image : List UInt8} {i : Nat}
    (h : mapImagePage L image p k i = .ok k') :
    ∃ page region r, allocPages k.toRam 1 = .ok (page, region, r)
      ∧ mapPage L (imaged L k p page region r ((image.drop (i * pageSize)).take pageSize)) p
          (u32 (userBase + i * pageSize)) page (pageU ||| pageR ||| pageW ||| pageX) = .ok k' := by
  unfold mapImagePage at h
  obtain ⟨⟨page, region, r⟩, ha, h⟩ := bind_eq_ok.mp h
  exact ⟨page, region, r, ha, h⟩

theorem buildSpace_ok {image : List UInt8} (h : buildSpace L k p image = .ok k') :
    ∃ k1 k2 k3, allocPageTable L k p = .ok k1 ∧ mapKernelPages L k1 p = .ok k2
      ∧ mapDevicePages L k2 p = .ok k3 ∧ mapImagePages L image k3 p = .ok k' := by
  unfold buildSpace at h
  obtain ⟨k1, h1, h⟩ := bind_eq_ok.mp h
  obtain ⟨k2, h2, h⟩ := bind_eq_ok.mp h
  obtain ⟨k3, h3, h⟩ := bind_eq_ok.mp h
  exact ⟨k1, k2, k3, h1, h2, h3, h⟩

/--
**Induction over the construction of an address space**: what the page table page
establishes, and every `map_page` and every new image page preserves, holds at the end.
-/
theorem buildSpace_inv {image : List UInt8} (P : Kernel → Prop)
    (hroot : ∀ k', allocPageTable L k p = .ok k' → P k')
    (hmap : ∀ t t' va pa fl, P t → mapPage L t p va pa fl = .ok t' → P t')
    (himage : ∀ t page region r bytes, P t → allocPages t.toRam 1 = .ok (page, region, r) →
      P (imaged L t p page region r bytes))
    (h : buildSpace L k p image = .ok k') : P k' := by
  obtain ⟨k1, k2, k3, h1, h2, h3, h4⟩ := buildSpace_ok h
  have g1 := hroot k1 h1
  have g2 : P k2 := loopM_inv (fun _ t => P t) _ g1 (fun _ t t' _ ht hm => hmap t t' _ _ _ ht hm) h2
  have g3 : P k3 :=
    listM_inv (fun _ t => P t) _ g2 (fun _ _ t t' _ ht hm => hmap t t' _ _ _ ht hm) h3
  refine loopM_inv (fun _ t => P t) _ g3 ?_ h4
  intro i t t' _ ht hm
  obtain ⟨page, region, r, ha, hm⟩ := mapImagePage_ok hm
  exact hmap _ _ _ _ _ (himage t page region r _ ht ha) hm

theorem grow_imaged {page region : Nat} {r : Ram} {bytes : List UInt8}
    (h : r.freed = k.freed) : Grow p k (imaged L k p page region r bytes) := by
  refine ((grow_setRam p h).trans (grow_recordRegion L _ p region)).trans ?_
  exact (grow_setProc (f := fun q => { q with imageRegions := q.imageRegions ++ [region] })
    rfl rfl ⟨[], by simp⟩ List.prefix_rfl).trans (grow_setMem p _ _)

theorem grow_allocPageTable (h : allocPageTable L k p = .ok k') : Grow p k k' := by
  obtain ⟨pt, idx, r, ha, rfl⟩ := allocPageTable_ok h
  refine ((grow_setRam p (allocPages_spec ha).freed).trans ?_).trans (grow_recordRegion L _ p idx)
  exact grow_setProc rfl rfl ⟨[], by simp⟩ List.prefix_rfl

theorem grow_buildSpace {image : List UInt8} (h : buildSpace L k p image = .ok k') :
    Grow p k k' :=
  buildSpace_inv (P := Grow p k) (fun _ h1 => grow_allocPageTable h1)
    (fun _ _ _ _ _ ht hm => ht.trans (grow_mapPage hm))
    (fun _ _ _ _ _ ht ha => ht.trans (grow_imaged (allocPages_spec ha).freed)) h

/-! ## Clearing a process -/

/-- Memory outside the kernel stack of process `p` is the same. -/
def SameOutsideStack (L : Layout) (p : Nat) (m m' : Mem) : Prop :=
  ∀ a, a < stackBase L p ∨ stackTop L p ≤ a → m' a = m a

/-- How far the clearing loop of `regions` has come after `n` iterations. -/
structure ClearedTo (L : Layout) (p : Nat) (k : Kernel) (n : Nat) (k' : Kernel) : Prop
    extends Grow p k k' where
  regions : ∀ j, j < n → j < procRegionMax → (k'.procs p).regions j = 0
  idx : procRegionMax < n → (k'.procs p).currentIdx = 0
  wrote : (k'.procs p).regionWrites = (k.procs p).regionWrites ++ List.range n
  table : k'.regions = k.regions
  kept : (k'.procs p).appended = (k.procs p).appended
    ∧ (k'.procs p).pageTable = (k.procs p).pageTable
    ∧ (k'.procs p).imageRegions = (k.procs p).imageRegions
  mem : SameOutsideStack L p k.mem k'.mem

theorem stackTop_eq (L : Layout) (p : Nat) : stackTop L p = stackBase L p + 8192 := by
  unfold stackTop stackBase sizeofProcess
  omega

theorem setRegion_mem {n v : Nat} (hn : n < stackWord + 2048) :
    SameOutsideStack L p k.mem (setRegion L k p n v).mem := by
  intro a ha
  unfold setRegion
  dsimp only
  split
  · rfl
  · split
    · rfl
    · split
      · rfl
      · rename_i h
        -- the words past the mappings are those of the stack
        have hst := stackTop_eq L p
        exact store32_of_outside (by omega)

theorem setRegion_table (n v : Nat) : (setRegion L k p n v).regions = k.regions := by
  unfold setRegion
  dsimp only
  split
  · rfl
  · split
    · rfl
    · split
      · rfl
      · rfl

theorem recordRegion_table (L : Layout) (k : Kernel) (p idx : Nat) :
    (recordRegion L k p idx).regions = k.regions := by
  unfold recordRegion
  dsimp only
  rw [setRegion_table]
  rfl

/-- An index that goes to a word of `struct process` is seen nowhere else. -/
theorem recordRegion_mem {idx : Nat} (hi : (k.procs p).currentIdx < stackWord + 2048) :
    SameOutsideStack L p k.mem (recordRegion L k p idx).mem := by
  unfold recordRegion
  exact setRegion_mem hi

/-- The word behind `regions` is `current_idx`. -/
theorem setRegion_currentIdx (L : Layout) (k : Kernel) (p n v : Nat) :
    ((setRegion L k p n v).procs p).currentIdx
      = if n = procRegionMax then v else (k.procs p).currentIdx := by
  unfold setRegion
  dsimp only
  split
  · rename_i hlt
    rw [if_neg (Nat.ne_of_lt hlt), setProc_self, noteWrite_self]
  · rename_i h1
    split
    · rename_i h2
      have he : n = procRegionMax := by unfold mappingsWord at h2; omega
      rw [if_pos he, setProc_self]
    · rename_i h2
      have he : n ≠ procRegionMax := by unfold mappingsWord at h2; omega
      rw [if_neg he]
      split
      · rw [setMapping_self, noteWrite_self]
      · dsimp only
        rw [noteWrite_self]

/-- Afterwards `current_idx` is one more, or the index itself if that went to its word. -/
theorem recordRegion_currentIdx (L : Layout) (k : Kernel) (p r : Nat) :
    ((recordRegion L k p r).procs p).currentIdx
      = if (k.procs p).currentIdx = procRegionMax then r else u32 ((k.procs p).currentIdx + 1) := by
  unfold recordRegion
  dsimp only
  rw [setRegion_currentIdx, setProc_self]

theorem clearedTo_step {n : Nat} (hn : n < maxRegions) {t : Kernel} (h : ClearedTo L p k n t) :
    ClearedTo L p k (n + 1) (setRegion L t p n 0) where
  toGrow := h.toGrow.trans (grow_setRegion L t p n 0)
  regions j hj hlt := by
    unfold setRegion
    dsimp only
    by_cases hjn : j = n
    · subst hjn
      rw [if_pos hlt, setProc_self]
      simp
    · have hj' := h.regions j (by omega) hlt
      split
      · rw [setProc_self]
        simp [Function.update_of_ne hjn, hj']
      · split
        · rw [setProc_self, noteWrite_self]; exact hj'
        · split
          · rw [setMapping_self, noteWrite_self]; exact hj'
          · dsimp only
            rw [noteWrite_self]; exact hj'
  idx hn' := by
    rw [setRegion_currentIdx]
    split
    · rfl
    · exact h.idx (by omega)
  wrote := by
    rw [(setRegion_fields L t p n 0).2.2.2, h.wrote, List.range_succ, List.append_assoc]
  table := (setRegion_table n 0).trans h.table
  kept := by
    obtain ⟨e1, e2, e3, _⟩ := setRegion_fields L t p n 0
    obtain ⟨g1, g2, g3⟩ := h.kept
    exact ⟨e1.trans g1, e2.trans g2, e3.trans g3⟩
  mem a ha := by
    have hw : n < stackWord + 2048 := Nat.lt_of_lt_of_le hn (by decide)
    exact (setRegion_mem hw a ha).trans (h.mem a ha)

theorem clearRegions_spec (L : Layout) (k : Kernel) (p : Nat) :
    ClearedTo L p k maxRegions (clearRegions L k p) :=
  loop_inv (f := fun k j => setRegion L k p j 0) (ClearedTo L p k) maxRegions
    { toGrow := Grow.refl p k, regions := fun _ h => absurd h (Nat.not_lt_zero _),
      idx := fun h => absurd h (Nat.not_lt_zero _), wrote := by simp, table := rfl, kept := ⟨rfl, rfl, rfl⟩,
      mem := fun _ _ => rfl }
    (fun _ _ hn h => clearedTo_step hn h)

/-- `clear_mappings` as one update of the process. -/
theorem clearMappings_eq (k : Kernel) (p : Nat) :
    ∃ f, clearMappings k p = k.setProc p (fun q => { q with shmMappings := f })
      ∧ ∀ i, i < procShmMax → f i = .cleared := by
  have h := loop_inv (f := fun k j => Kernel.setMapping k p j .cleared) (s := k)
    (fun n k' => ∃ f, k' = k.setProc p (fun q => { q with shmMappings := f })
      ∧ ∀ i, i < n → f i = .cleared) procShmMax
    ⟨(k.procs p).shmMappings, by simp [Kernel.setProc], fun _ h => absurd h (Nat.not_lt_zero _)⟩
    (by
      rintro n _ - ⟨f, rfl, hf⟩
      refine ⟨Function.update f n .cleared, ?_, ?_⟩
      · simp [Kernel.setMapping, setProc_setProc]
      · intro i hi
        by_cases hin : i = n
        · subst hin; simp
        · rw [Function.update_of_ne hin]; exact hf i (by omega))
  exact h

/-- What the two clearing loops leave of a process. -/
structure Wiped (L : Layout) (p : Nat) (k k' : Kernel) : Prop extends Grow p k k' where
  kept : (k'.procs p).appended = (k.procs p).appended
    ∧ (k'.procs p).pageTable = (k.procs p).pageTable
    ∧ (k'.procs p).imageRegions = (k.procs p).imageRegions
  currentIdx : (k'.procs p).currentIdx = 0
  wrote : (k'.procs p).regionWrites = (k.procs p).regionWrites ++ List.range maxRegions
  mappings : ∀ i, i < procShmMax → (k'.procs p).shmMappings i = .cleared
  table : k'.regions = k.regions
  mem : SameOutsideStack L p k.mem k'.mem

theorem wiped_clear (L : Layout) (k : Kernel) (p : Nat) :
    Wiped L p k (clearMappings (clearRegions L k p) p) := by
  have hc := clearRegions_spec L k p
  generalize clearRegions L k p = k2 at hc ⊢
  obtain ⟨f, hm, hf⟩ := clearMappings_eq k2 p
  rw [hm]
  refine ⟨hc.toGrow.trans (grow_setProc rfl rfl ⟨[], by simp⟩ List.prefix_rfl), ?_, ?_, ?_, ?_,
    hc.table, hc.mem⟩
  · rw [setProc_self]; exact hc.kept
  · rw [setProc_self]; exact hc.idx (by decide)
  · rw [setProc_self]; exact hc.wrote
  · intro i hi
    rw [setProc_self]; exact hf i hi

/-- What `create_process` and `init_processes` leave of a process before they build on it. -/
structure Reset (L : Layout) (p : Nat) (k k' : Kernel) : Prop extends Local p k k' where
  appended : (k'.procs p).appended = []
  imageRegions : (k'.procs p).imageRegions = []
  currentIdx : (k'.procs p).currentIdx = 0
  wrote : (k'.procs p).regionWrites = (k.procs p).regionWrites ++ List.range maxRegions
  mappings : ∀ i, i < procShmMax → (k'.procs p).shmMappings i = .cleared
  table : k'.regions = k.regions
  freed : k'.freed = k.freed
  mem : SameOutsideStack L p k.mem k'.mem

theorem stackInitialContext_eq (L : Layout) (k : Kernel) (p : Nat) :
    ∃ m, stackInitialContext L k p = { k with mem := m } ∧ SameOutsideStack L p k.mem m := by
  refine ⟨_, rfl, ?_⟩
  intro a ha
  have hst := stackTop_eq L p
  have hloop := loop_inv (f := fun m j => store32 m (stackTop L p - 4 * (j + 1)) 0) (s := k.mem)
    (fun _ m => m a = k.mem a) 12 rfl (by
      intro i m hi hm
      rw [store32_of_outside (by omega), hm])
  rw [store32_of_outside (by omega)]
  exact hloop

theorem resetProcess_spec (L : Layout) (k : Kernel) (p : Nat) :
    Reset L p k (resetProcess L k p) := by
  -- each stage is known by its facts only: comparing whole kernels is slow
  obtain ⟨k1, hk1, hr1, hp1, hl1⟩ : ∃ k1, (k.setProc p fun q =>
      { q with currentIdx := 0, appended := [], imageRegions := [] }) = k1
      ∧ k1.toRam = k.toRam ∧ k1.procs p = { k.procs p with
        currentIdx := 0, appended := [], imageRegions := [] } ∧ Local p k k1 :=
    ⟨_, rfl, rfl, setProc_self .., local_setProc ..⟩
  unfold resetProcess
  rw [hk1]
  dsimp only
  obtain ⟨k3, hk3, hw⟩ : ∃ k3, clearMappings (clearRegions L k1 p) p = k3 ∧ Wiped L p k1 k3 :=
    ⟨_, rfl, wiped_clear L k1 p⟩
  rw [hk3]
  obtain ⟨m, hs, hmem⟩ := stackInitialContext_eq L k3 p
  rw [hs]
  obtain ⟨e1, -, e3⟩ := hw.kept
  refine ⟨(hl1.trans hw.toLocal).trans (local_setRam p _ _), ?_, ?_, hw.currentIdx, ?_, hw.mappings,
    ?_, ?_, ?_⟩
  · show (k3.procs p).appended = []
    rw [e1, hp1]
  · show (k3.procs p).imageRegions = []
    rw [e3, hp1]
  · exact hw.wrote.trans (by rw [hp1])
  · show k3.regions = k.regions
    rw [hw.table, hr1]
  · show k3.freed = k.freed
    rw [hw.freed, hr1]
  · intro a ha
    show m a = k.mem a
    rw [hmem a ha, hw.mem a ha, hr1]

/-- The same of the loop body of `init_processes`, for a process that had nothing. -/
theorem initProcess_spec (L : Layout) {k : Kernel} {p : Nat} (ha : (k.procs p).appended = [])
    (hi : (k.procs p).imageRegions = []) : Reset L p k (initProcess L k p)
      ∧ ((initProcess L k p).procs p).pid = 0
      ∧ ((initProcess L k p).procs p).state = .unused := by
  obtain ⟨k1, hk1, hr1, hp1, hl1⟩ : ∃ k1,
      (k.setProc p fun q => { q with pid := 0, state := .unused, sp := 0 }) = k1
      ∧ k1.toRam = k.toRam ∧ k1.procs p = { k.procs p with pid := 0, state := .unused, sp := 0 }
      ∧ Local p k k1 :=
    ⟨_, rfl, rfl, setProc_self .., local_setProc ..⟩
  unfold initProcess
  rw [hk1]
  dsimp only
  obtain ⟨k3, hk3, hw⟩ : ∃ k3, clearMappings (clearRegions L k1 p) p = k3 ∧ Wiped L p k1 k3 :=
    ⟨_, rfl, wiped_clear L k1 p⟩
  rw [hk3]
  obtain ⟨e1, -, e3⟩ := hw.kept
  refine ⟨⟨hl1.trans hw.toLocal, ?_, ?_, hw.currentIdx, ?_, hw.mappings, ?_, ?_, ?_⟩, ?_, ?_⟩
  · rw [e1, hp1]; exact ha
  · rw [e3, hp1]; exact hi
  · rw [hw.wrote, hp1]
  · rw [hw.table, hr1]
  · rw [hw.freed, hr1]
  · exact hr1 ▸ hw.mem
  · rw [hw.pid, hp1]
  · rw [hw.state, hp1]

theorem createProcess_ok {image : List UInt8} (h : createProcess L k image = .ok (p, k')) :
    p < procsMax ∧ (k.procs p).state = .unused ∧ (∀ q, q < p → (k.procs q).state ≠ .unused)
      ∧ ∃ k1, buildSpace L (resetProcess L k p) p image = .ok k1
        ∧ k' = k1.setProc p fun q =>
            { q with pid := p + 1, state := .runnable, sp := stackTop L p - 4 * 13 } := by
  unfold createProcess at h
  split at h
  · cases h
  · rename_i p' hf
    obtain ⟨k1, h1, h⟩ := bind_eq_ok.mp h
    have h2 := pure_eq_ok.mp h
    injection h2 with hp h2
    subst hp
    rw [List.find?_range_eq_some] at hf
    obtain ⟨hst, hlt, hlow⟩ := hf
    refine ⟨by simpa using hlt, by simpa using hst, ?_, k1, h1, h2.symm⟩
    intro q hq
    simpa using hlow q hq

/-! ## Shared memory -/

theorem findById_some {id : Int} {s : Nat} (h : findById k id = some s) :
    s < shmMax ∧ (k.shmTable s).used = true ∧ (k.shmTable s).id = id := by
  unfold findById at h
  rw [List.find?_range_eq_some] at h
  obtain ⟨h1, h2, _⟩ := h
  rw [Bool.and_eq_true, decide_eq_true_eq] at h1
  exact ⟨List.mem_range.mp h2, h1.1, h1.2⟩

theorem findById_none_iff {id : Int} : findById k id = none ↔
    ∀ s, s < shmMax → (k.shmTable s).used = true → (k.shmTable s).id ≠ id := by
  unfold findById
  rw [List.find?_eq_none]
  simp

theorem findByKey_some {key : Int} {s : Nat} (h : findByKey k key = some s) :
    s < shmMax ∧ (k.shmTable s).used = true ∧ (k.shmTable s).key = key := by
  unfold findByKey at h
  rw [List.find?_range_eq_some] at h
  obtain ⟨h1, h2, _⟩ := h
  rw [Bool.and_eq_true, decide_eq_true_eq] at h1
  exact ⟨List.mem_range.mp h2, h1.1, h1.2⟩

theorem findByKey_none_iff {key : Int} : findByKey k key = none ↔
    ∀ s, s < shmMax → (k.shmTable s).used = true → (k.shmTable s).key ≠ key := by
  unfold findByKey
  rw [List.find?_eq_none]
  simp

/-- The only object has another key. -/
theorem findByKey_other {key : Int} (h0 : (k.shmTable 0).key ≠ key)
    (hrest : ∀ s, s < shmMax → s ≠ 0 → (k.shmTable s).used = false) : findByKey k key = none := by
  refine findByKey_none_iff.mpr fun s hs hu => ?_
  by_cases hs0 : s = 0
  · rw [hs0]
    exact h0
  · rw [hrest s hs hs0] at hu
    cases hu

/-- The object `shm_get` makes. -/
def newObject (k : Kernel) (key : Int) (pa regionIdx : Nat) : ShmObject where
  used := true
  id := k.nextShmId
  key := key
  pa := pa
  regionIdx := regionIdx
  size := shmPageSize
  refcount := 0
  birth := k.shmCreated

/-- The state in which `shm_get` has created an object in slot `s`. -/
def created (k : Kernel) (s : Nat) (key : Int) (pa regionIdx : Nat) (r : Ram) : Kernel :=
  { k with
    toRam := r
    nextShmId := i32 (k.nextShmId + 1)
    shmCreated := k.shmCreated + 1
    shmTable := Function.update k.shmTable s (newObject k key pa regionIdx) }

theorem shmGet_ok {key ret : Int} (h : shmGet k key = .ok (ret, k')) :
    (ret = -1 ∧ k' = k)
      ∨ (∃ s, findByKey k key = some s ∧ ret = (k.shmTable s).id ∧ k' = k)
      ∨ (0 < key ∧ findByKey k key = none ∧ ∃ s pa idx r, s < shmMax
        ∧ (k.shmTable s).used = false ∧ allocPages k.toRam 1 = .ok (pa, idx, r)
        ∧ ret = k.nextShmId ∧ k' = created k s key pa idx r) := by
  unfold shmGet at h
  split at h
  · injection h with h
    injection h with h1 h2
    exact Or.inl ⟨h1.symm, h2.symm⟩
  · rename_i hkey
    split at h
    · rename_i s hf
      injection h with h
      injection h with h1 h2
      exact Or.inr (Or.inl ⟨s, hf, h1.symm, h2.symm⟩)
    · rename_i hf
      split at h
      · rename_i s hs
        obtain ⟨⟨pa, idx, r⟩, ha, h⟩ := bind_eq_ok.mp h
        have h := pure_eq_ok.mp h
        injection h with h1 h2
        rw [List.find?_range_eq_some] at hs
        exact Or.inr (Or.inr ⟨by omega, hf, s, pa, idx, r, List.mem_range.mp hs.2.1,
          by simpa using hs.1, ha, h1.symm, h2.symm⟩)
      · injection h with h
        injection h with h1 h2
        exact Or.inl ⟨h1.symm, h2.symm⟩

/-- Where slot `i` of a process's window is mapped. -/
def slotAddr (i : Nat) : Nat := shmUserBase + i * shmPageSize

/-- The state in which `shm_attach` has entered its mapping and counted it. -/
def attached (k : Kernel) (p slot s : Nat) (id : Int) : Kernel :=
  (k.setMapping p slot { used := 1, shmId := id, vaddr := slotAddr slot }).setObj s
    { k.shmTable s with refcount := (k.shmTable s).refcount + 1 }

theorem shmAttach_ok {id : Int} {ret : Nat} (h : shmAttach L k p id = .ok (ret, k')) :
    (ret = 0 ∧ k' = k) ∨ ∃ s slot k1, findById k id = some s ∧ slot < procShmMax
      ∧ ((k.procs p).shmMappings slot).used = 0
      ∧ mapPage L k p (slotAddr slot) (k.shmTable s).pa (pageU ||| pageR ||| pageW) = .ok k1
      ∧ ret = slotAddr slot ∧ k' = attached k1 p slot s id := by
  unfold shmAttach at h
  split at h
  · injection h with h
    injection h with h1 h2
    exact Or.inl ⟨h1.symm, h2.symm⟩
  · rename_i s hs
    split at h
    · injection h with h
      injection h with h1 h2
      exact Or.inl ⟨h1.symm, h2.symm⟩
    · rename_i slot hslot
      obtain ⟨k1, hm, h⟩ := bind_eq_ok.mp h
      have h := pure_eq_ok.mp h
      injection h with h1 h2
      rw [List.find?_range_eq_some] at hslot
      exact Or.inr ⟨s, slot, k1, hs, List.mem_range.mp hslot.2.1, by simpa using hslot.1, hm,
        h1.symm, h2.symm⟩

/-- The state in which the object in slot `s` is gone and its page released. -/
def destroyed (k : Kernel) (s : Nat) (r : Ram) : Kernel :=
  ({ k with
    toRam := r
    shmReleased := k.shmReleased ++ [(k.shmTable s).birth] } : Kernel).setObj s .cleared

theorem shmPut_ok {s : Nat} (h : shmPut k s = .ok k') :
    (1 < (k.shmTable s).refcount
      ∧ k' = k.setObj s { k.shmTable s with refcount := (k.shmTable s).refcount - 1 }) ∨
    ((k.shmTable s).refcount ≤ 1 ∧ ∃ r,
      releasePages k.toRam ((k.shmTable s).regionIdx : Int) = .ok r ∧ k' = destroyed k s r) := by
  unfold shmPut at h
  dsimp only at h
  split at h
  · rename_i hr
    obtain ⟨r, hrel, h⟩ := bind_eq_ok.mp h
    refine Or.inr ⟨by omega, r, hrel, ?_⟩
    rw [← pure_eq_ok.mp h]
    simp [destroyed, Kernel.setObj]
  · rename_i hr
    injection h with h
    exact Or.inl ⟨by omega, h.symm⟩

/-- `shm_put` fails only where `release_pages` does. -/
theorem shmPut_of_release {s : Nat} {r : Ram}
    (h : releasePages k.toRam ((k.shmTable s).regionIdx : Int) = .ok r) :
    ∃ k', shmPut k s = .ok k' := by
  unfold shmPut
  dsimp only
  split
  · exact ⟨_, bind_eq_ok.mpr ⟨r, h, rfl⟩⟩
  · exact ⟨_, rfl⟩

/-- Slot `i` of process `p` is the mapping `shm_detach` finds for `vaddr`. -/
def Mapped (k : Kernel) (p i vaddr : Nat) : Prop :=
  i < procShmMax ∧ ((k.procs p).shmMappings i).used ≠ 0
    ∧ ((k.procs p).shmMappings i).vaddr = vaddr

theorem shmDetach_ok {vaddr : Nat} {ret : Int} (h : shmDetach k p vaddr = .ok (ret, k')) :
    (ret = -1 ∧ k' = k ∧ ∀ i, ¬ Mapped k p i vaddr) ∨
    (ret = 0 ∧ ∃ i k1, Mapped k p i vaddr ∧ unmapPage k p vaddr = .ok k1 ∧
      ((findById k ((k.procs p).shmMappings i).shmId = none
          ∧ k' = k1.setMapping p i .cleared) ∨
        ∃ s, findById k ((k.procs p).shmMappings i).shmId = some s
          ∧ shmPut (k1.setMapping p i .cleared) s = .ok k')) := by
  unfold shmDetach at h
  dsimp only at h
  split at h
  · rename_i hf
    injection h with h
    injection h with h1 h2
    refine Or.inl ⟨h1.symm, h2.symm, ?_⟩
    rintro i ⟨hi, hu, hv⟩
    rw [List.find?_eq_none] at hf
    have := hf i (List.mem_range.mpr hi)
    rw [decide_eq_true_eq] at this
    exact this ⟨hu, hv⟩
  · rename_i i hf
    rw [List.find?_range_eq_some, decide_eq_true_eq] at hf
    obtain ⟨⟨hu, hv⟩, hi, _⟩ := hf
    obtain ⟨k1, hun, h⟩ := bind_eq_ok.mp h
    rw [hv] at hun
    have hmapped : Mapped k p i vaddr := ⟨List.mem_range.mp hi, hu, hv⟩
    split at h
    · rename_i hid
      have h := pure_eq_ok.mp h
      injection h with h1 h2
      exact Or.inr ⟨h1.symm, i, k1, hmapped, hun, Or.inl ⟨hid, h2.symm⟩⟩
    · rename_i s hid
      obtain ⟨k2, hp, h⟩ := bind_eq_ok.mp h
      have h := pure_eq_ok.mp h
      injection h with h1 h2
      subst h2
      exact Or.inr ⟨h1.symm, i, k1, hmapped, hun, Or.inr ⟨s, hid, hp⟩⟩

/-! ## Exit and yield -/

theorem releaseProcess_ok (h : releaseProcess L k p = .ok k') :
    ∃ k1 k2 f, shmProcessCleanup k p = .ok k1 ∧ releaseRegions L k1 p = .ok k2
      ∧ (∀ i, i < procShmMax → f i = ShmMapping.cleared)
      ∧ k' = k2.setProc p fun q => { q with
          pid := 0, state := .unused, sp := 0, pageTable := 0, currentIdx := 0
          appended := [], imageRegions := [], shmMappings := f } := by
  unfold releaseProcess at h
  obtain ⟨k1, h1, h⟩ := bind_eq_ok.mp h
  obtain ⟨k2, h2, h⟩ := bind_eq_ok.mp h
  have h := pure_eq_ok.mp h
  obtain ⟨f, hm, hf⟩ := clearMappings_eq (k2.setProc p fun q => { q with
    pid := 0, state := .unused, sp := 0, pageTable := 0, currentIdx := 0
    appended := [], imageRegions := [] }) p
  refine ⟨k1, k2, f, h1, h2, hf, ?_⟩
  rw [← h, hm, setProc_setProc]

/-- The state in which `yield` has picked who runs next. -/
def scheduled (k : Kernel) : Kernel := { k with currentProc := findNext k }

theorem yield_ok (h : yield L k = .ok k') :
    ((k.procs k.currentProc).state = .exited ∧ ∃ k1,
      releaseProcess L k k.currentProc = .ok k1 ∧ k' = scheduled k1) ∨
    ((k.procs k.currentProc).state ≠ .exited ∧ k' = scheduled k) := by
  unfold yield at h
  dsimp only at h
  split at h
  · rename_i hst
    obtain ⟨k1, h1, h⟩ := bind_eq_ok.mp h
    exact Or.inl ⟨hst, k1, h1, (pure_eq_ok.mp h).symm⟩
  · rename_i hst
    obtain ⟨k1, h1, h⟩ := bind_eq_ok.mp h
    obtain rfl := pure_eq_ok.mp h1
    exact Or.inr ⟨hst, (pure_eq_ok.mp h).symm⟩

/-- The running process, marked as exited. -/
def exiting (k : Kernel) : Kernel :=
  k.setProc k.currentProc fun q => { q with state := .exited }

theorem sysExit_ok (h : sysExit L k = .ok k') :
    ∃ k1, releaseProcess L (exiting k) k.currentProc = .ok k1 ∧ k' = scheduled k1 := by
  rcases yield_ok h with ⟨_, k1, h1, h2⟩ | ⟨hst, _⟩
  · exact ⟨k1, h1, h2⟩
  · exact absurd (by rw [setProc_currentProc, setProc_self]) hst

/-! ## What a call on behalf of a process leaves alone -/

/-- Apart from what process `p` owns, and the shared memory table, nothing has changed. -/
structure Keep (p : Nat) (k k' : Kernel) : Prop where
  procs : ∀ q, q ≠ p → k'.procs q = k.procs q
  pid : (k'.procs p).pid = (k.procs p).pid
  state : (k'.procs p).state = (k.procs p).state
  writes : (k.procs p).regionWrites <+: (k'.procs p).regionWrites
  currentProc : k'.currentProc = k.currentProc
  idleProc : k'.idleProc = k.idleProc
  driverRegions : k'.driverRegions = k.driverRegions

theorem Keep.refl (p : Nat) (k : Kernel) : Keep p k k :=
  ⟨fun _ _ => rfl, rfl, rfl, List.prefix_rfl, rfl, rfl, rfl⟩

theorem Keep.trans {k'' : Kernel} (h : Keep p k k') (h' : Keep p k' k'') : Keep p k k'' where
  procs q hq := (h'.procs q hq).trans (h.procs q hq)
  pid := h'.pid.trans h.pid
  state := h'.state.trans h.state
  writes := h.writes.trans h'.writes
  currentProc := h'.currentProc.trans h.currentProc
  idleProc := h'.idleProc.trans h.idleProc
  driverRegions := h'.driverRegions.trans h.driverRegions

theorem Grow.keep (h : Grow p k k') : Keep p k k' :=
  ⟨h.procs, h.pid, h.state, h.writes, h.currentProc, h.idleProc, h.driverRegions⟩

theorem keep_setMapping (k : Kernel) (p i : Nat) (m : ShmMapping) :
    Keep p k (k.setMapping p i m) :=
  ⟨fun _ hq => setMapping_of_ne _ _ _ _ hq, by rw [setMapping_self], by rw [setMapping_self],
    ⟨[], by rw [setMapping_self, List.append_nil]⟩, rfl, rfl, rfl⟩

theorem keep_shmGet {key ret : Int} (p : Nat) (h : shmGet k key = .ok (ret, k')) :
    Keep p k k' := by
  rcases shmGet_ok h with ⟨_, rfl⟩ | ⟨s, _, _, rfl⟩ | ⟨_, _, s, pa, idx, r, _, _, _, _, rfl⟩
  · exact Keep.refl p _
  · exact Keep.refl p _
  · exact ⟨fun _ _ => rfl, rfl, rfl, List.prefix_rfl, rfl, rfl, rfl⟩

theorem keep_shmAttach {id : Int} {ret : Nat} (h : shmAttach L k p id = .ok (ret, k')) :
    Keep p k k' := by
  rcases shmAttach_ok h with ⟨_, rfl⟩ | ⟨s, slot, k1, _, _, _, hm, _, rfl⟩
  · exact Keep.refl p _
  · have h1 := keep_setMapping k1 p slot { used := 1, shmId := id, vaddr := slotAddr slot }
    exact (grow_mapPage hm).keep.trans
      ⟨h1.procs, h1.pid, h1.state, h1.writes, h1.currentProc, h1.idleProc, h1.driverRegions⟩

theorem keep_unmapPage {vaddr : Nat} (h : unmapPage k p vaddr = .ok k') : Keep p k k' := by
  rcases unmapPage_ok h with ⟨_, rfl⟩ | ⟨_, rfl⟩
  · exact Keep.refl p _
  · exact (grow_setMem p k _).keep

theorem keep_shmPut {s : Nat} (p : Nat) (h : shmPut k s = .ok k') : Keep p k k' := by
  rcases shmPut_ok h with ⟨_, rfl⟩ | ⟨_, r, _, rfl⟩
  · exact ⟨fun _ _ => rfl, rfl, rfl, List.prefix_rfl, rfl, rfl, rfl⟩
  · exact ⟨fun _ _ => rfl, rfl, rfl, List.prefix_rfl, rfl, rfl, rfl⟩

theorem keep_shmDetach {vaddr : Nat} {ret : Int} (h : shmDetach k p vaddr = .ok (ret, k')) :
    Keep p k k' := by
  rcases shmDetach_ok h with ⟨_, rfl, _⟩ | ⟨_, i, k1, _, hun, ⟨_, rfl⟩ | ⟨s, _, hput⟩⟩
  · exact Keep.refl p _
  · exact (keep_unmapPage hun).trans (keep_setMapping k1 p i _)
  · exact ((keep_unmapPage hun).trans (keep_setMapping k1 p i _)).trans (keep_shmPut p hput)

/--
**Induction over the cleanup of an exiting process**: what every `shm_detach` of a mapping
in use preserves holds at the end.
-/
theorem shmProcessCleanup_inv (P : Nat → Kernel → Prop) (h0 : P 0 k)
    (hskip : ∀ i t, i < procShmMax → P i t → ((t.procs p).shmMappings i).used = 0 → P (i + 1) t)
    (hstep : ∀ i t t' ret, i < procShmMax → P i t → ((t.procs p).shmMappings i).used ≠ 0 →
      shmDetach t p ((t.procs p).shmMappings i).vaddr = .ok (ret, t') → P (i + 1) t')
    (h : shmProcessCleanup k p = .ok k') : P procShmMax k' := by
  refine loopM_inv P procShmMax h0 ?_ h
  intro i t t' hi ht hb
  dsimp only at hb
  split at hb
  · rename_i hu
    obtain ⟨⟨ret, t1⟩, hd, hb⟩ := bind_eq_ok.mp hb
    obtain rfl := pure_eq_ok.mp hb
    exact hstep i t t1 ret hi ht hu hd
  · rename_i hu
    obtain rfl := pure_eq_ok.mp hb
    exact hskip i t hi ht (by simpa using hu)

theorem keep_shmProcessCleanup (h : shmProcessCleanup k p = .ok k') : Keep p k k' :=
  shmProcessCleanup_inv (fun _ t => Keep p k t) (Keep.refl p k) (fun _ _ _ ht _ => ht)
    (fun _ _ _ _ _ ht _ hd => ht.trans (keep_shmDetach hd)) h

theorem keep_releaseRegions (h : releaseRegions L k p = .ok k') : Keep p k k' := by
  refine loopM_inv (fun _ t => Keep p k t) _ (Keep.refl p k) ?_ h
  intro i t t' _ ht hb
  split at hb
  · split at hb
    · obtain ⟨r, _, hb⟩ := bind_eq_ok.mp hb
      obtain rfl := pure_eq_ok.mp hb
      refine ht.trans (Keep.trans ?_ (grow_setRegion L { t with toRam := r } p i 0).keep)
      exact ⟨fun _ _ => rfl, rfl, rfl, List.prefix_rfl, rfl, rfl, rfl⟩
    · obtain rfl := pure_eq_ok.mp hb
      exact ht
  · obtain rfl := pure_eq_ok.mp hb
    exact ht

/-- A released process is blank, and no other process noticed. -/
structure Gone (p : Nat) (k k' : Kernel) : Prop where
  procs : ∀ q, q ≠ p → k'.procs q = k.procs q
  pid : (k'.procs p).pid = 0
  state : (k'.procs p).state = .unused
  appended : (k'.procs p).appended = []
  writes : (k.procs p).regionWrites <+: (k'.procs p).regionWrites
  mappings : ∀ i, i < procShmMax → (k'.procs p).shmMappings i = .cleared
  currentProc : k'.currentProc = k.currentProc
  idleProc : k'.idleProc = k.idleProc
  driverRegions : k'.driverRegions = k.driverRegions

theorem gone_releaseProcess (h : releaseProcess L k p = .ok k') : Gone p k k' := by
  obtain ⟨k1, k2, f, h1, h2, hf, rfl⟩ := releaseProcess_ok h
  have hk := (keep_shmProcessCleanup h1).trans (keep_releaseRegions h2)
  refine ⟨?_, ?_, ?_, ?_, ?_, ?_, hk.currentProc, hk.idleProc, hk.driverRegions⟩
  · intro q hq
    rw [setProc_of_ne _ _ _ hq]
    exact hk.procs q hq
  · rw [setProc_self]
  · rw [setProc_self]
  · rw [setProc_self]
  · rw [setProc_self]
    exact hk.writes
  · intro i hi
    rw [setProc_self]
    exact hf i hi

end Os1000.Proof
