import Os1000.Alloc.Regions
import Os1000.Lib.Run
import Os1000.Lib.Tiles

/-!
# The region table partitions free RAM

The entries that are in use tile `[__free_ram, __free_ram_end)`: no byte of free
RAM is lost and none is described twice, through any sequence of allocations and
releases. Allocation is `Tiles.carve`, and one swallowing step of the merging pass
is `Tiles.join`; the pass itself is two nested applications of the loop rule.

The second half is about handles. Whatever the allocator does, an allocated entry
that it was not asked to release keeps its start, its size and its state, so a
region index stays valid until it is given back.
-/

namespace Os1000.Proof

open Os1000 Lib

/-- Entry `i` describes a block. -/
def InUse (t : Regions) (i : Nat) : Prop := i < maxRegions ∧ (t i).state ≠ .unused

/-- Where the block of entry `i` starts. -/
def startOf (t : Regions) (i : Nat) : Nat := (t i).start

/-- One past the last byte of the block of entry `i`. -/
def stopOf (t : Regions) (i : Nat) : Nat := (t i).start + (t i).size

/-- The table describes every byte of free RAM exactly once, in whole pages. -/
structure Partition (L : Layout) (t : Regions) : Prop where
  /-- The blocks in use tile free RAM. -/
  tiles : Tiles (InUse t) (startOf t) (stopOf t) L.freeRam L.freeRamEnd
  /-- Blocks are whole pages. -/
  aligned : ∀ i, InUse t i → (t i).start % pageSize = 0 ∧ (t i).size % pageSize = 0
  /-- Unused entries are cleared. -/
  unused : ∀ i, i < maxRegions → (t i).state = .unused → t i = .cleared

theorem Partition.size_pos {L : Layout} {t : Regions} (h : Partition L t) {i : Nat}
    (hi : InUse t i) : 0 < (t i).size := by
  have := h.tiles.nonempty i hi
  unfold startOf stopOf at this
  omega

theorem Partition.ge_freeRam {L : Layout} {t : Regions} (h : Partition L t) {i : Nat}
    (hi : InUse t i) : L.freeRam ≤ (t i).start := (h.tiles.bounds i hi).1

/-- No block reaches the end of the address space, so `start + size` never wraps. -/
theorem Partition.stop_lt {L : Layout} {t : Regions} (h : Partition L t) {i : Nat}
    (hi : InUse t i) : (t i).start + (t i).size < 2 ^ 32 :=
  Nat.lt_of_le_of_lt (h.tiles.bounds i hi).2 L.end_lt

/-! ## Initialisation -/

theorem partition_init (L : Layout) (r : Ram) : Partition L (initRegions L r).regions := by
  have hsz : u32 (L.freeRamEnd - L.freeRam) = freeRamSize := by
    have : L.freeRamEnd - L.freeRam = freeRamSize := by unfold Layout.freeRamEnd; omega
    rw [this]; rfl
  have h0 : (initRegions L r).regions 0 = ⟨L.freeRam, freeRamSize, .free⟩ := by
    simp [initRegions, hsz]
  have hi : ∀ i, i ≠ 0 → i < maxRegions → (initRegions L r).regions i = .cleared := by
    intro i h1 h2; simp [initRegions, h1, h2]
  have huse : ∀ i, InUse (initRegions L r).regions i → i = 0 := by
    intro i h
    by_contra hne
    exact h.2 (by rw [hi i hne h.1]; rfl)
  have huse0 : InUse (initRegions L r).regions 0 := ⟨by decide, by rw [h0]; simp⟩
  have hs0 : startOf (initRegions L r).regions 0 = L.freeRam := by rw [startOf, h0]
  have he0 : stopOf (initRegions L r).regions 0 = L.freeRamEnd := by
    rw [stopOf, h0]; rfl
  refine ⟨⟨?_, ?_, ?_, ?_⟩, ?_, ?_⟩
  · intro i h
    rw [huse i h, hs0, he0]
    unfold Layout.freeRamEnd freeRamSize; omega
  · intro i h
    rw [huse i h, hs0, he0]
    exact ⟨Nat.le_refl _, Nat.le_refl _⟩
  · intro i j hi' hj hij
    exact absurd ((huse i hi').trans (huse j hj).symm) hij
  · intro x hx hx'
    exact ⟨0, huse0, by rw [hs0]; exact hx, by rw [he0]; exact hx'⟩
  · intro i h
    rw [huse i h, h0]
    exact ⟨L.freeRam_aligned, show freeRamSize % pageSize = 0 by decide⟩
  · intro i hlt hst
    by_cases h : i = 0
    · subst h; rw [h0] at hst; cases hst
    · exact hi i h hlt

/-! ## Allocation -/

theorem findUnusedRegionSlot_some {t : Regions} {n : Nat}
    (h : findUnusedRegionSlot t = some n) :
    n < maxRegions ∧ (t n).state = .unused ∧ ∀ j, j < n → (t j).state ≠ .unused := by
  rw [findUnusedRegionSlot, List.find?_range_eq_some] at h
  obtain ⟨h1, h2, h3⟩ := h
  refine ⟨List.mem_range.mp h2, by simpa using h1, fun j hj => ?_⟩
  simpa using h3 j hj

theorem findSuitableFreeRegion_some {t : Regions} {req f : Nat}
    (h : findSuitableFreeRegion t req = some f) :
    f < maxRegions ∧ (t f).state = .free ∧ req ≤ (t f).size := by
  rw [findSuitableFreeRegion, List.find?_range_eq_some] at h
  obtain ⟨h1, h2, _⟩ := h
  have h1 : (t f).state = .free ∧ req ≤ (t f).size := by simpa using h1
  exact ⟨List.mem_range.mp h2, h1.1, h1.2⟩

/-- Everything a successful `alloc_region` did. -/
theorem allocRegion_ok {r r' : Ram} {numPages idx : Nat}
    (h : allocRegion r numPages = .ok (idx, r')) :
    ∃ f, findSuitableFreeRegion r.regions (u32 (numPages * pageSize)) = some f
      ∧ findUnusedRegionSlot r.regions = some idx
      ∧ r'.regions = takeFront r.regions f idx (u32 (numPages * pageSize))
      ∧ r'.mem = fill r.mem (r.regions f).start 0 (u32 (numPages * pageSize))
      ∧ r'.freed = r.freed := by
  unfold allocRegion at h
  dsimp only at h
  split at h
  · rename_i f n hf hn
    injection h with h
    injection h with h1 h2
    subst h1; subst h2
    exact ⟨f, hf, hn, rfl, rfl, rfl⟩
  · cases h

section TakeFront

variable {t : Regions} {f n req : Nat}

theorem takeFront_new (hfn : f ≠ n) :
    takeFront t f n req n = ⟨(t f).start, req, .allocated⟩ := by
  unfold takeFront
  dsimp only
  split <;> simp [Function.update_of_ne hfn.symm]

theorem takeFront_other {i : Nat} (hf : i ≠ f) (hn : i ≠ n) : takeFront t f n req i = t i := by
  unfold takeFront
  dsimp only
  split <;> simp [Function.update_of_ne hf, Function.update_of_ne hn]

/-- The source block lost its front, or became an unused entry when that was all of it. -/
theorem takeFront_source (hfn : f ≠ n) (hreq : req ≤ (t f).size)
    (hlt : (t f).start + (t f).size < 2 ^ 32) :
    takeFront t f n req f
      = if (t f).size = req then .cleared
        else ⟨(t f).start + req, (t f).size - req, (t f).state⟩ := by
  have hu : u32 ((t f).start + req) = (t f).start + req := u32_of_lt (by omega)
  unfold takeFront
  simp only [Function.update_self, Function.update_of_ne hfn, hu]
  by_cases he : (t f).size = req
  · rw [if_pos (by omega), if_pos he, Function.update_self]
    simp [Region.cleared, he]
  · rw [if_neg (by omega), if_neg he, Function.update_self]

end TakeFront

/-- Taking whole pages off the front of a free block keeps the partition. -/
theorem partition_takeFront {L : Layout} {t : Regions} {f n req : Nat} (h : Partition L t)
    (hf : f < maxRegions) (hff : (t f).state = .free) (hn : n < maxRegions)
    (hnu : (t n).state = .unused) (h0 : 0 < req) (hreq : req ≤ (t f).size)
    (hal : req % pageSize = 0) : Partition L (takeFront t f n req) := by
  have hfu : InUse t f := ⟨hf, by rw [hff]; simp⟩
  have hfn : f ≠ n := fun e => by rw [e, hnu] at hff; cases hff
  have hlt := h.stop_lt hfu
  have hnew : takeFront t f n req n = ⟨(t f).start, req, .allocated⟩ := takeFront_new hfn
  have hsrc := takeFront_source (t := t) hfn hreq hlt
  -- the source is still in use exactly when the cut left something
  have hsu : InUse (takeFront t f n req) f ↔ startOf t f + req < stopOf t f := by
    unfold InUse startOf stopOf
    rw [hsrc]
    split
    · simp [Region.cleared]; omega
    · simp [hf, hff]; omega
  have hsz : InUse (takeFront t f n req) f → (t f).size ≠ req := by
    intro hu he
    have := hsu.mp hu
    unfold startOf stopOf at this; omega
  have hsrc' : InUse (takeFront t f n req) f →
      takeFront t f n req f = ⟨(t f).start + req, (t f).size - req, (t f).state⟩ := by
    intro hu; rw [hsrc, if_neg (hsz hu)]
  refine ⟨?_, ?_, ?_⟩
  · refine h.tiles.carve (f := f) (n := n) (m := startOf t f + req) hfu (fun hu => hu.2 hnu)
      (by omega) (by unfold startOf stopOf; omega) ⟨hn, by rw [hnew]; simp⟩ ?_ ?_ hsu ?_ ?_ ?_ ?_ ?_
    · simp [startOf, hnew]
    · simp [startOf, stopOf, hnew]
    · intro hu; simp [startOf, hsrc' hu]
    · intro hu; simp [stopOf, hsrc' hu]; omega
    · intro i h1 h2; unfold InUse; rw [takeFront_other h1 h2]
    · intro i h1 h2 _; unfold startOf; rw [takeFront_other h1 h2]
    · intro i h1 h2 _; unfold stopOf; rw [takeFront_other h1 h2]
  · intro i hu
    have hfa := h.aligned f hfu
    unfold pageSize at *
    by_cases hin : i = n
    · subst hin; rw [hnew]; exact ⟨hfa.1, hal⟩
    · by_cases hif : i = f
      · subst hif
        rw [hsrc' hu]
        exact ⟨by dsimp only; omega, by dsimp only; omega⟩
      · rw [takeFront_other hif hin]
        have hu2 := hu.2
        rw [takeFront_other hif hin] at hu2
        exact h.aligned i ⟨hu.1, hu2⟩
  · intro i hlt' hst
    by_cases hin : i = n
    · subst hin; rw [hnew] at hst; cases hst
    · by_cases hif : i = f
      · subst hif
        rw [hsrc] at hst ⊢
        split
        · rfl
        · rename_i he
          rw [if_neg he] at hst
          rw [hff] at hst; cases hst
      · rw [takeFront_other hif hin] at hst ⊢
        exact h.unused i hlt' hst

theorem required_aligned (numPages : Nat) : u32 (numPages * pageSize) % pageSize = 0 := by
  unfold u32 pageSize; omega

/-- The entries other than the new one and the shrunken source are untouched. -/
theorem partition_alloc {L : Layout} {r r' : Ram} {numPages idx : Nat}
    (h : Partition L r.regions) (hreq : u32 (numPages * pageSize) ≠ 0)
    (ha : allocRegion r numPages = .ok (idx, r')) : Partition L r'.regions := by
  obtain ⟨f, hf, hn, ht, _, _⟩ := allocRegion_ok ha
  obtain ⟨h1, h2, h3⟩ := findSuitableFreeRegion_some hf
  obtain ⟨h4, h5, _⟩ := findUnusedRegionSlot_some hn
  rw [ht]
  exact partition_takeFront h h1 h2 h4 h5 (by omega) h3 (required_aligned numPages)

/-- Allocation changes no allocated entry. -/
theorem alloc_keeps {r r' : Ram} {numPages idx i : Nat}
    (ha : allocRegion r numPages = .ok (idx, r')) (hi : (r.regions i).state = .allocated) :
    i ≠ idx ∧ r'.regions i = r.regions i := by
  obtain ⟨f, hf, hn, ht, _, _⟩ := allocRegion_ok ha
  obtain ⟨_, h2, _⟩ := findSuitableFreeRegion_some hf
  obtain ⟨_, h5, _⟩ := findUnusedRegionSlot_some hn
  have hif : i ≠ f := fun e => by rw [e, h2] at hi; cases hi
  have hin : i ≠ idx := fun e => by rw [e, h5] at hi; cases hi
  exact ⟨hin, by rw [ht, takeFront_other hif hin]⟩

/-- `alloc_pages` returns exactly when `alloc_region` does. -/
theorem allocPages_ok {r r' : Ram} {numPages paddr idx : Nat} :
    allocPages r numPages = .ok (paddr, idx, r') ↔
      allocRegion r numPages = .ok (idx, r') ∧ paddr = (r'.regions idx).start := by
  unfold allocPages
  rw [bind_eq_ok]
  constructor
  · rintro ⟨⟨i, q⟩, h1, h2⟩
    rw [bind_eq_ok] at h2
    obtain ⟨a, h2, h3⟩ := h2
    simp only [pure_eq_ok, Prod.mk.injEq] at h3
    obtain ⟨rfl, rfl, rfl⟩ := h3
    refine ⟨h1, ?_⟩
    unfold regionToAddr at h2
    split at h2
    · cases h2
    · split at h2
      · cases h2
      · injection h2 with h2; exact h2.symm
  · rintro ⟨h1, rfl⟩
    obtain ⟨f, hf, hn, ht, _, _⟩ := allocRegion_ok h1
    obtain ⟨_, h2, _⟩ := findSuitableFreeRegion_some hf
    obtain ⟨h4, h5, _⟩ := findUnusedRegionSlot_some hn
    have hfn : f ≠ idx := fun e => by rw [e, h5] at h2; cases h2
    refine ⟨_, h1, bind_eq_ok.mpr ⟨_, ?_, rfl⟩⟩
    unfold regionToAddr
    rw [if_neg (by omega), if_neg (by rw [ht, takeFront_new hfn]; simp)]

/-- `alloc_pages` fails for want of space only: its call of `region_to_addr` cannot. -/
theorem allocPages_error {r : Ram} {numPages : Nat} {e : Panic}
    (h : allocPages r numPages = .error e) : e = .outOfMemory := by
  cases ha : allocRegion r numPages with
  | ok res =>
      obtain ⟨idx, r'⟩ := res
      rw [allocPages_ok.mpr ⟨ha, rfl⟩] at h
      cases h
  | error e' =>
      unfold allocPages at h
      rw [ha, error_bind] at h
      injection h with h
      unfold allocRegion at ha
      dsimp only at ha
      split at ha
      · cases ha
      · injection ha with ha
        rw [← h, ← ha]

/-- What `alloc_pages` returned and changed, without the search that led there. -/
structure Allocated (r : Ram) (numPages paddr idx : Nat) (r' : Ram) : Prop where
  lt : idx < maxRegions
  wasUnused : (r.regions idx).state = .unused
  entry : r'.regions idx = ⟨paddr, u32 (numPages * pageSize), .allocated⟩
  keeps : ∀ i, (r.regions i).state = .allocated → r'.regions i = r.regions i
  only : ∀ i, (r'.regions i).state = .allocated → i = idx ∨ r'.regions i = r.regions i
  mem : r'.mem = fill r.mem paddr 0 (u32 (numPages * pageSize))
  freed : r'.freed = r.freed
  /-- The block was the front of a free block. -/
  wasFree : ∃ f, f < maxRegions ∧ (r.regions f).state = .free
    ∧ (r.regions f).start = paddr ∧ u32 (numPages * pageSize) ≤ (r.regions f).size

theorem allocPages_spec {r r' : Ram} {numPages paddr idx : Nat}
    (h : allocPages r numPages = .ok (paddr, idx, r')) : Allocated r numPages paddr idx r' := by
  obtain ⟨ha, rfl⟩ := allocPages_ok.mp h
  obtain ⟨f, hf, hn, ht, hm, hfr⟩ := allocRegion_ok ha
  obtain ⟨h1, h2, h3⟩ := findSuitableFreeRegion_some hf
  obtain ⟨h4, h5, _⟩ := findUnusedRegionSlot_some hn
  have hfn : f ≠ idx := fun e => by rw [e, h5] at h2; cases h2
  have hnew : r'.regions idx
      = ⟨(r.regions f).start, u32 (numPages * pageSize), .allocated⟩ := by
    rw [ht]; exact takeFront_new hfn
  refine ⟨h4, h5, by rw [hnew], fun i hi => (alloc_keeps ha hi).2, ?_, ?_, hfr, ?_⟩
  · intro i hi
    by_cases hin : i = idx
    · exact Or.inl hin
    · by_cases hif : i = f
      · subst hif
        -- the source stays free or becomes unused
        exfalso
        rw [ht] at hi
        unfold takeFront at hi
        dsimp only at hi
        split at hi
        · simp at hi
        · simp [Function.update_of_ne hin, h2] at hi
      · exact Or.inr (by rw [ht]; exact takeFront_other hif hin)
  · rw [hm, hnew]
  · exact ⟨f, h1, h2, by rw [hnew], h3⟩

/-! ## Merging -/

/-- Entry `i` describes a free block. -/
def Free (t : Regions) (i : Nat) : Prop := i < maxRegions ∧ (t i).state = .free

/-- Free block `i` ends exactly where free block `j` starts. -/
def Touch (t : Regions) (i j : Nat) : Prop := Free t i ∧ Free t j ∧ stopOf t i = startOf t j

/-- The table after `i` took over the block of `j`. -/
def swallow (t : Regions) (i j : Nat) : Regions :=
  Function.update (Function.update t i { t i with size := (t i).size + (t j).size }) j .cleared

theorem Free.inUse {t : Regions} {i : Nat} (h : Free t i) : InUse t i :=
  ⟨h.1, by rw [h.2]; simp⟩

section Swallow

variable {L : Layout} {t : Regions} {i j k : Nat}

/-- A block does not touch itself: it is not empty. -/
theorem Touch.ne (h : Partition L t) (ht : Touch t i j) : i ≠ j := by
  rintro rfl
  have h1 := h.size_pos ht.1.inUse
  have h2 := ht.2.2
  unfold stopOf startOf at h2
  omega

theorem swallow_self (hij : i ≠ j) :
    swallow t i j i = { t i with size := (t i).size + (t j).size } := by
  simp [swallow, Function.update_of_ne hij]

theorem swallow_gone : swallow t i j j = .cleared := by simp [swallow]

theorem swallow_other (hi : k ≠ i) (hj : k ≠ j) : swallow t i j k = t k := by
  simp [swallow, Function.update_of_ne hi, Function.update_of_ne hj]

theorem swallow_stop (ht : Touch t i j) (hij : i ≠ j) : stopOf (swallow t i j) i = stopOf t j := by
  have h2 := ht.2.2
  unfold stopOf startOf at *
  rw [swallow_self hij]
  dsimp only
  omega

theorem partition_swallow (h : Partition L t) (ht : Touch t i j) :
    Partition L (swallow t i j) := by
  have hij := ht.ne h
  have hiu := ht.1.inUse
  have hju := ht.2.1.inUse
  have hgone : ¬ InUse (swallow t i j) j := by
    intro hu; exact hu.2 (by rw [swallow_gone]; rfl)
  have huse : ∀ k, k ≠ i → k ≠ j → (InUse (swallow t i j) k ↔ InUse t k) := by
    intro k h1 h2; unfold InUse; rw [swallow_other h1 h2]
  refine ⟨?_, ?_, ?_⟩
  · refine h.tiles.join hiu hju hij ht.2.2 ⟨hiu.1, ?_⟩ ?_ (swallow_stop ht hij) hgone huse ?_ ?_
    · rw [swallow_self hij]; exact hiu.2
    · unfold startOf; rw [swallow_self hij]
    · intro k h1 h2 _; unfold startOf; rw [swallow_other h1 h2]
    · intro k h1 h2 _; unfold stopOf; rw [swallow_other h1 h2]
  · intro k hk
    by_cases hki : k = i
    · subst hki
      have h1 := h.aligned k hiu
      have h2 := h.aligned j hju
      rw [swallow_self hij]
      refine ⟨h1.1, ?_⟩
      show ((t k).size + (t j).size) % pageSize = 0
      unfold pageSize at *
      omega
    · have hkj : k ≠ j := fun e => hgone (e ▸ hk)
      rw [swallow_other hki hkj]
      exact h.aligned k ((huse k hki hkj).mp hk)
  · intro k hlt hst
    by_cases hkj : k = j
    · subst hkj; exact swallow_gone
    · by_cases hki : k = i
      · subst hki
        rw [swallow_self hij] at hst
        exact absurd hst hiu.2
      · rw [swallow_other hki hkj] at hst ⊢
        exact h.unused k hlt hst

/-- A body of the inner loop that finds a touching block swallows it. -/
theorem mergeInto_touch (h : Partition L t) (ht : Touch t i j) :
    mergeInto i t j = swallow t i j := by
  have hij := ht.ne h
  have h1 := h.stop_lt ht.1.inUse
  have h2 := h.stop_lt ht.2.1.inUse
  have h3 := ht.2.2
  unfold stopOf startOf at h3
  unfold mergeInto swallow
  rw [if_neg (by simp [hij, ht.2.1.2]), if_pos (by rw [u32_of_lt h1]; exact h3),
    u32_of_lt (by omega)]

/-- Otherwise it leaves the table alone. -/
theorem mergeInto_not_touch (h : Partition L t) (hi : Free t i) (hj : j < maxRegions)
    (ht : ¬ Touch t i j) : mergeInto i t j = t := by
  unfold mergeInto
  split
  · rfl
  · rename_i hc
    have hfj : Free t j := ⟨hj, by by_contra hs; exact hc (Or.inr hs)⟩
    rw [if_neg]
    rw [u32_of_lt (h.stop_lt hi.inUse)]
    exact fun e => ht ⟨hi, hfj, e⟩

end Swallow

/-- Two tables have the same allocated entries, with the same contents. -/
def SameAllocated (t t' : Regions) : Prop :=
  ∀ k, (t k).state = .allocated ∨ (t' k).state = .allocated → t' k = t k

theorem SameAllocated.refl (t : Regions) : SameAllocated t t := fun _ _ => rfl

theorem SameAllocated.trans {t t' t'' : Regions} (h : SameAllocated t t')
    (h' : SameAllocated t' t'') : SameAllocated t t'' := by
  intro k hk
  rcases hk with hk | hk
  · have e := h k (Or.inl hk)
    rw [h' k (Or.inl (by rw [e]; exact hk)), e]
  · have e := h' k (Or.inr hk)
    rw [e, h k (Or.inr (by rw [← e]; exact hk))]

section Merge

variable {L : Layout} {t : Regions} {i j : Nat}

/-- What one body of the inner loop preserves. -/
theorem mergeInto_spec (h : Partition L t) (hi : Free t i) (hj : j < maxRegions) :
    Partition L (mergeInto i t j) ∧ Free (mergeInto i t j) i
      ∧ SameAllocated t (mergeInto i t j) := by
  by_cases ht : Touch t i j
  · rw [mergeInto_touch h ht]
    have hij := ht.ne h
    refine ⟨partition_swallow h ht, ⟨hi.1, by rw [swallow_self hij]; exact hi.2⟩, ?_⟩
    intro k hk
    have hki : k ≠ i := by
      rintro rfl
      rw [swallow_self hij, hi.2] at hk
      simp at hk
    have hkj : k ≠ j := by
      rintro rfl
      rw [swallow_gone, ht.2.1.2] at hk
      simp [Region.cleared] at hk
    exact swallow_other hki hkj
  · rw [mergeInto_not_touch h hi hj ht]
    exact ⟨h, hi, SameAllocated.refl t⟩

/-- What a row of the pass preserves. -/
theorem mergeRow_spec (h : Partition L t) (hlt : i < maxRegions) :
    Partition L (mergeRow t i) ∧ SameAllocated t (mergeRow t i) := by
  unfold mergeRow
  split
  · exact ⟨h, SameAllocated.refl t⟩
  · rename_i hi
    have hi : Free t i := ⟨hlt, by simpa using hi⟩
    obtain ⟨h1, _, h2⟩ := loop_inv (f := mergeInto i) (s := t)
      (fun _ u => Partition L u ∧ Free u i ∧ SameAllocated t u) maxRegions
      ⟨h, hi, SameAllocated.refl t⟩ (fun j u hj hu => by
        obtain ⟨g1, g2, g3⟩ := mergeInto_spec hu.1 hu.2.1 hj
        exact ⟨g1, g2, hu.2.2.trans g3⟩)
    exact ⟨h1, h2⟩

/-- What the merging pass preserves. -/
theorem mergeFreeRegions_spec (h : Partition L t) :
    Partition L (mergeFreeRegions t) ∧ SameAllocated t (mergeFreeRegions t) :=
  loop_inv (f := mergeRow) (s := t) (fun _ u => Partition L u ∧ SameAllocated t u) maxRegions
    ⟨h, SameAllocated.refl t⟩ (fun i u hi hu => by
      obtain ⟨g1, g2⟩ := mergeRow_spec hu.1 hi
      exact ⟨g1, hu.2.trans g2⟩)

end Merge

/-! ## Release -/

/-- Everything a successful `release_pages` did. -/
theorem releasePages_ok {r r' : Ram} {idx : Int} (h : releasePages r idx = .ok r') :
    ∃ i : Nat, idx = (i : Int) ∧ i < maxRegions ∧ (r.regions i).state = .allocated
      ∧ r'.regions = mergeFreeRegions (markFree r.regions i)
      ∧ r'.mem = r.mem ∧ r'.freed = r.freed ++ [i] := by
  unfold releasePages at h
  split at h
  · cases h
  · rename_i hb
    split at h
    · cases h
    · rename_i hs
      injection h with h
      subst h
      exact ⟨idx.toNat, by omega, by omega, by simpa using hs, by dsimp only, rfl, rfl⟩

/-- `release_pages` accepts every allocated entry. -/
theorem releasePages_of_allocated {r : Ram} {i : Nat} (hi : i < maxRegions)
    (ha : (r.regions i).state = .allocated) :
    releasePages r (i : Int) = .ok { r with
      regions := mergeFreeRegions (markFree r.regions i)
      freed := r.freed ++ [i] } := by
  unfold releasePages
  rw [if_neg (by omega), if_neg (by simpa using ha)]
  simp

theorem markFree_self (t : Regions) (i : Nat) : markFree t i i = { t i with state := .free } := by
  simp [markFree]

theorem markFree_other {t : Regions} {i k : Nat} (h : k ≠ i) : markFree t i k = t k := by
  simp [markFree, Function.update_of_ne h]

theorem startOf_markFree (t : Regions) (i : Nat) : startOf (markFree t i) = startOf t := by
  funext k
  by_cases h : k = i
  · subst h; simp [startOf, markFree_self]
  · simp [startOf, markFree_other h]

theorem stopOf_markFree (t : Regions) (i : Nat) : stopOf (markFree t i) = stopOf t := by
  funext k
  by_cases h : k = i
  · subst h; simp [stopOf, markFree_self]
  · simp [stopOf, markFree_other h]

/-- Marking an allocated entry free moves no block. -/
theorem partition_markFree {L : Layout} {t : Regions} {i : Nat} (h : Partition L t)
    (ha : (t i).state = .allocated) : Partition L (markFree t i) := by
  have huse : InUse (markFree t i) = InUse t := by
    funext k
    apply propext
    unfold InUse
    by_cases hk : k = i
    · subst hk; simp [markFree_self, ha]
    · rw [markFree_other hk]
  refine ⟨?_, ?_, ?_⟩
  · rw [huse, startOf_markFree, stopOf_markFree]; exact h.tiles
  · intro k hk
    rw [huse] at hk
    have := h.aligned k hk
    by_cases hki : k = i
    · subst hki; rw [markFree_self]; exact this
    · rw [markFree_other hki]; exact this
  · intro k hlt hst
    by_cases hki : k = i
    · subst hki; rw [markFree_self] at hst; cases hst
    · rw [markFree_other hki] at hst ⊢; exact h.unused k hlt hst

theorem partition_release {L : Layout} {r r' : Ram} {idx : Int} (h : Partition L r.regions)
    (hr : releasePages r idx = .ok r') : Partition L r'.regions := by
  obtain ⟨i, _, _, ha, ht, _, _⟩ := releasePages_ok hr
  rw [ht]
  exact (mergeFreeRegions_spec (partition_markFree h ha)).1

/-- Release changes no allocated entry but the one it was given, and that one is gone. -/
theorem release_keeps {L : Layout} {r r' : Ram} {i : Nat} (h : Partition L r.regions)
    (hr : releasePages r (i : Int) = .ok r') :
    (r'.regions i).state ≠ .allocated ∧ ∀ k, k ≠ i →
      (r.regions k).state = .allocated ∨ (r'.regions k).state = .allocated →
        r'.regions k = r.regions k := by
  obtain ⟨j, hij, _, ha, ht, _, _⟩ := releasePages_ok hr
  obtain rfl : i = j := by omega
  have hsame := (mergeFreeRegions_spec (partition_markFree h ha)).2
  rw [← ht] at hsame
  constructor
  · intro hs
    have he := hsame i (Or.inr hs)
    rw [he, markFree_self] at hs
    cases hs
  · intro k hk hor
    have he := hsame k (by rw [markFree_other hk]; exact hor)
    rw [markFree_other hk] at he
    exact he

/-! ## Releasing a list of entries -/

/-- One `release_pages` after the other. -/
def releaseAll (r : Ram) (is : List Nat) : Except Panic Ram :=
  is.foldlM (fun r (i : Nat) => releasePages r (i : Int)) r

/-- What giving back the entries `is` has changed. -/
structure Released (L : Layout) (r : Ram) (is : List Nat) (r' : Ram) : Prop where
  part : Partition L r'.regions
  back : ∀ i, (r'.regions i).state = .allocated → (r.regions i).state = .allocated ∧ i ∉ is
  keep : ∀ i, i ∉ is → (r.regions i).state = .allocated → r'.regions i = r.regions i
  mem : r'.mem = r.mem
  freed : r'.freed = r.freed ++ is

section ReleaseAll

variable {L : Layout} {r r' r'' : Ram}

theorem released_nil (h : Partition L r.regions) : Released L r [] r :=
  ⟨h, fun _ ha => ⟨ha, List.not_mem_nil⟩, fun _ _ _ => rfl, rfl, by simp⟩

theorem released_one {i : Nat} (h : Partition L r.regions)
    (hr : releasePages r (i : Int) = .ok r') : Released L r [i] r' := by
  obtain ⟨hgone, hkeep⟩ := release_keeps h hr
  obtain ⟨j, hij, _, _, _, hm, hf⟩ := releasePages_ok hr
  obtain rfl : i = j := by omega
  refine ⟨partition_release h hr, ?_, ?_, hm, hf⟩
  · intro n hn
    have hni : n ≠ i := fun e => hgone (e ▸ hn)
    exact ⟨hkeep n hni (Or.inr hn) ▸ hn, by simpa using hni⟩
  · intro n hn ha
    exact hkeep n (by simpa using hn) (Or.inl ha)

theorem Released.append {is js : List Nat} (h : Released L r is r') (h' : Released L r' js r'') :
    Released L r (is ++ js) r'' := by
  refine ⟨h'.part, ?_, ?_, h'.mem.trans h.mem, by rw [h'.freed, h.freed, List.append_assoc]⟩
  · intro i hi
    obtain ⟨h1, h2⟩ := h'.back i hi
    obtain ⟨h3, h4⟩ := h.back i h1
    exact ⟨h3, by simp [h2, h4]⟩
  · intro i hi ha
    rw [List.mem_append, not_or] at hi
    have e := h.keep i hi.1 ha
    rw [h'.keep i hi.2 (e ▸ ha), e]

theorem releaseAll_append (is js : List Nat) :
    releaseAll r (is ++ js) = releaseAll r is >>= fun r => releaseAll r js :=
  List.foldlM_append

theorem releaseAll_released {is : List Nat} (h : Partition L r.regions)
    (hr : releaseAll r is = .ok r') : Released L r is r' := by
  induction is generalizing r with
  | nil =>
      obtain rfl : r = r' := pure_eq_ok.mp hr
      exact released_nil h
  | cons i is ih =>
      unfold releaseAll at hr
      rw [List.foldlM_cons, bind_eq_ok] at hr
      obtain ⟨r1, h1, h2⟩ := hr
      have hone := released_one h h1
      exact hone.append (ih hone.part h2)

/-- Allocated entries can be given back in any order, each once. -/
theorem releaseAll_of_allocated {is : List Nat} (h : Partition L r.regions) (hnd : is.Nodup)
    (ha : ∀ i, i ∈ is → i < maxRegions ∧ (r.regions i).state = .allocated) :
    ∃ r', releaseAll r is = .ok r' := by
  induction is generalizing r with
  | nil => exact ⟨r, rfl⟩
  | cons i is ih =>
      obtain ⟨hi, hst⟩ := ha i List.mem_cons_self
      have h1 := releasePages_of_allocated hi hst
      have hone := released_one h h1
      obtain ⟨hni, hnd'⟩ := List.nodup_cons.mp hnd
      obtain ⟨r', h2⟩ := ih hone.part hnd' (by
        intro j hj
        obtain ⟨hj1, hj2⟩ := ha j (List.mem_cons_of_mem i hj)
        have hji : j ∉ [i] := by
          rw [List.mem_singleton]
          rintro rfl
          exact hni hj
        rw [hone.keep j hji hj2]
        exact ⟨hj1, hj2⟩)
      refine ⟨r', ?_⟩
      unfold releaseAll
      rw [List.foldlM_cons, bind_eq_ok]
      exact ⟨_, h1, h2⟩

end ReleaseAll

/-! ## Before the first release -/

/--
The table as long as nothing has been released: the rest of free RAM in slot 0, the
blocks handed out in slots `1` to `k`, and nothing beyond.
-/
structure Fresh (k : Nat) (t : Regions) : Prop where
  rest : (t 0).state = .free
  taken : ∀ i, 1 ≤ i → i ≤ k → (t i).state = .allocated
  beyond : ∀ i, k < i → i < maxRegions → (t i).state = .unused

theorem fresh_init (L : Layout) (r : Ram) : Fresh 0 (initRegions L r).regions where
  rest := by simp [initRegions]
  taken := by intro i h1 h2; omega
  beyond := by
    intro i h1 h2
    have h0 : i ≠ 0 := by omega
    simp [initRegions, h0, h2, Region.cleared]

theorem Fresh.free_eq {k i : Nat} {t : Regions} (h : Fresh k t) (hi : Free t i) : i = 0 := by
  by_contra hne
  rcases Nat.lt_or_ge k i with hk | hk
  · have := h.beyond i hk hi.1
    rw [hi.2] at this; cases this
  · have := h.taken i (by omega) hk
    rw [hi.2] at this; cases this

/-- An allocation that slot 0 has room for takes the next slot and the front of slot 0. -/
theorem alloc_fresh {L : Layout} {r : Ram} {k numPages : Nat} (hp : Partition L r.regions)
    (h : Fresh k r.regions) (hk : k + 1 < maxRegions)
    (hsz : u32 (numPages * pageSize) < (r.regions 0).size) :
    ∃ r', allocRegion r numPages = .ok (k + 1, r') ∧ Fresh (k + 1) r'.regions
      ∧ r'.regions = takeFront r.regions 0 (k + 1) (u32 (numPages * pageSize))
      ∧ (r'.regions 0).size = (r.regions 0).size - u32 (numPages * pageSize)
      ∧ (r'.regions (k + 1)).start = (r.regions 0).start
      ∧ stopOf r'.regions (k + 1) = (r'.regions 0).start := by
  have h0 : 0 < maxRegions := by decide
  have hf : findSuitableFreeRegion r.regions (u32 (numPages * pageSize)) = some 0 := by
    rw [findSuitableFreeRegion, List.find?_range_eq_some]
    refine ⟨by simp [h.rest]; omega, List.mem_range.mpr h0, fun j hj => ?_⟩
    omega
  have hn : findUnusedRegionSlot r.regions = some (k + 1) := by
    rw [findUnusedRegionSlot, List.find?_range_eq_some]
    refine ⟨by simpa using h.beyond (k + 1) (by omega) hk, List.mem_range.mpr hk, fun j hj => ?_⟩
    by_cases hj0 : j = 0
    · subst hj0; simp [h.rest]
    · simp [h.taken j (by omega) (by omega)]
  have h0u : InUse r.regions 0 := ⟨h0, by rw [h.rest]; simp⟩
  have hnew : takeFront r.regions 0 (k + 1) (u32 (numPages * pageSize)) (k + 1)
      = ⟨(r.regions 0).start, u32 (numPages * pageSize), .allocated⟩ := takeFront_new (by omega)
  have hsrc := takeFront_source (n := k + 1) (by omega) hsz.le (hp.stop_lt h0u)
  rw [if_neg (by omega)] at hsrc
  have hres : allocRegion r numPages = .ok (k + 1, { r with
      regions := takeFront r.regions 0 (k + 1) (u32 (numPages * pageSize))
      mem := fill r.mem (r.regions 0).start 0 (u32 (numPages * pageSize)) }) := by
    unfold allocRegion; simp only [hf, hn]
  refine ⟨_, hres, ?_, rfl, ?_, ?_, ?_⟩
  · refine ⟨?_, ?_, ?_⟩
    · dsimp only; rw [hsrc]; exact h.rest
    · intro i h1 h2
      dsimp only
      by_cases hi : i = k + 1
      · rw [hi, hnew]
      · rw [takeFront_other (by omega) hi]
        exact h.taken i h1 (by omega)
    · intro i h1 h2
      dsimp only
      rw [takeFront_other (by omega) (by omega)]
      exact h.beyond i (by omega) h2
  · dsimp only; rw [hsrc]
  · dsimp only; rw [hnew]
  · unfold stopOf; dsimp only; rw [hsrc, hnew]

/--
Two one-page blocks taken right after `init_regions`: they are in slots 1 and 2, side
by side in front of the rest of free RAM in slot 0.
-/
theorem two_blocks :
    ∃ r₀ r₁ r₂, AllocInit sampleLayout r₀ ∧ AllocStep r₀ (.alloc 1 1) r₁
      ∧ AllocStep r₁ (.alloc 1 2) r₂ ∧ Partition sampleLayout r₂.regions ∧ Fresh 2 r₂.regions
      ∧ stopOf r₂.regions 1 = startOf r₂.regions 2
      ∧ stopOf r₂.regions 2 = startOf r₂.regions 0 := by
  have hreq : u32 (1 * pageSize) = 4096 := by decide
  obtain ⟨r₀, hinit, hp₀, hf₀, hsz₀⟩ : ∃ r₀, AllocInit sampleLayout r₀
      ∧ Partition sampleLayout r₀.regions ∧ Fresh 0 r₀.regions
      ∧ (r₀.regions 0).size = freeRamSize :=
    ⟨initRegions sampleLayout ⟨fun _ => .cleared, fun _ => 0, []⟩, ⟨_, rfl⟩, partition_init _ _,
      fresh_init _ _, by simp only [initRegions, if_true]; decide⟩
  obtain ⟨r₁, ha₁, hf₁, _, hsz₁, _, hstop₁⟩ := alloc_fresh hp₀ hf₀ (by decide)
    (show u32 (1 * pageSize) < (r₀.regions 0).size by rw [hreq, hsz₀]; decide)
  have hp₁ := partition_alloc hp₀ (by decide) ha₁
  obtain ⟨r₂, ha₂, hf₂, ht₂, _, hstart₂, hstop₂⟩ := alloc_fresh hp₁ hf₁ (by decide)
    (show u32 (1 * pageSize) < (r₁.regions 0).size by rw [hsz₁, hreq, hsz₀]; decide)
  have hkept : r₂.regions 1 = r₁.regions 1 := by
    rw [ht₂]; exact takeFront_other (by omega) (by omega)
  refine ⟨r₀, r₁, r₂, hinit, .alloc (allocPages_ok.mpr ⟨ha₁, rfl⟩),
    .alloc (allocPages_ok.mpr ⟨ha₂, rfl⟩), partition_alloc hp₁ (by decide) ha₂, hf₂, ?_, hstop₂⟩
  unfold startOf stopOf
  rw [hkept, hstart₂, ← hstop₁]; rfl

/-! ## The partition over whole runs -/

/-- The size asked for is at least a page and does not overflow 32 bits. -/
def inRange : AllocCall → Prop
  | .alloc numPages _ => 1 ≤ numPages ∧ numPages < 2 ^ 20
  | .release _ => True

/-- A run of calls that returned, every allocation asking for a size in range. -/
abbrev AllocRun (L : Layout) : List AllocCall → Ram → Prop :=
  Run (AllocInit L) fun r c r' => AllocStep r c r' ∧ inRange c

theorem required_inRange {numPages : Nat} (h : 1 ≤ numPages ∧ numPages < 2 ^ 20) :
    u32 (numPages * pageSize) ≠ 0 := by
  unfold u32 pageSize; omega

theorem partition_step {L : Layout} {r r' : Ram} {c : AllocCall} (h : Partition L r.regions)
    (hs : AllocStep r c r' ∧ inRange c) : Partition L r'.regions := by
  obtain ⟨hs, hc⟩ := hs
  cases hs with
  | alloc ha => exact partition_alloc h (required_inRange hc) (allocPages_ok.mp ha).1
  | release hr => exact partition_release h hr

theorem partition_run {L : Layout} {tr : List AllocCall} {r : Ram} (h : AllocRun L tr r) :
    Partition L r.regions :=
  h.invariant (P := fun r => Partition L r.regions)
    (by rintro s ⟨r₀, rfl⟩; exact partition_init L r₀)
    (fun _ _ _ hP hs => partition_step hP hs)

/--
**The region table is a partition of free RAM, and handles are stable.** After any
sequence of calls that returned: the entries in use are non-empty, page aligned and
pairwise disjoint, they cover exactly `[__free_ram, __free_ram_end)`, the other
entries are cleared, and no further call changes an allocated entry unless it is the
call that releases it.
-/
theorem regions_partition_freeRam {L : Layout} {tr : List AllocCall} {r : Ram}
    (h : AllocRun L tr r) :
    (∀ i, i < maxRegions → (r.regions i).state ≠ .unused →
        0 < (r.regions i).size ∧ (r.regions i).start % pageSize = 0
          ∧ (r.regions i).size % pageSize = 0)
      ∧ (∀ i j, i < maxRegions → j < maxRegions → i ≠ j →
          (r.regions i).state ≠ .unused → (r.regions j).state ≠ .unused →
          ∀ a, ¬ ((r.regions i).start ≤ a ∧ a < (r.regions i).start + (r.regions i).size
            ∧ (r.regions j).start ≤ a ∧ a < (r.regions j).start + (r.regions j).size))
      ∧ (∀ a, (∃ i, i < maxRegions ∧ (r.regions i).state ≠ .unused
            ∧ (r.regions i).start ≤ a ∧ a < (r.regions i).start + (r.regions i).size)
          ↔ L.freeRam ≤ a ∧ a < L.freeRamEnd)
      ∧ (∀ i, i < maxRegions → (r.regions i).state = .unused →
          (r.regions i).start = 0 ∧ (r.regions i).size = 0)
      ∧ (∀ c r', AllocStep r c r' → inRange c → ∀ i, i < maxRegions →
          (r.regions i).state = .allocated → c ≠ .release (i : Int) →
          r'.regions i = r.regions i) := by
  have hp := partition_run h
  refine ⟨?_, ?_, ?_, ?_, ?_⟩
  · intro i hi hs
    exact ⟨hp.size_pos ⟨hi, hs⟩, hp.aligned i ⟨hi, hs⟩⟩
  · rintro i j hi hj hij hsi hsj a ⟨h1, h2, h3, h4⟩
    exact hij (hp.tiles.unique ⟨hi, hsi⟩ ⟨hj, hsj⟩ ⟨h1, h2⟩ ⟨h3, h4⟩)
  · intro a
    constructor
    · rintro ⟨i, hi, hs, h1, h2⟩
      obtain ⟨b1, b2⟩ := hp.tiles.bounds i ⟨hi, hs⟩
      exact ⟨b1.trans h1, h2.trans_le b2⟩
    · rintro ⟨h1, h2⟩
      obtain ⟨i, ⟨hi, hs⟩, h3, h4⟩ := hp.tiles.cover a h1 h2
      exact ⟨i, hi, hs, h3, h4⟩
  · intro i hi hs
    rw [hp.unused i hi hs]
    exact ⟨rfl, rfl⟩
  · intro c r' hs _ i hi ha hne
    cases hs with
    | alloc hal => exact (alloc_keeps (allocPages_ok.mp hal).1 ha).2
    | release hr =>
        obtain ⟨j, rfl, _⟩ := releasePages_ok hr
        have hij : i ≠ j := fun e => hne (by rw [e])
        exact (release_keeps hp hr).2 i hij (Or.inl ha)

/-- Two blocks are taken and the first one is given back: the second is still where it was. -/
theorem regions_partition_freeRam_release :
    ∃ r₂ r, AllocRun sampleLayout [.alloc 1 1, .alloc 1 2] r₂
      ∧ AllocRun sampleLayout [.alloc 1 1, .alloc 1 2, .release 1] r
      ∧ (r₂.regions 2).state = .allocated ∧ r.regions 2 = r₂.regions 2
      ∧ ∀ a, (∃ i, i < maxRegions ∧ (r.regions i).state ≠ .unused
          ∧ (r.regions i).start ≤ a ∧ a < (r.regions i).start + (r.regions i).size)
        ↔ sampleLayout.freeRam ≤ a ∧ a < sampleLayout.freeRamEnd := by
  obtain ⟨r₀, r₁, r₂, h₀, h₁, h₂, _, hf, _, _⟩ := two_blocks
  have hrun : AllocRun sampleLayout [.alloc 1 1, .alloc 1 2] r₂ :=
    ((Run.start h₀).snoc ⟨h₁, by simp [inRange]⟩).snoc ⟨h₂, by simp [inRange]⟩
  have htaken : (r₂.regions 2).state = .allocated := hf.taken 2 (by omega) (by omega)
  have hrel := AllocStep.release (releasePages_of_allocated (r := r₂) (i := 1) (by decide)
    (hf.taken 1 (by omega) (by omega)))
  have hrun' := hrun.snoc ⟨hrel, trivial⟩
  have hkept := (regions_partition_freeRam hrun).2.2.2.2 _ _ hrel trivial 2 (by decide) htaken
    (by simp)
  exact ⟨r₂, _, hrun, hrun', htaken, hkept, (regions_partition_freeRam hrun').2.2.1⟩

end Os1000.Proof
