import Os1000.Alloc.Coalesce
import Mathlib.Data.Finset.Card
import Mathlib.Order.Interval.Finset.Nat

/-!
# When allocation succeeds

`alloc_pages` panics when no free block is large enough or no table entry is unused.
`Room c t` says that neither happens for `c` allocations of one page in a row. It
follows from what can be read off the table: enough unused entries, and a free block
larger than the pages asked for.
-/

namespace Os1000.Proof

open Os1000 Lib

/-- `c` allocations of one page in a row succeed from table `t`. -/
def Room : Nat → Regions → Prop
  | 0, _ => True
  | c + 1, t => ∃ f n, findSuitableFreeRegion t pageSize = some f
      ∧ findUnusedRegionSlot t = some n ∧ Room c (takeFront t f n pageSize)

theorem Room.pred : ∀ {c : Nat} {t : Regions}, Room (c + 1) t → Room c t
  | 0, _, _ => trivial
  | _ + 1, _, ⟨f, n, hf, hn, h⟩ => ⟨f, n, hf, hn, h.pred⟩

theorem Room.le {c d : Nat} {t : Regions} (h : Room c t) (hd : d ≤ c) : Room d t := by
  induction c with
  | zero =>
      obtain rfl : d = 0 := by omega
      exact h
  | succ c ih =>
      by_cases e : d = c + 1
      · rw [e]; exact h
      · exact ih h.pred (by omega)

theorem onePage : u32 (1 * pageSize) = pageSize := by decide

/-- What `alloc_pages` needs, and what it leaves. -/
theorem allocPages_of_find {r : Ram} {numPages f n : Nat}
    (hf : findSuitableFreeRegion r.regions (u32 (numPages * pageSize)) = some f)
    (hn : findUnusedRegionSlot r.regions = some n) :
    ∃ pa r', allocPages r numPages = .ok (pa, n, r')
      ∧ r'.regions = takeFront r.regions f n (u32 (numPages * pageSize)) := by
  have ha : allocRegion r numPages = .ok (n, { r with
      regions := takeFront r.regions f n (u32 (numPages * pageSize))
      mem := fill r.mem (r.regions f).start 0 (u32 (numPages * pageSize)) }) := by
    unfold allocRegion
    simp only [hf, hn]
  exact ⟨_, _, allocPages_ok.mpr ⟨ha, rfl⟩, rfl⟩

theorem Room.alloc {c : Nat} {r : Ram} (h : Room (c + 1) r.regions) :
    ∃ pa idx r', allocPages r 1 = .ok (pa, idx, r') ∧ Room c r'.regions := by
  obtain ⟨f, n, hf, hn, hc⟩ := h
  obtain ⟨pa, r', ha, hr⟩ := allocPages_of_find (r := r) (by rw [onePage]; exact hf) hn
  refine ⟨pa, n, r', ha, ?_⟩
  rw [hr, onePage]
  exact hc

/-- The unused entries of the table. -/
def unusedSlots (t : Regions) : Finset Nat :=
  (Finset.range maxRegions).filter fun i => (t i).state = .unused

theorem mem_unusedSlots {t : Regions} {i : Nat} :
    i ∈ unusedSlots t ↔ i < maxRegions ∧ (t i).state = .unused := by
  unfold unusedSlots
  rw [Finset.mem_filter, Finset.mem_range]

theorem findUnusedRegionSlot_of_card {t : Regions} (h : 0 < (unusedSlots t).card) :
    ∃ n, findUnusedRegionSlot t = some n := by
  obtain ⟨i, hi⟩ := Finset.card_pos.mp h
  obtain ⟨h1, h2⟩ := mem_unusedSlots.mp hi
  cases hn : findUnusedRegionSlot t with
  | some n => exact ⟨n, rfl⟩
  | none =>
      unfold findUnusedRegionSlot at hn
      have := List.find?_eq_none.mp hn i (List.mem_range.mpr h1)
      simp [h2] at this

theorem findSuitableFreeRegion_of_free {t : Regions} {req i : Nat} (hi : i < maxRegions)
    (hf : (t i).state = .free) (hs : req ≤ (t i).size) :
    ∃ f, findSuitableFreeRegion t req = some f := by
  cases hn : findSuitableFreeRegion t req with
  | some f => exact ⟨f, rfl⟩
  | none =>
      unfold findSuitableFreeRegion at hn
      have := List.find?_eq_none.mp hn i (List.mem_range.mpr hi)
      simp [hf] at this
      omega

/-- Taking a block uses up one entry at most. -/
theorem card_unusedSlots_takeFront {t : Regions} {f : Nat} (hf : (t f).state = .free)
    (n req : Nat) :
    (unusedSlots t).card ≤ (unusedSlots (takeFront t f n req)).card + 1 := by
  have hsub : (unusedSlots t).erase n ⊆ unusedSlots (takeFront t f n req) := by
    intro i hi
    obtain ⟨hne, hi⟩ := Finset.mem_erase.mp hi
    obtain ⟨h1, h2⟩ := mem_unusedSlots.mp hi
    have hif : i ≠ f := by
      rintro rfl
      rw [hf] at h2
      cases h2
    rw [mem_unusedSlots, takeFront_other hif hne]
    exact ⟨h1, h2⟩
  have h1 := Finset.card_le_card hsub
  have h2 := Finset.pred_card_le_card_erase (s := unusedSlots t) (a := n)
  omega

/-- A block other than the source stays, and the source loses the size that was taken. -/
theorem takeFront_free {t : Regions} {f n req i : Nat} (hfn : f ≠ n) (hin : i ≠ n)
    (hi : (t i).state = .free) (hs : req < (t i).size) :
    (takeFront t f n req i).state = .free ∧ (t i).size - req ≤ (takeFront t f n req i).size := by
  by_cases he : i = f
  · subst he
    unfold takeFront
    simp only [Function.update_self, Function.update_of_ne hfn]
    rw [if_neg (by omega), Function.update_self]
    exact ⟨hi, le_refl _⟩
  · rw [takeFront_other he hin]
    exact ⟨hi, Nat.sub_le _ _⟩

/-- **Enough unused entries and one block that is larger than all that is asked for.** -/
theorem room_of_card {c : Nat} : ∀ {t : Regions} {i : Nat}, i < maxRegions →
    (t i).state = .free → c * pageSize < (t i).size → c ≤ (unusedSlots t).card → Room c t := by
  -- the block given need not be the one that is taken from, but it is still large enough after
  induction c with
  | zero => intros; trivial
  | succ c ih =>
      intro t i hi hfree hsize hcard
      have hpage : pageSize < (t i).size := by
        have : pageSize ≤ (c + 1) * pageSize := Nat.le_mul_of_pos_left _ (by omega)
        omega
      obtain ⟨n, hn⟩ := findUnusedRegionSlot_of_card (t := t) (by omega)
      obtain ⟨f, hf⟩ := findSuitableFreeRegion_of_free hi hfree hpage.le
      obtain ⟨_, h2, _⟩ := findSuitableFreeRegion_some hf
      obtain ⟨_, h4, _⟩ := findUnusedRegionSlot_some hn
      have hfn : f ≠ n := fun e => by rw [e, h4] at h2; cases h2
      have hin : i ≠ n := fun e => by rw [e, h4] at hfree; cases hfree
      obtain ⟨g1, g2⟩ := takeFront_free hfn hin hfree hpage
      have hc := card_unusedSlots_takeFront h2 n pageSize
      refine ⟨f, n, hf, hn, ih hi g1 ?_ (by omega)⟩
      rw [Nat.add_mul, Nat.one_mul] at hsize
      omega

/-! ## Before the first release -/

/--
Nothing has been released, `n` blocks of eight pages at most have been handed out, and
slot 0 has the rest.
-/
structure Plenty (n : Nat) (t : Regions) : Prop extends Fresh n t where
  size : freeRamSize ≤ (t 0).size + n * (8 * pageSize)

theorem plenty_init (L : Layout) (r : Ram) : Plenty 0 (initRegions L r).regions := by
  refine ⟨fresh_init L r, ?_⟩
  unfold initRegions
  dsimp only
  rw [if_pos rfl]
  have he : L.freeRamEnd - L.freeRam = freeRamSize := Nat.add_sub_cancel_left ..
  rw [he]
  show freeRamSize ≤ u32 freeRamSize + 0 * (8 * pageSize)
  decide

theorem Plenty.large {n : Nat} {t : Regions} (h : Plenty n t) (hn : n < maxRegions) :
    0x3f8000 < (t 0).size := by
  have := h.size
  unfold freeRamSize pageSize at this
  unfold maxRegions at hn
  omega

/-- The next allocation takes the next slot. -/
theorem Plenty.alloc {L : Layout} {r : Ram} {n numPages : Nat} (hp : Partition L r.regions)
    (h : Plenty n r.regions) (hn : n + 1 < maxRegions) (hle : numPages ≤ 8) :
    ∃ r', allocPages r numPages = .ok ((r.regions 0).start, n + 1, r') ∧ Plenty (n + 1) r'.regions
      ∧ stopOf r'.regions (n + 1) = (r'.regions 0).start := by
  have hl := h.large (by omega)
  have hu : u32 (numPages * pageSize) = numPages * 4096 := by
    unfold pageSize
    exact u32_of_lt (by omega)
  have hsz : u32 (numPages * pageSize) < (r.regions 0).size := by omega
  obtain ⟨r', ha, hf, _, hs, hst, hstop⟩ := alloc_fresh hp h.toFresh hn hsz
  refine ⟨r', allocPages_ok.mpr ⟨ha, hst.symm⟩, ⟨hf, ?_⟩, hstop⟩
  have := h.size
  rw [hs, hu]
  unfold pageSize at this ⊢
  omega

/-- An allocation that returned took the next slot. -/
theorem Plenty.alloc_ok {L : Layout} {r r' : Ram} {n numPages pa idx : Nat}
    (hp : Partition L r.regions) (h : Plenty n r.regions) (hle : numPages ≤ 8)
    (ha : allocPages r numPages = .ok (pa, idx, r')) :
    n + 1 < maxRegions ∧ idx = n + 1 ∧ Plenty (n + 1) r'.regions
      ∧ stopOf r'.regions (n + 1) = (r'.regions 0).start := by
  have hs := allocPages_spec ha
  have hlt : n + 1 < maxRegions := by
    by_contra hge
    have h1 := hs.lt
    have h2 := hs.wasUnused
    by_cases h0 : idx = 0
    · rw [h0, h.rest] at h2; cases h2
    · rw [h.taken idx (by omega) (by omega)] at h2; cases h2
  obtain ⟨r'', ha', hpl, hstop⟩ := h.alloc hp hlt hle
  rw [ha'] at ha
  injection ha with ha
  injection ha with _ ha
  injection ha with h1 h2
  subst h2
  exact ⟨hlt, h1.symm, hpl, hstop⟩

theorem Plenty.room {n : Nat} {t : Regions} (h : Plenty n t) (hn : n < maxRegions) :
    Room (maxRegions - 1 - n) t := by
  have hl := h.large hn
  refine room_of_card (i := 0) (by decide) h.rest ?_ ?_
  · unfold maxRegions pageSize
    omega
  · have hsub : (Finset.Ico (n + 1) maxRegions) ⊆ unusedSlots t := by
      intro i hi
      obtain ⟨h1, h2⟩ := Finset.mem_Ico.mp hi
      exact mem_unusedSlots.mpr ⟨h2, h.beyond i h1 h2⟩
    have := Finset.card_le_card hsub
    rw [Nat.card_Ico] at this
    omega

/--
The last block handed out lies in front of slot 0. When it is released it swallows slot 0: the
rest of free RAM moves to its slot, and slot 0 becomes an unused entry.
-/
theorem Plenty.release_last {L : Layout} {n : Nat} {t : Regions} (hp : Partition L t)
    (h : Plenty n t) (h1 : 1 ≤ n) (hn : n < maxRegions) (hstop : stopOf t n = (t 0).start) :
    mergeFreeRegions (markFree t n) = swallow (markFree t n) n 0 := by
  have hpm := partition_markFree hp (h.taken n h1 (le_refl n))
  have hfree : ∀ i, Free (markFree t n) i → i = n ∨ i = 0 := by
    intro i hi
    rcases (free_markFree hn).mp hi with e | e
    · exact Or.inl e
    · exact Or.inr (h.toFresh.free_eq e)
  have hf0 : Free (markFree t n) 0 := (free_markFree hn).mpr (Or.inr ⟨by decide, h.rest⟩)
  have hfn : Free (markFree t n) n := (free_markFree hn).mpr (Or.inl rfl)
  have hpos : ∀ i, Free (markFree t n) i → startOf t i < stopOf t i := by
    intro i hi
    have := hpm.tiles.nonempty i hi.inUse
    rwa [startOf_markFree, stopOf_markFree] at this
  have hc : Coalesced t := fun i j ht =>
    ht.ne hp ((h.toFresh.free_eq ht.1).trans (h.toFresh.free_eq ht.2.1).symm)
  have hR : Touch (markFree t n) n 0 := by
    refine ⟨hfn, hf0, ?_⟩
    rw [stopOf_markFree, startOf_markFree]
    exact hstop
  refine (merge_right_only hpm hc hn hR ?_).1
  intro l hl
  have he := hl.2.2
  rw [stopOf_markFree, startOf_markFree] at he
  have h2 := hpos n hfn
  have h3 := hpos 0 hf0
  have h4 : stopOf t n = startOf t 0 := hstop
  rcases hfree l hl.1 with rfl | rfl
  · omega
  · omega

theorem Plenty.room_released {n c : Nat} {t : Regions} (h : Plenty n t) (h1 : 1 ≤ n)
    (hn : n < maxRegions) (hc : n + c < maxRegions) : Room c (swallow (markFree t n) n 0) := by
  have hne : n ≠ 0 := by omega
  have hl := h.large hn
  refine room_of_card (i := n) hn ?_ ?_ ?_
  · rw [swallow_self hne, markFree_self]
  · rw [swallow_self hne, markFree_other (Ne.symm hne)]
    dsimp only
    unfold maxRegions at hc
    unfold pageSize
    omega
  · have hsub : (Finset.Ico (n + 1) maxRegions) ⊆ unusedSlots (swallow (markFree t n) n 0) := by
      intro i hi
      obtain ⟨g1, g2⟩ := Finset.mem_Ico.mp hi
      rw [mem_unusedSlots, swallow_other (by omega) (by omega), markFree_other (by omega)]
      exact ⟨g2, h.beyond i (by omega) g2⟩
    have := Finset.card_le_card hsub
    rw [Nat.card_Ico] at this
    omega

/-- An unused slot 0 is the first to be taken. -/
theorem allocPages_zero {r r' : Ram} {numPages pa idx : Nat} (h0 : (r.regions 0).state = .unused)
    (ha : allocPages r numPages = .ok (pa, idx, r')) : idx = 0 := by
  obtain ⟨f, _, hn, _⟩ := allocRegion_ok (allocPages_ok.mp ha).1
  by_contra hne
  exact (findUnusedRegionSlot_some hn).2.2 0 (by omega) h0

end Os1000.Proof
