import Os1000.Alloc.Room

/-!
# What a caller of the allocator gets

The partition of free RAM needs every request to be at least a page and below 4 GiB,
because the size is computed modulo 2^32 and a request for a multiple of 2^20 pages is
served with an empty block. Less survives when requests are arbitrary: the blocks lie
in free RAM and no two of them share a byte. That is enough for the two questions a
caller has.

* **Is the block mine?** It is, and it is as large as was asked for exactly when the
  size did not overflow.
* **Can I have the same again after giving it back?** A large enough block is there, the
  merging pass loses no byte. But `alloc_region` also wants an unused entry, for an exact
  fit too, and there is one only if there was one before or the pass could merge.
-/

namespace Os1000.Proof

open Os1000 Lib

/-- A run of calls that returned, whatever sizes were asked for. -/
abbrev AnyAllocRun (L : Layout) : List AllocCall → Ram → Prop := Run (AllocInit L) AllocStep

/-- Byte `a` lies in the block of entry `i`. -/
def HoldsByte (t : Regions) (i a : Nat) : Prop := InUse t i ∧ startOf t i ≤ a ∧ a < stopOf t i

/-- The blocks lie in free RAM and share no byte. They may be empty. -/
structure Blocks (L : Layout) (t : Regions) : Prop where
  /-- No block leaves free RAM. -/
  bounds : ∀ i, InUse t i → L.freeRam ≤ startOf t i ∧ stopOf t i ≤ L.freeRamEnd
  /-- No byte is in two blocks. -/
  apart : ∀ i j a, HoldsByte t i a → HoldsByte t j a → i = j

section Blocks

variable {L : Layout} {t : Regions} {i j : Nat}

theorem Blocks.stop_lt (h : Blocks L t) (hi : InUse t i) :
    (t i).start + (t i).size < 2 ^ 32 :=
  Nat.lt_of_le_of_lt (h.bounds i hi).2 L.end_lt

theorem Partition.blocks (h : Partition L t) : Blocks L t := by
  refine ⟨h.tiles.bounds, fun i j a hi hj => ?_⟩
  by_contra hne
  have := h.tiles.apart i j hi.1 hj.1 hne
  have h1 := hi.2
  have h2 := hj.2
  omega

/-! ## Allocation -/

theorem blocks_takeFront {f n req : Nat} (h : Blocks L t) (hf : Free t f) (hn : n < maxRegions)
    (hnu : (t n).state = .unused) (hreq : req ≤ (t f).size) : Blocks L (takeFront t f n req) := by
  have hfn : f ≠ n := by
    rintro rfl
    have := hf.2
    rw [hnu] at this
    cases this
  have hnew : takeFront t f n req n = ⟨(t f).start, req, .allocated⟩ := takeFront_new hfn
  have hsrc := takeFront_source (t := t) hfn hreq (h.stop_lt hf.inUse)
  have hbf := h.bounds f hf.inUse
  unfold stopOf startOf at hbf
  -- what is left of the source, if anything is
  have hrest : InUse (takeFront t f n req) f →
      takeFront t f n req f = ⟨(t f).start + req, (t f).size - req, (t f).state⟩ := by
    intro hu
    rw [hsrc]
    split
    · rename_i he
      exact absurd (by rw [hsrc, if_pos he]; rfl) hu.2
    · rfl
  have hother : ∀ k, k ≠ n → k ≠ f → ∀ a, HoldsByte (takeFront t f n req) k a → HoldsByte t k a := by
    intro k h1 h2 a hk
    unfold HoldsByte InUse startOf stopOf at *
    rwa [takeFront_other h2 h1] at hk
  have hfront : ∀ a, HoldsByte (takeFront t f n req) n a →
      HoldsByte t f a ∧ a < (t f).start + req := by
    rintro a ⟨_, h1, h2⟩
    unfold startOf at h1
    unfold stopOf at h2
    rw [hnew] at h1 h2
    dsimp only at h1 h2
    exact ⟨⟨hf.inUse, h1, by unfold stopOf; omega⟩, h2⟩
  have hback : ∀ a, HoldsByte (takeFront t f n req) f a →
      HoldsByte t f a ∧ (t f).start + req ≤ a := by
    rintro a ⟨hu, h1, h2⟩
    unfold startOf at h1
    unfold stopOf at h2
    rw [hrest hu] at h1 h2
    dsimp only at h1 h2
    exact ⟨⟨hf.inUse, by unfold startOf; omega, by unfold stopOf; omega⟩, h1⟩
  refine ⟨?_, ?_⟩
  · intro k hk
    by_cases hkn : k = n
    · subst hkn
      unfold startOf stopOf
      rw [hnew]
      dsimp only
      omega
    · by_cases hkf : k = f
      · subst hkf
        unfold startOf stopOf
        rw [hrest hk]
        dsimp only
        omega
      · unfold InUse startOf stopOf at *
        rw [takeFront_other hkf hkn] at hk ⊢
        exact h.bounds k hk
  · intro k l a hk hl
    by_cases hkn : k = n
    · by_cases hln : l = n
      · rw [hkn, hln]
      · rw [hkn] at hk
        obtain ⟨g1, g2⟩ := hfront a hk
        by_cases hlf : l = f
        · rw [hlf] at hl
          have := (hback a hl).2
          omega
        · exact absurd (h.apart f l a g1 (hother l hln hlf a hl)).symm hlf
    · by_cases hkf : k = f
      · rw [hkf] at hk ⊢
        obtain ⟨g1, g2⟩ := hback a hk
        by_cases hln : l = n
        · rw [hln] at hl
          have := (hfront a hl).2
          omega
        · by_cases hlf : l = f
          · exact hlf.symm
          · exact h.apart f l a g1 (hother l hln hlf a hl)
      · have g := hother k hkn hkf a hk
        by_cases hln : l = n
        · rw [hln] at hl
          exact absurd (h.apart k f a g (hfront a hl).1) hkf
        · by_cases hlf : l = f
          · rw [hlf] at hl ⊢
            exact h.apart k f a g (hback a hl).1
          · exact h.apart k l a g (hother l hln hlf a hl)

theorem blocks_alloc {r r' : Ram} {numPages paddr idx : Nat} (h : Blocks L r.regions)
    (ha : allocPages r numPages = .ok (paddr, idx, r')) : Blocks L r'.regions := by
  obtain ⟨f, hf, hn, ht, _, _⟩ := allocRegion_ok (allocPages_ok.mp ha).1
  obtain ⟨h1, h2, h3⟩ := findSuitableFreeRegion_some hf
  obtain ⟨h4, h5, _⟩ := findUnusedRegionSlot_some hn
  rw [ht]
  exact blocks_takeFront h ⟨h1, h2⟩ h4 h5 h3

/-! ## Merging -/

/-- The inner loop body swallows a block that touches, and does nothing otherwise. -/
theorem Blocks.mergeInto_cases (h : Blocks L t) (hi : Free t i) (hj : j < maxRegions) :
    (i ≠ j ∧ Touch t i j ∧ mergeInto i t j = swallow t i j)
      ∨ (¬ (i ≠ j ∧ Touch t i j) ∧ mergeInto i t j = t) := by
  have hu := u32_of_lt (h.stop_lt hi.inUse)
  by_cases ht : i ≠ j ∧ Touch t i j
  · refine Or.inl ⟨ht.1, ht.2, ?_⟩
    have h2 := h.stop_lt ht.2.2.1.inUse
    have h3 : (t i).start + (t i).size = (t j).start := ht.2.2.2
    unfold mergeInto swallow
    rw [if_neg (by simp [ht.1, ht.2.2.1.2]), if_pos (by rw [hu]; exact h3), u32_of_lt (by omega)]
  · refine Or.inr ⟨ht, ?_⟩
    unfold mergeInto
    split
    · rfl
    · rename_i hc
      rw [not_or] at hc
      have hfj : Free t j := ⟨hj, by simpa using hc.2⟩
      rw [if_neg]
      rw [hu]
      exact fun e => ht ⟨hc.1, hi, hfj, e⟩

/-- A swallowed byte was in one of the two blocks. -/
theorem holdsByte_swallow {k a : Nat} (hij : i ≠ j) (ht : Touch t i j)
    (hk : HoldsByte (swallow t i j) k a) : k ≠ j ∧ (HoldsByte t k a ∨ k = i ∧ HoldsByte t j a) := by
  have hkj : k ≠ j := by
    rintro rfl
    exact hk.1.2 (by rw [swallow_gone]; rfl)
  refine ⟨hkj, ?_⟩
  by_cases hki : k = i
  · subst hki
    have hs := hk.2.2
    rw [swallow_stop ht hij] at hs
    have hb : startOf t k ≤ a := by
      have := hk.2.1
      unfold startOf at this ⊢
      rwa [swallow_self hij] at this
    by_cases ha : a < stopOf t k
    · exact Or.inl ⟨ht.1.inUse, hb, ha⟩
    · refine Or.inr ⟨rfl, ht.2.1.inUse, ?_, hs⟩
      rw [← ht.2.2]
      omega
  · left
    unfold HoldsByte InUse startOf stopOf at *
    rwa [swallow_other hki hkj] at hk

theorem blocks_swallow (h : Blocks L t) (hij : i ≠ j) (ht : Touch t i j) :
    Blocks L (swallow t i j) := by
  refine ⟨?_, ?_⟩
  · intro k hk
    have hkj : k ≠ j := by
      rintro rfl
      exact hk.2 (by rw [swallow_gone]; rfl)
    by_cases hki : k = i
    · subst hki
      rw [swallow_stop ht hij]
      refine ⟨?_, (h.bounds j ht.2.1.inUse).2⟩
      unfold startOf
      rw [swallow_self hij]
      exact (h.bounds k ht.1.inUse).1
    · unfold InUse startOf stopOf at *
      rw [swallow_other hki hkj] at hk ⊢
      exact h.bounds k hk
  · intro k l a hk hl
    obtain ⟨hkj, hk⟩ := holdsByte_swallow hij ht hk
    obtain ⟨hlj, hl⟩ := holdsByte_swallow hij ht hl
    rcases hk with hk | ⟨hki, hk⟩
    · rcases hl with hl | ⟨_, hl⟩
      · exact h.apart k l a hk hl
      · exact absurd (h.apart k j a hk hl) hkj
    · rcases hl with hl | ⟨hli, _⟩
      · exact absurd (h.apart l j a hl hk) hlj
      · rw [hki, hli]

/-- Some entry is unused. -/
def HasUnused (t : Regions) : Prop := ∃ k, k < maxRegions ∧ (t k).state = .unused

/-- There is a free block of `size` bytes or more. -/
def HasFree (size : Nat) (t : Regions) : Prop := ∃ k, Free t k ∧ size ≤ (t k).size

theorem hasUnused_swallow (hj : j < maxRegions) : HasUnused (swallow t i j) :=
  ⟨j, hj, by rw [swallow_gone]; rfl⟩

/-- The block that was large enough grew, was swallowed whole, or is as it was. -/
theorem hasFree_swallow {size : Nat} (hij : i ≠ j) (ht : Touch t i j) (h : HasFree size t) :
    HasFree size (swallow t i j) := by
  obtain ⟨k, hk, hs⟩ := h
  have hi : Free (swallow t i j) i := ⟨ht.1.1, by rw [swallow_self hij]; exact ht.1.2⟩
  by_cases hki : k = i
  · refine ⟨i, hi, ?_⟩
    rw [swallow_self hij]
    subst hki
    dsimp only
    omega
  · by_cases hkj : k = j
    · refine ⟨i, hi, ?_⟩
      rw [swallow_self hij]
      subst hkj
      dsimp only
      omega
    · refine ⟨k, ?_, ?_⟩
      · unfold Free
        rw [swallow_other hki hkj]
        exact hk
      · rw [swallow_other hki hkj]
        exact hs

/-- What merging does not lose on the way from table `t` to table `u`. -/
structure Merges (L : Layout) (t u : Regions) : Prop where
  blocks : Blocks L u
  /-- A free block large enough for a request is still there, perhaps as part of a larger one. -/
  free : ∀ size, HasFree size t → HasFree size u
  /-- Merging takes no entry into use. -/
  unused : HasUnused t → HasUnused u

theorem Merges.refl (h : Blocks L t) : Merges L t t := ⟨h, fun _ hs => hs, fun hu => hu⟩

theorem Merges.trans {u v : Regions} (h : Merges L t u) (h' : Merges L u v) : Merges L t v :=
  ⟨h'.blocks, fun size hs => h'.free size (h.free size hs), fun hu => h'.unused (h.unused hu)⟩

/-- One body of the inner loop: it merged, or `j` did not touch and nothing happened. -/
theorem mergeInto_merges (h : Blocks L t) (hi : Free t i) (hj : j < maxRegions) :
    Merges L t (mergeInto i t j) ∧ Free (mergeInto i t j) i
      ∧ (HasUnused (mergeInto i t j)
        ∨ (mergeInto i t j = t ∧ ¬ (i ≠ j ∧ Touch t i j))) := by
  rcases h.mergeInto_cases hi hj with ⟨hij, ht, he⟩ | ⟨hno, he⟩
  · rw [he]
    exact ⟨⟨blocks_swallow h hij ht, fun size hs => hasFree_swallow hij ht hs,
      fun _ => hasUnused_swallow hj⟩, ⟨hi.1, by rw [swallow_self hij]; exact hi.2⟩,
      Or.inl (hasUnused_swallow hj)⟩
  · rw [he]
    exact ⟨.refl h, hi, Or.inr ⟨rfl, hno⟩⟩

/-- One row: something was merged, or `i` touches nothing and nothing happened. -/
theorem mergeRow_merges (h : Blocks L t) (hi : i < maxRegions) :
    Merges L t (mergeRow t i)
      ∧ (HasUnused (mergeRow t i)
        ∨ (mergeRow t i = t ∧ ∀ j, j < maxRegions → ¬ (i ≠ j ∧ Touch t i j))) := by
  unfold mergeRow
  split
  · rename_i hs
    exact ⟨.refl h, Or.inr ⟨rfl, fun j _ ht => hs ht.2.1.2⟩⟩
  · rename_i hs
    have hfree : Free t i := ⟨hi, by simpa using hs⟩
    obtain ⟨h1, _, h2⟩ := loop_inv (f := mergeInto i) (s := t)
      (fun n u => Merges L t u ∧ Free u i
        ∧ (HasUnused u ∨ (u = t ∧ ∀ j, j < n → ¬ (i ≠ j ∧ Touch t i j)))) maxRegions
      ⟨.refl h, hfree, Or.inr ⟨rfl, fun j hj => absurd hj (Nat.not_lt_zero j)⟩⟩ (by
        intro n u hn ⟨g1, g2, g3⟩
        obtain ⟨k1, k2, k3⟩ := mergeInto_merges g1.blocks g2 hn
        refine ⟨g1.trans k1, k2, ?_⟩
        rcases g3 with hu | ⟨rfl, g3⟩
        · exact Or.inl (k1.unused hu)
        · refine k3.imp_right fun ⟨he, hno⟩ => ⟨he, fun j hj => ?_⟩
          rcases Nat.lt_succ_iff_lt_or_eq.mp hj with hj | rfl
          · exact g3 j hj
          · exact hno)
    exact ⟨h1, h2⟩

/--
**The merging pass** loses no free block and no unused entry, and it leaves an unused
entry whenever it found two blocks that touch.
-/
theorem mergeFreeRegions_merges (h : Blocks L t) :
    Merges L t (mergeFreeRegions t)
      ∧ (HasUnused (mergeFreeRegions t) ∨ ∀ i j, ¬ (i ≠ j ∧ Touch t i j)) := by
  obtain ⟨h1, h2⟩ := loop_inv (f := mergeRow) (s := t)
    (fun n u => Merges L t u
      ∧ (HasUnused u ∨ (u = t ∧ ∀ i j, i < n → j < maxRegions → ¬ (i ≠ j ∧ Touch t i j))))
    maxRegions
    ⟨.refl h, Or.inr ⟨rfl, fun i _ hi => absurd hi (Nat.not_lt_zero i)⟩⟩ (by
      intro n u hn ⟨g1, g2⟩
      obtain ⟨k1, k2⟩ := mergeRow_merges g1.blocks hn
      refine ⟨g1.trans k1, ?_⟩
      rcases g2 with hu | ⟨rfl, g2⟩
      · exact Or.inl (k1.unused hu)
      · refine k2.imp_right fun ⟨he, hno⟩ => ⟨he, fun i j hi hj => ?_⟩
        rcases Nat.lt_succ_iff_lt_or_eq.mp hi with hi | rfl
        · exact g2 i j hi hj
        · exact hno j hj)
  exact ⟨h1, h2.imp_right fun ⟨_, hno⟩ i j ht => hno i j ht.2.1.1 ht.2.2.1.1 ht⟩

/-- With no two blocks touching the pass does nothing. -/
theorem mergeFreeRegions_still (h : Blocks L t) (hno : ∀ i j, ¬ (i ≠ j ∧ Touch t i j)) :
    mergeFreeRegions t = t := by
  refine loop_inv (f := mergeRow) (fun _ u => u = t) maxRegions rfl ?_
  rintro i u hi rfl
  unfold mergeRow
  split
  · rfl
  · rename_i hs
    refine loop_inv (f := mergeInto i) (fun _ v => v = u) maxRegions rfl ?_
    rintro j v hj rfl
    rcases h.mergeInto_cases ⟨hi, by simpa using hs⟩ hj with ⟨hij, ht, _⟩ | ⟨_, he⟩
    · exact absurd ⟨hij, ht⟩ (hno i j)
    · exact he

/-! ## Whole runs -/

theorem blocks_markFree (h : Blocks L t) (ha : (t i).state = .allocated) :
    Blocks L (markFree t i) := by
  have huse : InUse (markFree t i) = InUse t := by
    funext k
    apply propext
    unfold InUse
    by_cases hk : k = i
    · subst hk
      simp [markFree_self, ha]
    · rw [markFree_other hk]
  refine ⟨?_, ?_⟩
  · rw [huse, startOf_markFree, stopOf_markFree]
    exact h.bounds
  · unfold HoldsByte
    rw [huse, startOf_markFree, stopOf_markFree]
    exact h.apart

theorem blocks_step {r r' : Ram} {c : AllocCall} (h : Blocks L r.regions)
    (hs : AllocStep r c r') : Blocks L r'.regions := by
  cases hs with
  | alloc ha => exact blocks_alloc h ha
  | release hr =>
      obtain ⟨i, _, _, ha, ht, _, _⟩ := releasePages_ok hr
      rw [ht]
      exact (mergeFreeRegions_merges (blocks_markFree h ha)).1.blocks

theorem blocks_run {tr : List AllocCall} {r : Ram} (h : AnyAllocRun L tr r) :
    Blocks L r.regions :=
  h.invariant (P := fun r => Blocks L r.regions)
    (by rintro s ⟨r₀, rfl⟩; exact (partition_init L r₀).blocks)
    (fun _ _ _ hP hs => blocks_step hP hs)

end Blocks

/-! ## The block that was asked for -/

/-- From `r` to `r'`, `numPages` pages at `a` have become the allocated block `idx`. -/
structure Delivered (r r' : Ram) (numPages a idx : Nat) : Prop where
  /-- They were inside one free block. -/
  wasFree : ∃ f, f < maxRegions ∧ (r.regions f).state = .free ∧ (r.regions f).start ≤ a
    ∧ a + numPages * 4096 ≤ (r.regions f).start + (r.regions f).size
  lt : idx < maxRegions
  entry : r'.regions idx = ⟨a, numPages * 4096, .allocated⟩
  /-- No other allocated entry describes any byte of them. -/
  apart : ∀ j, j < maxRegions → j ≠ idx → (r'.regions j).state = .allocated →
    ∀ x, a ≤ x → x < a + numPages * 4096 →
      ¬ ((r'.regions j).start ≤ x ∧ x < (r'.regions j).start + (r'.regions j).size)
  zero : ∀ x, a ≤ x → x < a + numPages * 4096 → r'.mem x = 0
  /-- No other byte of memory was written. -/
  frame : ∀ x, x < a ∨ a + numPages * 4096 ≤ x → r'.mem x = r.mem x

theorem delivered_of_lt {L : Layout} {tr : List AllocCall} {r r' : Ram} {numPages a idx : Nat}
    (h : AnyAllocRun L tr r) (ha : allocPages r numPages = .ok (a, idx, r'))
    (hlt : numPages < 2 ^ 20) : Delivered r r' numPages a idx := by
  have hs := allocPages_spec ha
  have hb := blocks_step (blocks_run h) (.alloc ha)
  have hsz : u32 (numPages * pageSize) = numPages * 4096 := u32_of_lt (by unfold pageSize; omega)
  have hentry := hs.entry
  have hmem := hs.mem
  rw [hsz] at hentry hmem
  refine ⟨?_, hs.lt, hentry, ?_, ?_, ?_⟩
  · obtain ⟨f, h1, h2, h3, h4⟩ := hs.wasFree
    rw [hsz] at h4
    exact ⟨f, h1, h2, h3.le, by omega⟩
  · intro j hj hne hst x h1 h2 hx
    have hidx : HoldsByte r'.regions idx x := by
      unfold HoldsByte InUse startOf stopOf
      rw [hentry]
      exact ⟨⟨hs.lt, by simp⟩, h1, h2⟩
    exact hne (hb.apart j idx x ⟨⟨hj, by rw [hst]; simp⟩, hx⟩ hidx)
  · intro x h1 h2
    rw [hmem, fill_apply, if_pos ⟨h1, h2⟩]
  · intro x hx
    rw [hmem, fill_apply, if_neg (by omega)]

/--
**`alloc_pages` delivers what was asked** exactly for requests of fewer than 2^20 pages. After any
calls, such a request that returns `a` returns exactly that many pages; a larger one returns a block
that does not have them, since no free block could.
-/
theorem allocPages_delivers {L : Layout} {tr : List AllocCall} {r r' : Ram} {numPages a idx : Nat}
    (h : AnyAllocRun L tr r) (ha : allocPages r numPages = .ok (a, idx, r')) :
    Delivered r r' numPages a idx ↔ numPages < 2 ^ 20 := by
  refine ⟨fun hd => ?_, delivered_of_lt h ha⟩
  obtain ⟨f, h1, h2, h3, h4⟩ := hd.wasFree
  have hb := (blocks_run h).stop_lt ⟨h1, by rw [h2]; simp⟩
  omega

theorem allocPages_delivers_init :
    ∃ a idx r', allocPages (initRegions sampleLayout ⟨fun _ => .cleared, fun _ => 7, []⟩) 3
        = .ok (a, idx, r')
      ∧ r'.regions idx = ⟨a, 3 * 4096, .allocated⟩ ∧ r'.mem a = 0 := by
  obtain ⟨r', ha, _⟩ := (plenty_init sampleLayout ⟨fun _ => .cleared, fun _ => 7, []⟩).alloc
    (partition_init sampleLayout _) (by decide) (show 3 ≤ 8 by decide)
  have hd := (allocPages_delivers (.start ⟨_, rfl⟩) ha).mpr (by decide)
  exact ⟨_, _, r', ha, hd.entry, hd.zero _ (le_refl _) (by omega)⟩

/-- A request for 2^20 + 1 pages is served from fresh memory, with a block of one page. -/
theorem allocPages_truncates :
    ∃ r a idx r', AnyAllocRun sampleLayout [] r ∧ allocPages r (2 ^ 20 + 1) = .ok (a, idx, r')
      ∧ r'.regions idx = ⟨a, 4096, .allocated⟩
      ∧ ¬ ∃ f, f < maxRegions ∧ (r.regions f).state = .free ∧ (r.regions f).start ≤ a
        ∧ a + (2 ^ 20 + 1) * 4096 ≤ (r.regions f).start + (r.regions f).size := by
  obtain ⟨r, hrun, hp, hf, hsz⟩ : ∃ r, AnyAllocRun sampleLayout [] r
      ∧ Partition sampleLayout r.regions ∧ Fresh 0 r.regions
      ∧ (r.regions 0).size = freeRamSize :=
    ⟨initRegions sampleLayout ⟨fun _ => .cleared, fun _ => 0, []⟩, .start ⟨_, rfl⟩,
      partition_init _ _, fresh_init _ _, by simp only [initRegions, if_true]; decide⟩
  have hreq : u32 ((2 ^ 20 + 1) * pageSize) = 4096 := by decide
  obtain ⟨r', ha, _⟩ := alloc_fresh (L := sampleLayout) hp hf (by decide)
    (show u32 ((2 ^ 20 + 1) * pageSize) < (r.regions 0).size by rw [hreq, hsz]; decide)
  have ha := allocPages_ok.mpr ⟨ha, rfl⟩
  have hs := allocPages_spec ha
  refine ⟨r, _, _, r', hrun, ha, ?_, ?_⟩
  · rw [hs.entry, hreq]
  · rintro ⟨f, h1, h2, h3, h4⟩
    have hb := (blocks_run hrun).stop_lt ⟨h1, by rw [h2]; simp⟩
    omega

/-! ## The same again after a release -/

/--
Releasing block `i` of table `t` leaves an unused entry: there was one, or two of the
free blocks touch once `i` is counted among them, so that the merging pass merges.
-/
def LeavesEntry (t : Regions) (i : Nat) : Prop :=
  HasUnused t ∨ ∃ a b, a ≠ b ∧ Touch (markFree t i) a b

theorem hasUnused_markFree {t : Regions} {i : Nat} (ha : (t i).state = .allocated) :
    HasUnused (markFree t i) ↔ HasUnused t := by
  have hne : ∀ k, (markFree t i k).state = .unused ∨ (t k).state = .unused → k ≠ i := by
    rintro k hk rfl
    rw [markFree_self, ha] at hk
    simp at hk
  constructor
  · rintro ⟨k, hk, hs⟩
    have hki := hne k (Or.inl hs)
    rw [markFree_other hki] at hs
    exact ⟨k, hk, hs⟩
  · rintro ⟨k, hk, hs⟩
    have hki := hne k (Or.inr hs)
    exact ⟨k, hk, by rw [markFree_other hki]; exact hs⟩

theorem hasUnused_release {L : Layout} {t : Regions} {i : Nat} (h : Blocks L t)
    (ha : (t i).state = .allocated) :
    HasUnused (mergeFreeRegions (markFree t i)) ↔ LeavesEntry t i := by
  have hb := blocks_markFree h ha
  obtain ⟨h1, h2⟩ := mergeFreeRegions_merges hb
  constructor
  · intro hu
    by_cases ht : ∃ a b, a ≠ b ∧ Touch (markFree t i) a b
    · exact Or.inr ht
    · rw [mergeFreeRegions_still hb fun a b hab => ht ⟨a, b, hab⟩] at hu
      exact Or.inl ((hasUnused_markFree ha).mp hu)
  · intro hl
    cases hl with
    | inl hu => exact h1.unused ((hasUnused_markFree ha).mpr hu)
    | inr ht =>
        obtain ⟨a, b, hab⟩ := ht
        exact h2.resolve_right fun hno => hno a b hab

/-- A request is served exactly when a block and an entry are there for it. -/
theorem allocPages_returns_iff {r : Ram} {numPages : Nat} :
    (∃ a idx r', allocPages r numPages = .ok (a, idx, r'))
      ↔ HasFree (u32 (numPages * pageSize)) r.regions ∧ HasUnused r.regions := by
  constructor
  · rintro ⟨a, idx, r', ha⟩
    have hs := allocPages_spec ha
    obtain ⟨f, h1, h2, _, h4⟩ := hs.wasFree
    exact ⟨⟨f, ⟨h1, h2⟩, h4⟩, idx, hs.lt, hs.wasUnused⟩
  · rintro ⟨⟨k, hk, hsize⟩, u, hu, hus⟩
    obtain ⟨f, hf⟩ := findSuitableFreeRegion_of_free hk.1 hk.2 hsize
    obtain ⟨n, hn⟩ := findUnusedRegionSlot_of_card
      (Finset.card_pos.mpr ⟨u, mem_unusedSlots.mpr ⟨hu, hus⟩⟩)
    obtain ⟨a, r', ha, _⟩ := allocPages_of_find hf hn
    exact ⟨a, n, r', ha⟩

theorem allocPages_fails {r : Ram} {numPages : Nat}
    (h : ¬ ∃ a idx r', allocPages r numPages = .ok (a, idx, r')) :
    allocPages r numPages = .error .outOfMemory := by
  cases ha : allocPages r numPages with
  | ok res => exact absurd ⟨res.1, res.2.1, res.2.2, ha⟩ h
  | error e => rw [allocPages_error ha]

/-- What `release_pages(i)` and then `alloc_pages(n)` come to, `n` being the size of block `i`. -/
theorem release_then_alloc {L : Layout} {r : Ram} {i n : Nat} (hb : Blocks L r.regions)
    (hi : i < maxRegions) (ha : (r.regions i).state = .allocated)
    (hsz : (r.regions i).size = n * 4096) :
    ∃ r', releasePages r (i : Int) = .ok r'
      ∧ ((∃ a idx r'', allocPages r' n = .ok (a, idx, r'')) ↔ LeavesEntry r.regions i) := by
  refine ⟨_, releasePages_of_allocated hi ha, ?_⟩
  rw [allocPages_returns_iff]
  dsimp only
  rw [hasUnused_release hb ha]
  refine and_iff_right ?_
  -- the block itself is large enough, and merging keeps it or a larger one
  have hlt := hb.stop_lt (i := i) ⟨hi, by rw [ha]; simp⟩
  refine (mergeFreeRegions_merges (blocks_markFree hb ha)).1.free _ ⟨i, ⟨hi, ?_⟩, ?_⟩
  · rw [markFree_self]
  · rw [markFree_self]
    dsimp only
    rw [hsz, u32_of_lt (by unfold pageSize; omega)]
    exact le_refl _

/--
**Freeing makes room, when it leaves an entry.** After any calls, releasing an allocated
block of `n` pages succeeds, and a request for `n` pages right after it returns exactly
when some entry was unused before, or the release lets the merging pass merge two blocks.
-/
theorem freeing_makes_room {L : Layout} {tr : List AllocCall} {r : Ram} {i n : Nat}
    (h : AnyAllocRun L tr r) (hi : i < maxRegions) (ha : (r.regions i).state = .allocated)
    (hsz : (r.regions i).size = n * 4096) :
    ∃ r', releasePages r (i : Int) = .ok r'
      ∧ ((∃ a idx r'', allocPages r' n = .ok (a, idx, r'')) ↔ LeavesEntry r.regions i) :=
  release_then_alloc (blocks_run h) hi ha hsz

theorem freeing_makes_room_one :
    ∃ tr r r', AnyAllocRun sampleLayout tr r ∧ LeavesEntry r.regions 1
      ∧ releasePages r 1 = .ok r' ∧ ∃ a idx r'', allocPages r' 1 = .ok (a, idx, r'') := by
  obtain ⟨r, hrun, hp, hpl⟩ : ∃ r, AnyAllocRun sampleLayout [] r
      ∧ Partition sampleLayout r.regions ∧ Plenty 0 r.regions :=
    ⟨initRegions sampleLayout ⟨fun _ => .cleared, fun _ => 0, []⟩, .start ⟨_, rfl⟩,
      partition_init _ _, plenty_init _ _⟩
  obtain ⟨r₁, ha, hpl₁, _⟩ := hpl.alloc hp (by decide) (show 1 ≤ 8 by decide)
  have hrun₁ := Run.snoc hrun (AllocStep.alloc ha)
  have hl : LeavesEntry r₁.regions 1 :=
    Or.inl ⟨2, by decide, hpl₁.beyond 2 (by decide) (by decide)⟩
  have hsz : (r₁.regions 1).size = 1 * 4096 := by
    rw [(allocPages_spec ha).entry]
    rfl
  obtain ⟨r', h1, h2⟩ := freeing_makes_room (i := 1) (n := 1) hrun₁ (by decide)
    (hpl₁.taken 1 (by decide) (by decide)) hsz
  exact ⟨_, r₁, r', hrun₁, hl, h1, h2.mpr hl⟩

/-- `k` requests of one page each, from the start: blocks `1` to `k` in a row, the rest after them. -/
theorem onePage_run (L : Layout) {k : Nat} (hk : k < maxRegions) :
    ∃ tr r, AllocRun L tr r ∧ Plenty k r.regions
      ∧ (r.regions 0).start = L.freeRam + k * 4096
      ∧ (1 ≤ k → r.regions 1 = ⟨L.freeRam, 4096, .allocated⟩) := by
  induction k with
  | zero =>
      refine ⟨[], initRegions L ⟨fun _ => .cleared, fun _ => 0, []⟩, .start ⟨_, rfl⟩,
        plenty_init L _, ?_, by omega⟩
      simp [initRegions]
  | succ k ih =>
      obtain ⟨tr, r, hrun, hpl, hstart, hone⟩ := ih (by omega)
      obtain ⟨r', ha, hpl', hstop⟩ := hpl.alloc (partition_run hrun) hk (show 1 ≤ 8 by decide)
      have hs := allocPages_spec ha
      have he := hs.entry
      rw [onePage] at he
      refine ⟨_, r', .snoc hrun ⟨.alloc ha, by simp [inRange]⟩, hpl', ?_, ?_⟩
      · rw [← hstop]
        unfold stopOf
        rw [he, hstart]
        dsimp only [pageSize]
        omega
      · intro _
        by_cases hk0 : k = 0
        · subst hk0
          rw [he, hstart]
          simp [pageSize]
        · have h1 := hone (by omega)
          rw [hs.keeps 1 (by rw [h1]), h1]

/--
With 127 blocks of one page the table is full. Releasing the first of them leaves a free
page with nothing free beside it and no unused entry, and the next request panics.
-/
theorem full_table_keeps_block :
    ∃ tr r r', AllocRun sampleLayout tr r ∧ r.regions 1 = ⟨sampleLayout.freeRam, 4096, .allocated⟩
      ∧ releasePages r 1 = .ok r' ∧ allocPages r' 1 = .error .outOfMemory := by
  obtain ⟨tr, r, hrun, hpl, hstart, hone⟩ := onePage_run sampleLayout (k := 127) (by decide)
  have hone := hone (by decide)
  have hp := partition_run hrun
  have ha : (r.regions 1).state = .allocated := by rw [hone]
  have hno : ¬ LeavesEntry r.regions 1 := by
    intro hl
    cases hl with
    | inl hu =>
        obtain ⟨k, hk, hs⟩ := hu
        by_cases h0 : k = 0
        · rw [h0, hpl.rest] at hs
          cases hs
        · rw [hpl.taken k (by omega) (Nat.le_of_lt_succ hk)] at hs
          cases hs
    | inr ht =>
        obtain ⟨a, b, hab, ht⟩ := ht
        -- the free blocks are the released page and the rest, 126 pages further on
        have hfree : ∀ i, Free (markFree r.regions 1) i → i = 1 ∨ i = 0 := by
          intro i hi
          exact ((free_markFree (by decide)).mp hi).imp_right hpl.toFresh.free_eq
        have hpos := hp.size_pos (i := 0) ⟨by decide, by rw [hpl.rest]; simp⟩
        have he := ht.2.2
        rw [stopOf_markFree, startOf_markFree] at he
        unfold stopOf startOf at he
        rcases hfree a ht.1 with rfl | rfl
        · rcases hfree b ht.2.1 with rfl | rfl
          · exact hab rfl
          · rw [hone, hstart] at he
            dsimp only at he
            omega
        · rcases hfree b ht.2.1 with rfl | rfl
          · rw [hone, hstart] at he
            dsimp only at he
            omega
          · exact hab rfl
  obtain ⟨r', h1, h2⟩ := release_then_alloc (i := 1) (n := 1) hp.blocks (by decide) ha
    (by rw [hone])
  exact ⟨tr, r, r', hrun, hone, h1, allocPages_fails fun h => hno (h2.mp h)⟩

end Os1000.Proof
