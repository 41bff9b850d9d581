import Os1000.Alloc.Partition

/-!
# How far one merging pass gets

`release_pages` marks its block free and makes a single pass over the table. When
no two free blocks touched before, the only ones that can touch now are the
released block `r`, a free block `l` that ends where it starts, and a free block
`h` that starts where it ends. The pass visits the rows in slot order, so which of
the two seams it closes depends on how the three slots are ordered:

* `r < l`: row `r` swallows `h`, and row `l` then swallows the whole of `r`;
* `l < r < h`: row `l` swallows `r` and, further along the same row, `h`;
* `l < r` and `h < r`: row `l` swallows `r`, but by then its inner loop has gone
  past `h`, and no later row can join the two. **The seam stays open.**

The pass is therefore complete exactly when the last order does not occur.
-/

namespace Os1000.Proof

open Os1000 Lib

/-- No two free blocks touch. -/
def Coalesced (t : Regions) : Prop := ∀ i j, ¬ Touch t i j

section Touching

variable {L : Layout} {t : Regions} {i j k : Nat}

/-- A free block touches at most one block on its right. -/
theorem Touch.right_unique (h : Partition L t) (h1 : Touch t i j) (h2 : Touch t i k) : j = k :=
  h.tiles.eq_of_lo_eq h1.2.1.inUse h2.2.1.inUse (h1.2.2.symm.trans h2.2.2)

/-- A free block is touched by at most one block on its left. -/
theorem Touch.left_unique (h : Partition L t) (h1 : Touch t i k) (h2 : Touch t j k) : i = j :=
  h.tiles.eq_of_hi_eq h1.1.inUse h2.1.inUse (h1.2.2.trans h2.2.2.symm)

/-- Touching goes one way only. -/
theorem Touch.asymm (h : Partition L t) (h1 : Touch t i j) : ¬ Touch t j i := by
  intro h2
  have p1 := h.size_pos h1.1.inUse
  have p2 := h.size_pos h1.2.1.inUse
  have e1 := h1.2.2
  have e2 := h2.2.2
  unfold stopOf startOf at *
  omega

/-- Which blocks touch after `i` swallowed `j`: `i` now ends where `j` did. -/
theorem touch_swallow (h : Partition L t) (ht : Touch t i j) {a b : Nat} :
    Touch (swallow t i j) a b ↔ (a = i ∧ Touch t j b) ∨ (a ≠ i ∧ a ≠ j ∧ Touch t a b) := by
  have hij := ht.ne h
  have hfree : ∀ k, Free (swallow t i j) k ↔ k ≠ j ∧ Free t k := by
    intro k
    unfold Free
    by_cases hkj : k = j
    · subst hkj; rw [swallow_gone]; simp [Region.cleared]
    · by_cases hki : k = i
      · subst hki; rw [swallow_self hij]; simp [hkj]
      · rw [swallow_other hki hkj]; simp [hkj]
  have hstart : ∀ k, k ≠ j → startOf (swallow t i j) k = startOf t k := by
    intro k hkj
    unfold startOf
    by_cases hki : k = i
    · subst hki; rw [swallow_self hij]
    · rw [swallow_other hki hkj]
  have hstop : ∀ k, k ≠ i → k ≠ j → stopOf (swallow t i j) k = stopOf t k := by
    intro k hki hkj; unfold stopOf; rw [swallow_other hki hkj]
  constructor
  · rintro ⟨ha, hb, he⟩
    obtain ⟨haj, hfa⟩ := (hfree a).mp ha
    obtain ⟨hbj, hfb⟩ := (hfree b).mp hb
    rw [hstart b hbj] at he
    by_cases hai : a = i
    · subst hai
      rw [swallow_stop ht hij] at he
      exact Or.inl ⟨rfl, ht.2.1, hfb, he⟩
    · rw [hstop a hai haj] at he
      exact Or.inr ⟨hai, haj, hfa, hfb, he⟩
  · rintro (⟨rfl, htj⟩ | ⟨hai, haj, hta⟩)
    · have hbj : b ≠ j := fun e => (htj.ne h) e.symm
      refine ⟨(hfree a).mpr ⟨hij, ht.1⟩, (hfree b).mpr ⟨hbj, htj.2.1⟩, ?_⟩
      rw [swallow_stop ht hij, hstart b hbj]
      exact htj.2.2
    · have hbj : b ≠ j := by
        rintro rfl
        exact hai (hta.left_unique h ht)
      refine ⟨(hfree a).mpr ⟨haj, hta.1⟩, (hfree b).mpr ⟨hbj, hta.2.1⟩, ?_⟩
      rw [hstop a hai haj, hstart b hbj]
      exact hta.2.2

end Touching

/-! ## Rows of the pass -/

section Rows

variable {L : Layout} {t u v : Regions} {i j k : Nat}

/-- A row whose block touches nothing does nothing. -/
theorem mergeRow_none (h : Partition L t) (hi : i < maxRegions) (hno : ∀ k, ¬ Touch t i k) :
    mergeRow t i = t := by
  unfold mergeRow
  split
  · rfl
  · rename_i hf
    have hf : Free t i := ⟨hi, by simpa using hf⟩
    exact loop_inv (f := mergeInto i) (s := t) (fun _ w => w = t) maxRegions rfl
      (fun k w hk hw => by subst hw; exact mergeInto_not_touch h hf hk (hno k))

/-- A row that finds one block to swallow and, past it, no other. -/
theorem mergeRow_one (h : Partition L t) (ht : Touch t i j)
    (hpast : ∀ k, j < k → ¬ Touch t j k) : mergeRow t i = swallow t i j := by
  have hps := partition_swallow h ht
  have hfs : Free (swallow t i j) i :=
    ⟨ht.1.1, by rw [swallow_self (ht.ne h)]; exact ht.1.2⟩
  unfold mergeRow
  rw [if_neg (by simp [ht.1.2])]
  -- before slot `j` nothing has happened, from it on the swallowing is done
  have key := loop_inv (f := mergeInto i) (s := t)
    (fun k w => (k ≤ j → w = t) ∧ (j < k → w = swallow t i j)) maxRegions
    ⟨fun _ => rfl, fun hlt => absurd hlt (Nat.not_lt_zero j)⟩
    (fun k w hk hw => by
      rcases Nat.lt_trichotomy k j with hkj | hkj | hkj
      · rw [hw.1 (by omega)]
        rw [mergeInto_not_touch h ht.1 hk (fun hc => by
          have := hc.right_unique h ht; omega)]
        exact ⟨fun _ => rfl, fun hlt => by omega⟩
      · subst hkj
        rw [hw.1 (Nat.le_refl _), mergeInto_touch h ht]
        exact ⟨fun hle => by omega, fun _ => rfl⟩
      · rw [hw.2 hkj]
        rw [mergeInto_not_touch hps hfs hk (fun hc => by
          rcases (touch_swallow h ht).mp hc with ⟨_, h1⟩ | ⟨h1, _⟩
          · exact hpast k hkj h1
          · exact h1 rfl)]
        exact ⟨fun hle => by omega, fun _ => rfl⟩)
  exact key.2 ht.2.1.1

/-- A row that swallows `j` and then, further along, the block `k` that `j` touched. -/
theorem mergeRow_two (h : Partition L t) (ht : Touch t i j) (ht' : Touch t j k) (hjk : j < k)
    (hpast : ∀ l, ¬ Touch t k l) : mergeRow t i = swallow (swallow t i j) i k := by
  have hps := partition_swallow h ht
  have hts : Touch (swallow t i j) i k := (touch_swallow h ht).mpr (Or.inl ⟨rfl, ht'⟩)
  have hpss := partition_swallow hps hts
  have hfss : Free (swallow (swallow t i j) i k) i :=
    ⟨ht.1.1, by rw [swallow_self (hts.ne hps)]; exact hts.1.2⟩
  have hki : k ≠ i := Ne.symm (hts.ne hps)
  have hkj : k ≠ j := Ne.symm (ht'.ne h)
  unfold mergeRow
  rw [if_neg (by simp [ht.1.2])]
  have key := loop_inv (f := mergeInto i) (s := t)
    (fun l w => (l ≤ j → w = t) ∧ (j < l → l ≤ k → w = swallow t i j)
      ∧ (k < l → w = swallow (swallow t i j) i k)) maxRegions
    ⟨fun _ => rfl, fun hlt => absurd hlt (Nat.not_lt_zero j),
      fun hlt => absurd hlt (Nat.not_lt_zero k)⟩
    (fun l w hl hw => by
      rcases Nat.lt_trichotomy l j with hlj | hlj | hlj
      · rw [hw.1 (by omega)]
        rw [mergeInto_not_touch h ht.1 hl (fun hc => by
          have := hc.right_unique h ht; omega)]
        exact ⟨fun _ => rfl, fun hlt => by omega, fun hlt => by omega⟩
      · subst hlj
        rw [hw.1 (Nat.le_refl _), mergeInto_touch h ht]
        exact ⟨fun hle => by omega, fun _ _ => rfl, fun hlt => by omega⟩
      · rcases Nat.lt_trichotomy l k with hlk | hlk | hlk
        · rw [hw.2.1 hlj (by omega)]
          rw [mergeInto_not_touch hps hts.1 hl (fun hc => by
            have := hc.right_unique hps hts; omega)]
          exact ⟨fun hle => by omega, fun _ _ => rfl, fun hlt => by omega⟩
        · subst hlk
          rw [hw.2.1 hlj (Nat.le_refl _), mergeInto_touch hps hts]
          exact ⟨fun hle => by omega, fun _ hle => by omega, fun _ => rfl⟩
        · rw [hw.2.2 hlk]
          rw [mergeInto_not_touch hpss hfss hl (fun hc => by
            rcases (touch_swallow hps hts).mp hc with ⟨_, h1⟩ | ⟨h1, _⟩
            · rcases (touch_swallow h ht).mp h1 with ⟨h2, _⟩ | ⟨_, _, h2⟩
              · exact hki h2
              · exact hpast l h2
            · exact h1 rfl)]
          exact ⟨fun hle => by omega, fun _ hle => by omega, fun _ => rfl⟩)
  exact key.2.2 ht'.2.1.1

/-- A pass over a table in which nothing touches does nothing. -/
theorem merge_none (h : Partition L t) (hc : Coalesced t) : mergeFreeRegions t = t :=
  loop_inv (f := mergeRow) (s := t) (fun _ w => w = t) maxRegions rfl
    (fun a w ha hw => by subst hw; exact mergeRow_none h ha (hc a))

/-- A pass in which only row `i` finds something. -/
theorem merge_one_row (h : Partition L t) (hu : Partition L u) (hi : i < maxRegions)
    (hbefore : ∀ a, a < i → ∀ b, ¬ Touch t a b) (hrow : mergeRow t i = u)
    (hafter : ∀ a, i < a → ∀ b, ¬ Touch u a b) : mergeFreeRegions t = u := by
  have key := loop_inv (f := mergeRow) (s := t)
    (fun a w => (a ≤ i → w = t) ∧ (i < a → w = u)) maxRegions
    ⟨fun _ => rfl, fun hlt => absurd hlt (Nat.not_lt_zero i)⟩
    (fun a w ha hw => by
      rcases Nat.lt_trichotomy a i with hai | hai | hai
      · rw [hw.1 (by omega), mergeRow_none h ha (hbefore a hai)]
        exact ⟨fun _ => rfl, fun hlt => by omega⟩
      · subst hai
        rw [hw.1 (Nat.le_refl _), hrow]
        exact ⟨fun hle => by omega, fun _ => rfl⟩
      · rw [hw.2 hai, mergeRow_none hu ha (hafter a hai)]
        exact ⟨fun hle => by omega, fun _ => rfl⟩)
  exact key.2 hi

/-- A pass in which rows `i` and, after it, `j` find something. -/
theorem merge_two_rows (h : Partition L t) (hu : Partition L u) (hv : Partition L v)
    (hij : i < j) (hj : j < maxRegions)
    (hbefore : ∀ a, a < i → ∀ b, ¬ Touch t a b) (hrow : mergeRow t i = u)
    (hmid : ∀ a, i < a → a < j → ∀ b, ¬ Touch u a b) (hrow' : mergeRow u j = v)
    (hafter : ∀ a, j < a → ∀ b, ¬ Touch v a b) : mergeFreeRegions t = v := by
  have key := loop_inv (f := mergeRow) (s := t)
    (fun a w => (a ≤ i → w = t) ∧ (i < a → a ≤ j → w = u) ∧ (j < a → w = v)) maxRegions
    ⟨fun _ => rfl, fun hlt => absurd hlt (Nat.not_lt_zero i),
      fun hlt => absurd hlt (Nat.not_lt_zero j)⟩
    (fun a w ha hw => by
      rcases Nat.lt_trichotomy a i with hai | hai | hai
      · rw [hw.1 (by omega), mergeRow_none h ha (hbefore a hai)]
        exact ⟨fun _ => rfl, fun hlt => by omega, fun hlt => by omega⟩
      · subst hai
        rw [hw.1 (Nat.le_refl _), hrow]
        exact ⟨fun hle => by omega, fun _ _ => rfl, fun hlt => by omega⟩
      · rcases Nat.lt_trichotomy a j with haj | haj | haj
        · rw [hw.2.1 hai (by omega), mergeRow_none hu ha (hmid a hai haj)]
          exact ⟨fun hle => by omega, fun _ _ => rfl, fun hlt => by omega⟩
        · subst haj
          rw [hw.2.1 hai (Nat.le_refl _), hrow']
          exact ⟨fun hle => by omega, fun _ hle => by omega, fun _ => rfl⟩
        · rw [hw.2.2 haj, mergeRow_none hv ha (hafter a haj)]
          exact ⟨fun hle => by omega, fun _ hle => by omega, fun _ => rfl⟩)
  exact key.2.2 hj

end Rows

/-! ## One release -/

/-- Both free neighbours of block `r` sit in lower slots than `r` itself. -/
def NeighboursBelow (t : Regions) (r : Nat) : Prop :=
  ∃ l h, l < r ∧ h < r ∧ Free t l ∧ Free t h ∧ stopOf t l = startOf t r ∧ stopOf t r = startOf t h

section Release

variable {L : Layout} {t : Regions} {r l h a b : Nat}

theorem free_markFree (hr : r < maxRegions) : Free (markFree t r) a ↔ a = r ∨ Free t a := by
  unfold Free
  by_cases har : a = r
  · subst har; simp [markFree_self, hr]
  · simp [markFree_other har, har]

/-- One region cannot be both neighbours of a block. -/
theorem not_neighboursBelow (hp : Partition L t) (hr : InUse t r)
    (huniq : ∀ a b, a < r → b < r → Free t a → Free t b → a = b) : ¬ NeighboursBelow t r := by
  rintro ⟨l, h, hl, hh, hfl, hfh, h1, h2⟩
  obtain rfl := huniq l h hl hh hfl hfh
  have hposl := hp.tiles.nonempty l hfl.inUse
  have hposr := hp.tiles.nonempty r hr
  omega

/-- When nothing touched before, only the released block touches now. -/
theorem touch_markFree (hc : Coalesced t) (hr : r < maxRegions)
    (ht : Touch (markFree t r) a b) : a = r ∨ b = r := by
  obtain ⟨h1, h2, h3⟩ := ht
  rw [stopOf_markFree, startOf_markFree] at h3
  rcases (free_markFree hr).mp h1 with ha | ha
  · exact Or.inl ha
  · rcases (free_markFree hr).mp h2 with hb | hb
    · exact Or.inr hb
    · exact absurd ⟨ha, hb, h3⟩ (hc a b)

/-- The released block has a free right neighbour and no free left one: it swallows it. -/
theorem merge_right_only (hp : Partition L (markFree t r)) (hc : Coalesced t)
    (hr : r < maxRegions) (hR : Touch (markFree t r) r h) (hL : ∀ l, ¬ Touch (markFree t r) l r) :
    mergeFreeRegions (markFree t r) = swallow (markFree t r) r h
      ∧ Coalesced (swallow (markFree t r) r h) := by
  have only : ∀ a b, Touch (markFree t r) a b → a = r := by
    intro a b hab
    rcases touch_markFree hc hr hab with e | e
    · exact e
    · exact absurd (e ▸ hab) (hL a)
  have hno : Coalesced (swallow (markFree t r) r h) := by
    intro a b hab
    rcases (touch_swallow hp hR).mp hab with ⟨_, h1⟩ | ⟨h1, _, h2⟩
    · exact (hR.ne hp).symm (only h b h1)
    · exact h1 (only a b h2)
  refine ⟨merge_one_row hp (partition_swallow hp hR) hr ?_ (mergeRow_one hp hR ?_) ?_, hno⟩
  · intro a ha b hab
    have := only a b hab; omega
  · intro k _ hk
    exact (hR.ne hp).symm (only h k hk)
  · intro a _ b hab
    exact hno a b hab

/-- The released block has a free left neighbour and no free right one: it is swallowed. -/
theorem merge_left_only (hp : Partition L (markFree t r)) (hc : Coalesced t)
    (hr : r < maxRegions) (hL : Touch (markFree t r) l r) (hR : ∀ h, ¬ Touch (markFree t r) r h) :
    mergeFreeRegions (markFree t r) = swallow (markFree t r) l r
      ∧ Coalesced (swallow (markFree t r) l r) := by
  have only : ∀ a b, Touch (markFree t r) a b → a = l := by
    intro a b hab
    rcases touch_markFree hc hr hab with e | e
    · exact absurd (e ▸ hab) (hR b)
    · exact (e ▸ hab).left_unique hp hL
  have hno : Coalesced (swallow (markFree t r) l r) := by
    intro a b hab
    rcases (touch_swallow hp hL).mp hab with ⟨_, h1⟩ | ⟨h1, _, h2⟩
    · exact hR b h1
    · exact h1 (only a b h2)
  refine ⟨merge_one_row hp (partition_swallow hp hL) hL.1.1 ?_ (mergeRow_one hp hL ?_) ?_, hno⟩
  · intro a ha b hab
    have := only a b hab; omega
  · intro k _ hk
    exact hR k hk
  · intro a _ b hab
    exact hno a b hab

/-- Free blocks on both sides and both below `r`: the left one swallows `r`, and no more. -/
theorem merge_both_below (hp : Partition L (markFree t r)) (hc : Coalesced t)
    (hr : r < maxRegions) (hL : Touch (markFree t r) l r) (hR : Touch (markFree t r) r h)
    (hl : l < r) (hh : h < r) :
    mergeFreeRegions (markFree t r) = swallow (markFree t r) l r
      ∧ Touch (swallow (markFree t r) l r) l h := by
  refine ⟨?_, (touch_swallow hp hL).mpr (Or.inl ⟨rfl, hR⟩)⟩
  refine merge_one_row hp (partition_swallow hp hL) hL.1.1 ?_ (mergeRow_one hp hL ?_) ?_
  · intro a ha b hab
    rcases touch_markFree hc hr hab with e | e
    · omega
    · have := (e ▸ hab).left_unique hp hL; omega
  · -- the inner loop of row `l` is past `h` when it reaches `r`
    intro k hk htk
    have := htk.right_unique hp hR; omega
  · intro a ha b hab
    rcases (touch_swallow hp hL).mp hab with ⟨e, _⟩ | ⟨_, h2, h3⟩
    · omega
    · rcases touch_markFree hc hr h3 with e | e
      · exact h2 e
      · have := (e ▸ h3).left_unique hp hL; omega

/-- With free blocks on both sides, the pass closes both seams unless both are below `r`. -/
theorem merge_both (hp : Partition L (markFree t r)) (hc : Coalesced t) (hr : r < maxRegions)
    (hL : Touch (markFree t r) l r) (hR : Touch (markFree t r) r h) :
    Coalesced (mergeFreeRegions (markFree t r)) ↔ ¬ (l < r ∧ h < r) := by
  have hlr := hL.ne hp
  have hrh := hR.ne hp
  -- the only touching pairs are `(l, r)` and `(r, h)`
  have only : ∀ a b, Touch (markFree t r) a b → (a = l ∧ b = r) ∨ (a = r ∧ b = h) := by
    intro a b hab
    rcases touch_markFree hc hr hab with e | e
    · subst e; exact Or.inr ⟨rfl, hab.right_unique hp hR⟩
    · subst e; exact Or.inl ⟨hab.left_unique hp hL, rfl⟩
  have hlh : l ≠ h := by
    rintro rfl
    exact hL.asymm hp hR
  have hnoh : ∀ b, ¬ Touch (markFree t r) h b := by
    intro b hab
    rcases only h b hab with ⟨e, _⟩ | ⟨e, _⟩
    · exact hlh e.symm
    · exact hrh e.symm
  rcases Nat.lt_or_ge r l with hrl | hrl
  · -- row `r` first, then row `l`
    have hpu := partition_swallow hp hR
    have htl : Touch (swallow (markFree t r) r h) l r :=
      (touch_swallow hp hR).mpr (Or.inr ⟨hlr, hlh, hL⟩)
    have onlyu : ∀ a b, Touch (swallow (markFree t r) r h) a b → a = l ∧ b = r := by
      intro a b hab
      rcases (touch_swallow hp hR).mp hab with ⟨_, h1⟩ | ⟨h1, _, h2⟩
      · exact absurd h1 (hnoh b)
      · rcases only a b h2 with e | ⟨e, _⟩
        · exact e
        · exact absurd e h1
    have hpv := partition_swallow hpu htl
    have hno : Coalesced (swallow (swallow (markFree t r) r h) l r) := by
      intro a b hab
      rcases (touch_swallow hpu htl).mp hab with ⟨_, h1⟩ | ⟨h1, _, h2⟩
      · exact hlr.symm (onlyu r b h1).1
      · exact h1 (onlyu a b h2).1
    have hres : mergeFreeRegions (markFree t r)
        = swallow (swallow (markFree t r) r h) l r := by
      refine merge_two_rows hp hpu hpv hrl hL.1.1 ?_ (mergeRow_one hp hR ?_) ?_
        (mergeRow_one hpu htl ?_) ?_
      · intro a ha b hab
        rcases only a b hab with ⟨e, _⟩ | ⟨e, _⟩ <;> omega
      · intro k _ hk; exact hnoh k hk
      · intro a _ ha b hab
        have := (onlyu a b hab).1; omega
      · intro k _ hk
        exact hlr.symm (onlyu r k hk).1
      · intro a _ b hab; exact hno a b hab
    rw [hres]
    exact ⟨fun _ hcon => by omega, fun _ => hno⟩
  · have hlt : l < r := by omega
    have hbefore : ∀ a, a < l → ∀ b, ¬ Touch (markFree t r) a b := by
      intro a ha b hab
      rcases only a b hab with ⟨e, _⟩ | ⟨e, _⟩ <;> omega
    have hpu := partition_swallow hp hL
    have hth : Touch (swallow (markFree t r) l r) l h :=
      (touch_swallow hp hL).mpr (Or.inl ⟨rfl, hR⟩)
    have onlyu : ∀ a b, Touch (swallow (markFree t r) l r) a b → a = l ∧ b = h := by
      intro a b hab
      rcases (touch_swallow hp hL).mp hab with ⟨e, h1⟩ | ⟨h1, h2, h3⟩
      · exact ⟨e, h1.right_unique hp hR⟩
      · rcases only a b h3 with ⟨e, _⟩ | ⟨e, _⟩
        · exact absurd e h1
        · exact absurd e h2
    rcases Nat.lt_or_ge h r with hhr | hhr
    · obtain ⟨hres, hseam⟩ := merge_both_below hp hc hr hL hR hlt hhr
      rw [hres]
      exact ⟨fun hco => absurd hseam (hco l h), fun hcon => absurd ⟨hlt, hhr⟩ hcon⟩
    · -- row `l` swallows `r` and then `h`
      have hpv := partition_swallow hpu hth
      have hno : Coalesced (swallow (swallow (markFree t r) l r) l h) := by
        intro a b hab
        rcases (touch_swallow hpu hth).mp hab with ⟨_, h1⟩ | ⟨h1, _, h2⟩
        · exact hlh.symm (onlyu h b h1).1
        · exact h1 (onlyu a b h2).1
      have hres : mergeFreeRegions (markFree t r)
          = swallow (swallow (markFree t r) l r) l h := by
        refine merge_one_row hp hpv hL.1.1 hbefore
          (mergeRow_two hp hL hR (by omega) hnoh) ?_
        intro a _ b hab; exact hno a b hab
      rw [hres]
      exact ⟨fun _ hcon => by omega, fun _ => hno⟩

/--
**When one pass is enough.** From a table in which nothing touches, the pass after
releasing `r` leaves nothing touching exactly when the free neighbours of `r` are
not both in lower slots.
-/
theorem release_coalesced_iff (hp : Partition L t) (hc : Coalesced t) (hr : r < maxRegions)
    (ha : (t r).state = .allocated) :
    Coalesced (mergeFreeRegions (markFree t r)) ↔ ¬ NeighboursBelow t r := by
  have hpm := partition_markFree hp ha
  have hleft : ∀ l, Touch (markFree t r) l r ↔ Free t l ∧ stopOf t l = startOf t r := by
    intro l
    unfold Touch
    rw [free_markFree hr, free_markFree hr, stopOf_markFree, startOf_markFree]
    constructor
    · rintro ⟨e | e, _, h3⟩
      · subst e
        have := hp.size_pos ⟨hr, by rw [ha]; simp⟩
        unfold stopOf startOf at h3; omega
      · exact ⟨e, h3⟩
    · rintro ⟨h1, h2⟩; exact ⟨Or.inr h1, Or.inl rfl, h2⟩
  have hright : ∀ h, Touch (markFree t r) r h ↔ Free t h ∧ stopOf t r = startOf t h := by
    intro h
    unfold Touch
    rw [free_markFree hr, free_markFree hr, stopOf_markFree, startOf_markFree]
    constructor
    · rintro ⟨_, e | e, h3⟩
      · subst e
        have := hp.size_pos ⟨hr, by rw [ha]; simp⟩
        unfold stopOf startOf at h3; omega
      · exact ⟨e, h3⟩
    · rintro ⟨h1, h2⟩; exact ⟨Or.inl rfl, Or.inr h1, h2⟩
  by_cases hL : ∃ l, Touch (markFree t r) l r
  · obtain ⟨l, hL⟩ := hL
    by_cases hR : ∃ h, Touch (markFree t r) r h
    · obtain ⟨h, hR⟩ := hR
      rw [merge_both hpm hc hr hL hR]
      refine not_congr ⟨fun hlt => ?_, ?_⟩
      · exact ⟨l, h, hlt.1, hlt.2, ((hleft l).mp hL).1, ((hright h).mp hR).1,
          ((hleft l).mp hL).2, ((hright h).mp hR).2⟩
      · rintro ⟨l', h', h1, h2, h3, h4, h5, h6⟩
        have e1 := ((hleft l').mpr ⟨h3, h5⟩).left_unique hpm hL
        have e2 := ((hright h').mpr ⟨h4, h6⟩).right_unique hpm hR
        exact ⟨e1 ▸ h1, e2 ▸ h2⟩
    · have hR' : ∀ h, ¬ Touch (markFree t r) r h := fun h hh => hR ⟨h, hh⟩
      obtain ⟨h1, h2⟩ := merge_left_only hpm hc hr hL hR'
      rw [h1]
      refine ⟨fun _ => ?_, fun _ => h2⟩
      rintro ⟨_, h', _, _, _, h4, _, h6⟩
      exact hR' h' ((hright h').mpr ⟨h4, h6⟩)
  · have hL' : ∀ l, ¬ Touch (markFree t r) l r := fun l hl => hL ⟨l, hl⟩
    have hnb : ¬ NeighboursBelow t r := by
      rintro ⟨l', _, _, _, h3, _, h5, _⟩
      exact hL' l' ((hleft l').mpr ⟨h3, h5⟩)
    refine ⟨fun _ => hnb, fun _ => ?_⟩
    by_cases hR : ∃ h, Touch (markFree t r) r h
    · obtain ⟨h, hR⟩ := hR
      obtain ⟨h1, h2⟩ := merge_right_only hpm hc hr hR hL'
      rw [h1]; exact h2
    · have hno : Coalesced (markFree t r) := by
        intro a b hab
        rcases touch_markFree hc hr hab with e | e
        · exact hR ⟨b, e ▸ hab⟩
        · exact hL' a (e ▸ hab)
      rw [merge_none hpm hno]
      exact hno

end Release

/-! ## Allocation never makes blocks touch -/

/-- The cut lies inside the source block, so nothing else can end there. -/
theorem coalesced_takeFront {L : Layout} {t : Regions} {f n req : Nat} (h : Partition L t)
    (hc : Coalesced t) (hf : f < maxRegions) (hff : (t f).state = .free)
    (hnu : (t n).state = .unused) (h0 : 0 < req) (hreq : req ≤ (t f).size) :
    Coalesced (takeFront t f n req) := by
  have hfn : f ≠ n := fun e => by rw [e, hnu] at hff; cases hff
  have hfu : InUse t f := ⟨hf, by rw [hff]; simp⟩
  have hsrc := takeFront_source (n := n) hfn hreq (h.stop_lt hfu)
  -- a free block of the new table is an old free block, the source with its front moved
  have hold : ∀ a, Free (takeFront t f n req) a → Free t a ∧ stopOf (takeFront t f n req) a = stopOf t a
      ∧ startOf (takeFront t f n req) a = if a = f then startOf t f + req else startOf t a := by
    intro a ha
    have han : a ≠ n := by
      rintro rfl
      have := ha.2
      rw [takeFront_new hfn] at this; cases this
    by_cases haf : a = f
    · subst haf
      have hne : (t a).size ≠ req := by
        intro e
        have := ha.2
        rw [hsrc, if_pos e] at this; cases this
      rw [if_neg hne] at hsrc
      refine ⟨⟨hf, hff⟩, ?_, ?_⟩
      · unfold stopOf; rw [hsrc]; dsimp only; omega
      · unfold startOf; rw [hsrc, if_pos rfl]
    · have e : takeFront t f n req a = t a := takeFront_other haf han
      unfold Free stopOf startOf at *
      rw [e] at ha ⊢
      exact ⟨ha, rfl, by rw [if_neg haf]⟩
  intro a b hab
  obtain ⟨ha, ha2, _⟩ := hold a hab.1
  obtain ⟨hb, _, hb3⟩ := hold b hab.2.1
  have he := hab.2.2
  rw [ha2, hb3] at he
  by_cases hbf : b = f
  · subst hbf
    rw [if_pos rfl] at he
    have hpos := h.tiles.nonempty a ha.inUse
    by_cases hab' : a = b
    · subst hab'
      obtain ⟨_, _, g3⟩ := hold a hab.1
      have hstop := hab.2.2
      rw [ha2, g3, if_pos rfl] at hstop
      -- the source would have been used up
      have hne : (t a).size ≠ req := by
        intro e
        have := hab.1.2
        rw [hsrc, if_pos e] at this; cases this
      unfold stopOf startOf at hstop; omega
    · rcases h.tiles.apart a b ha.inUse hb.inUse hab' with h1 | h1
      · omega
      · unfold stopOf startOf at *; omega
  · rw [if_neg hbf] at he
    exact hc a b ⟨ha, hb, he⟩

theorem coalesced_alloc {L : Layout} {r r' : Ram} {numPages idx : Nat}
    (h : Partition L r.regions) (hc : Coalesced r.regions)
    (hreq : u32 (numPages * pageSize) ≠ 0)
    (ha : allocRegion r numPages = .ok (idx, r')) : Coalesced r'.regions := by
  obtain ⟨f, hf, hn, ht, _, _⟩ := allocRegion_ok ha
  obtain ⟨h1, h2, h3⟩ := findSuitableFreeRegion_some hf
  obtain ⟨_, h5, _⟩ := findUnusedRegionSlot_some hn
  rw [ht]
  exact coalesced_takeFront h hc h1 h2 h5 (by omega) h3

/-! ## Whole runs -/

/--
The condition on a call, read off the state it is made in: an allocation does not
ask for zero bytes (in 32 bits), and a released block does not have both of its
free neighbours in lower slots.
-/
def MergesFully (r : Ram) : AllocCall → Prop
  | .alloc numPages _ => u32 (numPages * pageSize) ≠ 0
  | .release idx => ¬ NeighboursBelow r.regions idx.toNat

/-- A run of calls that returned, each made under `MergesFully`. -/
abbrev MergingRun (L : Layout) : List AllocCall → Ram → Prop :=
  Run (AllocInit L) fun r c r' => AllocStep r c r' ∧ MergesFully r c

theorem coalesced_init (L : Layout) (r : Ram) : Coalesced (initRegions L r).regions := by
  have huse : ∀ i, Free (initRegions L r).regions i → i = 0 := by
    intro i h
    by_contra hne
    have := h.2
    simp [initRegions, hne, h.1, Region.cleared] at this
  intro i j ht
  exact ht.ne (partition_init L r) ((huse i ht.1).trans (huse j ht.2.1).symm)

theorem coalesced_run {L : Layout} {tr : List AllocCall} {r : Ram} (h : MergingRun L tr r) :
    Partition L r.regions ∧ Coalesced r.regions := by
  refine h.invariant (P := fun r => Partition L r.regions ∧ Coalesced r.regions) ?_ ?_
  · rintro s ⟨r₀, rfl⟩
    exact ⟨partition_init L r₀, coalesced_init L r₀⟩
  · rintro s c s' ⟨hp, hc⟩ ⟨hs, hm⟩
    cases hs with
    | alloc ha =>
        have ha := (allocPages_ok.mp ha).1
        exact ⟨partition_alloc hp hm ha, coalesced_alloc hp hc hm ha⟩
    | release hr =>
        refine ⟨partition_release hp hr, ?_⟩
        obtain ⟨i, rfl, hi, ha, ht, _, _⟩ := releasePages_ok hr
        rw [ht]
        exact (release_coalesced_iff hp hc hi ha).mpr hm

/--
**Maximal coalescing, and exactly when it holds.** In every run whose calls all
meet `MergesFully`: no two free regions touch; once nothing is allocated any more
the table holds one free region that covers all of free RAM; and the next release
leaves no two free regions touching if and only if it meets the condition too.
-/
theorem free_regions_coalesced {L : Layout} {tr : List AllocCall} {r : Ram}
    (h : MergingRun L tr r) :
    (∀ a b, a < maxRegions → b < maxRegions → (r.regions a).state = .free →
        (r.regions b).state = .free →
        (r.regions a).start + (r.regions a).size ≠ (r.regions b).start)
      ∧ ((∀ i, i < maxRegions → (r.regions i).state ≠ .allocated) →
          ∃ i, i < maxRegions ∧ r.regions i = ⟨L.freeRam, freeRamSize, .free⟩
            ∧ ∀ j, j < maxRegions → j ≠ i → (r.regions j).state = .unused)
      ∧ (∀ (i : Nat) (r' : Ram), releasePages r (i : Int) = .ok r' →
          ((∀ a b, a < maxRegions → b < maxRegions → (r'.regions a).state = .free →
              (r'.regions b).state = .free →
              (r'.regions a).start + (r'.regions a).size ≠ (r'.regions b).start)
            ↔ ¬ NeighboursBelow r.regions i)) := by
  obtain ⟨hp, hc⟩ := coalesced_run h
  refine ⟨fun a b ha hb h1 h2 he => hc a b ⟨⟨ha, h1⟩, ⟨hb, h2⟩, he⟩, ?_, ?_⟩
  · intro hno
    have hfree : ∀ i, InUse r.regions i → Free r.regions i := by
      intro i hi
      refine ⟨hi.1, ?_⟩
      cases hs : (r.regions i).state with
      | unused => exact absurd hs hi.2
      | free => rfl
      | allocated => exact absurd hs (hno i hi.1)
    obtain ⟨i, hi, hlo, hhi, huniq⟩ := hp.tiles.single
      (by unfold Layout.freeRamEnd freeRamSize; omega)
      (fun i j hi hj he => hc i j ⟨hfree i hi, hfree j hj, he⟩)
    refine ⟨i, hi.1, ?_, fun j hj hne => ?_⟩
    · have hst := (hfree i hi).2
      have hsz : (r.regions i).size = freeRamSize := by
        unfold startOf at hlo; unfold stopOf Layout.freeRamEnd at hhi; omega
      unfold startOf at hlo
      rw [← hlo, ← hsz, ← hst]
    · by_contra hs
      exact hne (huniq j ⟨hj, hs⟩)
  · intro i r' hr
    obtain ⟨j, hij, hj, ha, ht, _, _⟩ := releasePages_ok hr
    obtain rfl : i = j := by omega
    rw [← release_coalesced_iff hp hc hj ha, ← ht]
    constructor
    · rintro hall a b ⟨⟨ha, h1⟩, ⟨hb, h2⟩, he⟩
      exact hall a b ha hb h1 h2 he
    · intro hco a b ha hb h1 h2 he
      exact hco a b ⟨⟨ha, h1⟩, ⟨hb, h2⟩, he⟩

/--
Two blocks are taken and given back, the later one first: each finds the rest of free
RAM to its right, and in the end all of it is one free region again.
-/
theorem free_regions_coalesced_reverse :
    ∃ r, MergingRun sampleLayout [.alloc 1 1, .alloc 1 2, .release 2, .release 1] r
      ∧ ∃ i, i < maxRegions ∧ r.regions i = ⟨sampleLayout.freeRam, freeRamSize, .free⟩
        ∧ ∀ j, j < maxRegions → j ≠ i → (r.regions j).state = .unused := by
  obtain ⟨r₀, r₁, r₂, h₀, h₁, h₂, hp₂, hf, _, _⟩ := two_blocks
  have htaken₁ : (r₂.regions 1).state = .allocated := hf.taken 1 (by omega) (by omega)
  have htaken₂ : (r₂.regions 2).state = .allocated := hf.taken 2 (by omega) (by omega)
  -- slot 2: the only free region is slot 0
  have hm₂ : ¬ NeighboursBelow r₂.regions 2 :=
    not_neighboursBelow hp₂ ⟨by decide, by simp [htaken₂]⟩ fun a b _ _ ha hb =>
      (hf.free_eq ha).trans (hf.free_eq hb).symm
  obtain ⟨r₃, hr₃⟩ : ∃ r₃, releasePages r₂ ((2 : Nat) : Int) = .ok r₃ :=
    ⟨_, releasePages_of_allocated (by decide) htaken₂⟩
  have hp₃ := partition_release hp₂ hr₃
  obtain ⟨hgone₂, hkeep₂⟩ := release_keeps hp₂ hr₃
  -- slot 1: only slot 0 is below it
  have htaken₃ : (r₃.regions 1).state = .allocated := by
    rw [hkeep₂ 1 (by omega) (Or.inl htaken₁)]; exact htaken₁
  have hm₃ : ¬ NeighboursBelow r₃.regions 1 :=
    not_neighboursBelow hp₃ ⟨by decide, by simp [htaken₃]⟩ fun a b ha hb _ _ => by omega
  obtain ⟨r₄, hr₄⟩ : ∃ r₄, releasePages r₃ ((1 : Nat) : Int) = .ok r₄ :=
    ⟨_, releasePages_of_allocated (by decide) htaken₃⟩
  obtain ⟨hgone₁, hkeep₁⟩ := release_keeps hp₃ hr₄
  have hrun : MergingRun sampleLayout [.alloc 1 1, .alloc 1 2, .release 2, .release 1] r₄ :=
    ((((Run.start h₀).snoc ⟨h₁, show u32 (1 * pageSize) ≠ 0 by decide⟩).snoc
      ⟨h₂, show u32 (1 * pageSize) ≠ 0 by decide⟩).snoc ⟨.release hr₃, hm₂⟩).snoc
        ⟨.release hr₄, hm₃⟩
  refine ⟨r₄, hrun, (free_regions_coalesced hrun).2.1 fun i hi hall => ?_⟩
  -- an allocated region would have been there all the time, beside slots 0, 1 and 2
  have hi₁ : i ≠ 1 := by rintro rfl; exact hgone₁ hall
  have hall₃ : (r₃.regions i).state = .allocated := by
    rw [← hkeep₁ i hi₁ (Or.inr hall)]; exact hall
  have hi₂ : i ≠ 2 := by rintro rfl; exact hgone₂ hall₃
  have hall₂ : (r₂.regions i).state = .allocated := by
    rw [← hkeep₂ i hi₂ (Or.inr hall₃)]; exact hall₃
  rcases Nat.eq_zero_or_pos i with rfl | hpos
  · rw [hf.rest] at hall₂; cases hall₂
  · rw [hf.beyond i (by omega) hi] at hall₂; cases hall₂

/-! ## Releasing in the order of allocation -/

/--
Two one-page blocks are allocated and released oldest first. The two end up merged in
slot 1, the rest of free RAM stays in slot 0, and the one ends where the other starts:
everything is free again, in two pieces.
-/
theorem release_in_order_leaves_seam :
    ∃ r, AllocRun sampleLayout [.alloc 1 1, .alloc 1 2, .release 1, .release 2] r
      ∧ (∀ i, i < maxRegions → (r.regions i).state ≠ .allocated)
      ∧ (r.regions 1).state = .free ∧ (r.regions 0).state = .free
      ∧ (r.regions 1).start + (r.regions 1).size = (r.regions 0).start := by
  obtain ⟨r₀, r₁, r₂, h₀, ha₁, ha₂, hp₂, hf₂, hseam₁, hseam₂⟩ := two_blocks
  have hrun₂ : AllocRun sampleLayout [.alloc 1 1, .alloc 1 2] r₂ :=
    ((Run.start h₀).snoc ⟨ha₁, by simp [inRange]⟩).snoc ⟨ha₂, by simp [inRange]⟩
  have h1 : (r₂.regions 1).state = .allocated := hf₂.taken 1 (by omega) (by omega)
  have h2 : (r₂.regions 2).state = .allocated := hf₂.taken 2 (by omega) (by omega)
  have hpos : ∀ i, i ≤ 2 → startOf r₂.regions i < stopOf r₂.regions i := by
    intro i hi
    refine hp₂.tiles.nonempty i ⟨Nat.lt_of_le_of_lt hi (by decide), ?_⟩
    rcases (by omega : i = 0 ∨ i = 1 ∨ i = 2) with rfl | rfl | rfl
    · rw [hf₂.rest]; simp
    · rw [h1]; simp
    · rw [h2]; simp
  have hp0 := hpos 0 (by omega)
  have hp1 := hpos 1 (by omega)
  have hp2 := hpos 2 (by omega)
  -- releasing slot 1: its right neighbour is allocated, nothing touches
  have hc₃ : Coalesced (markFree r₂.regions 1) := by
    intro a b ht
    have hfr : ∀ i, Free (markFree r₂.regions 1) i → i = 0 ∨ i = 1 := by
      intro i hi
      rcases (free_markFree (by decide)).mp hi with e | e
      · exact Or.inr e
      · exact Or.inl (hf₂.free_eq e)
    have he := ht.2.2
    rw [stopOf_markFree, startOf_markFree] at he
    rcases hfr a ht.1 with rfl | rfl <;> rcases hfr b ht.2.1 with rfl | rfl <;> omega
  have hpm₃ := partition_markFree hp₂ h1
  have hrel₃ := releasePages_of_allocated (r := r₂) (i := 1) (by decide) h1
  rw [merge_none hpm₃ hc₃] at hrel₃
  have hrun₃ := Run.snoc hrun₂ ⟨AllocStep.release hrel₃, trivial⟩
  -- releasing slot 2: both neighbours are free, in slots 1 and 0
  have h2' : (markFree r₂.regions 1 2).state = .allocated := by
    rw [markFree_other (by omega)]; exact h2
  have hpm₄ := partition_markFree hpm₃ h2'
  have hfree : ∀ i, i ≤ 2 → Free (markFree (markFree r₂.regions 1) 2) i := by
    intro i hi
    rw [free_markFree (by decide), free_markFree (by decide)]
    rcases (by omega : i = 0 ∨ i = 1 ∨ i = 2) with rfl | rfl | rfl
    · exact Or.inr (Or.inr ⟨by decide, hf₂.rest⟩)
    · exact Or.inr (Or.inl rfl)
    · exact Or.inl rfl
  have hL : Touch (markFree (markFree r₂.regions 1) 2) 1 2 :=
    ⟨hfree 1 (by omega), hfree 2 (by omega), by
      rw [stopOf_markFree, stopOf_markFree, startOf_markFree, startOf_markFree]; exact hseam₁⟩
  have hR : Touch (markFree (markFree r₂.regions 1) 2) 2 0 :=
    ⟨hfree 2 (by omega), hfree 0 (by omega), by
      rw [stopOf_markFree, stopOf_markFree, startOf_markFree, startOf_markFree]; exact hseam₂⟩
  obtain ⟨hmerge, hopen⟩ := merge_both_below hpm₄ hc₃ (by decide) hL hR (by omega) (by omega)
  have hrel₄ := releasePages_of_allocated
    (r := { r₂ with regions := markFree r₂.regions 1, freed := r₂.freed ++ [1] }) (i := 2)
    (by decide) h2'
  rw [hmerge] at hrel₄
  have hrun₄ := Run.snoc hrun₃ ⟨AllocStep.release hrel₄, trivial⟩
  refine ⟨_, hrun₄, ?_, hopen.1.2, hopen.2.1.2, hopen.2.2⟩
  intro i hi
  dsimp only
  by_cases hi2 : i = 2
  · subst hi2; rw [swallow_gone]; simp [Region.cleared]
  · by_cases hi1 : i = 1
    · subst hi1; rw [hopen.1.2]; simp
    · by_cases hi0 : i = 0
      · subst hi0; rw [hopen.2.1.2]; simp
      · rw [swallow_other hi1 hi2, markFree_other hi2, markFree_other hi1,
          hf₂.beyond i (by omega) hi]
        simp

end Os1000.Proof
