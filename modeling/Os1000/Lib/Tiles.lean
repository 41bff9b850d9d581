import Mathlib.Order.Lattice

/-!
# Tiling an interval

A family of half-open blocks `[lo i, hi i)`, indexed by whatever names the
blocks, **tiles** `[a, b)` when the blocks that are in use are non-empty, lie
inside the interval, do not overlap, and leave no point uncovered.

Two moves keep a tiling: cutting the front off one block and giving it a fresh
name (`Tiles.carve`), and letting a block swallow the one that starts where it
ends (`Tiles.join`). A tiling in which no block starts where another ends can
only be the one-block tiling (`Tiles.single`).
-/

namespace Os1000.Lib

variable {ι α : Type} [LinearOrder α]

/-- The blocks named by `s` tile `[a, b)`. -/
structure Tiles (s : ι → Prop) (lo hi : ι → α) (a b : α) : Prop where
  /-- No block is empty. -/
  nonempty : ∀ i, s i → lo i < hi i
  /-- Every block lies inside the interval. -/
  bounds : ∀ i, s i → a ≤ lo i ∧ hi i ≤ b
  /-- Two different blocks do not overlap. -/
  apart : ∀ i j, s i → s j → i ≠ j → hi i ≤ lo j ∨ hi j ≤ lo i
  /-- Every point of the interval lies in some block. -/
  cover : ∀ x, a ≤ x → x < b → ∃ i, s i ∧ lo i ≤ x ∧ x < hi i

variable {s s' : ι → Prop} {lo hi lo' hi' : ι → α} {a b : α}

/-- A point lies in at most one block. -/
theorem Tiles.unique (h : Tiles s lo hi a b) {i j : ι} {x : α}
    (hi' : s i) (hj : s j) (hix : lo i ≤ x ∧ x < hi i) (hjx : lo j ≤ x ∧ x < hi j) : i = j := by
  by_contra hij
  rcases h.apart i j hi' hj hij with h1 | h1
  · exact absurd (lt_of_lt_of_le hix.2 (h1.trans hjx.1)) (lt_irrefl x)
  · exact absurd (lt_of_lt_of_le hjx.2 (h1.trans hix.1)) (lt_irrefl x)

/-- Blocks that start at the same point are the same block. -/
theorem Tiles.eq_of_lo_eq (h : Tiles s lo hi a b) {i j : ι} (his : s i) (hjs : s j)
    (he : lo i = lo j) : i = j :=
  h.unique his hjs ⟨le_refl _, h.nonempty i his⟩ ⟨he ▸ le_refl _, he ▸ h.nonempty j hjs⟩

/-- Blocks that end at the same point are the same block. -/
theorem Tiles.eq_of_hi_eq (h : Tiles s lo hi a b) {i j : ι} (his : s i) (hjs : s j)
    (he : hi i = hi j) : i = j := by
  by_contra hij
  have h1 := h.nonempty i his
  have h2 := h.nonempty j hjs
  rcases h.apart i j his hjs hij with h3 | h3
  · exact absurd (h2.trans_le (he ▸ h3)) (lt_irrefl _)
  · exact absurd (h1.trans_le (he ▸ h3)) (lt_irrefl _)

/--
**Cutting the front off a block.** The unused name `n` takes `[lo f, m)` and `f`
keeps `[m, hi f)`, or disappears when the cut took all of it.
-/
theorem Tiles.carve (h : Tiles s lo hi a b) {f n : ι} {m : α} (hf : s f) (hn : ¬ s n)
    (hm : lo f < m) (hm' : m ≤ hi f)
    (hsn : s' n) (hln : lo' n = lo f) (hhn : hi' n = m)
    (hsf : s' f ↔ m < hi f) (hlf : s' f → lo' f = m) (hhf : s' f → hi' f = hi f)
    (hsi : ∀ i, i ≠ f → i ≠ n → (s' i ↔ s i))
    (hli : ∀ i, i ≠ f → i ≠ n → s i → lo' i = lo i)
    (hhi : ∀ i, i ≠ f → i ≠ n → s i → hi' i = hi i) : Tiles s' lo' hi' a b := by
  have hfn : f ≠ n := fun e => hn (e ▸ hf)
  -- every new block is a sub-block of an old one, and only `n` and `f` share theirs
  have old : ∀ i, s' i → (i = n ∧ lo' i = lo f ∧ hi' i = m) ∨
      (i = f ∧ lo' i = m ∧ hi' i = hi f ∧ m < hi f) ∨
      (i ≠ f ∧ i ≠ n ∧ s i ∧ lo' i = lo i ∧ hi' i = hi i) := by
    intro i hs
    by_cases hin : i = n
    · subst hin; exact Or.inl ⟨rfl, hln, hhn⟩
    · by_cases hif : i = f
      · subst hif; exact Or.inr (Or.inl ⟨rfl, hlf hs, hhf hs, hsf.mp hs⟩)
      · have his := (hsi i hif hin).mp hs
        exact Or.inr (Or.inr ⟨hif, hin, his, hli i hif hin his, hhi i hif hin his⟩)
  refine ⟨?_, ?_, ?_, ?_⟩
  · intro i hs
    rcases old i hs with ⟨_, e1, e2⟩ | ⟨_, e1, e2, e3⟩ | ⟨_, _, his, e1, e2⟩ <;> rw [e1, e2]
    · exact hm
    · exact e3
    · exact h.nonempty i his
  · intro i hs
    rcases old i hs with ⟨_, e1, e2⟩ | ⟨_, e1, e2, e3⟩ | ⟨_, _, his, e1, e2⟩ <;> rw [e1, e2]
    · exact ⟨(h.bounds f hf).1, hm'.trans (h.bounds f hf).2⟩
    · exact ⟨(h.bounds f hf).1.trans hm.le, (h.bounds f hf).2⟩
    · exact h.bounds i his
  · intro i j hsi' hsj' hij
    rcases old i hsi' with ⟨e0, e1, e2⟩ | ⟨e0, e1, e2, e3⟩ | ⟨n1, n2, his, e1, e2⟩ <;>
      rcases old j hsj' with ⟨d0, d1, d2⟩ | ⟨d0, d1, d2, d3⟩ | ⟨m1, m2, hjs, d1, d2⟩ <;>
      rw [e1, e2, d1, d2]
    · exact absurd (e0.trans d0.symm) hij
    · exact Or.inl (le_refl _)
    · rcases h.apart f j hf hjs (Ne.symm m1) with h1 | h1
      · exact Or.inl (hm'.trans h1)
      · exact Or.inr h1
    · exact Or.inr (le_refl _)
    · exact absurd (e0.trans d0.symm) hij
    · rcases h.apart f j hf hjs (Ne.symm m1) with h1 | h1
      · exact Or.inl h1
      · exact Or.inr (h1.trans hm.le)
    · rcases h.apart i f his hf n1 with h1 | h1
      · exact Or.inl h1
      · exact Or.inr (hm'.trans h1)
    · rcases h.apart i f his hf n1 with h1 | h1
      · exact Or.inl (h1.trans hm.le)
      · exact Or.inr h1
    · exact h.apart i j his hjs hij
  · intro x hx hxb
    obtain ⟨i, his, h1, h2⟩ := h.cover x hx hxb
    by_cases hif : i = f
    · subst hif
      rcases lt_or_ge x m with hxm | hxm
      · exact ⟨n, hsn, hln ▸ h1, hhn ▸ hxm⟩
      · have hs : s' i := hsf.mpr (lt_of_le_of_lt hxm h2)
        exact ⟨i, hs, (hlf hs) ▸ hxm, (hhf hs) ▸ h2⟩
    · have hin : i ≠ n := fun e => hn (e ▸ his)
      exact ⟨i, (hsi i hif hin).mpr his, (hli i hif hin his) ▸ h1, (hhi i hif hin his) ▸ h2⟩

/-- **Swallowing the next block.** `i` ends where `j` starts; `i` takes both. -/
theorem Tiles.join (h : Tiles s lo hi a b) {i j : ι} (hi₀ : s i) (hj₀ : s j) (hij : i ≠ j)
    (ht : hi i = lo j)
    (hsi : s' i) (hli : lo' i = lo i) (hhi : hi' i = hi j) (hsj : ¬ s' j)
    (hsk : ∀ k, k ≠ i → k ≠ j → (s' k ↔ s k))
    (hlk : ∀ k, k ≠ i → k ≠ j → s k → lo' k = lo k)
    (hhk : ∀ k, k ≠ i → k ≠ j → s k → hi' k = hi k) : Tiles s' lo' hi' a b := by
  have old : ∀ k, s' k → (k = i ∧ lo' k = lo i ∧ hi' k = hi j) ∨
      (k ≠ i ∧ k ≠ j ∧ s k ∧ lo' k = lo k ∧ hi' k = hi k) := by
    intro k hs
    by_cases hki : k = i
    · subst hki; exact Or.inl ⟨rfl, hli, hhi⟩
    · have hkj : k ≠ j := fun e => hsj (e ▸ hs)
      have hk := (hsk k hki hkj).mp hs
      exact Or.inr ⟨hki, hkj, hk, hlk k hki hkj hk, hhk k hki hkj hk⟩
  have hlen : lo i < hi j := (h.nonempty i hi₀).trans (ht ▸ h.nonempty j hj₀)
  -- a third block lies on one side of both halves
  have side : ∀ k, s k → k ≠ i → k ≠ j → hi j ≤ lo k ∨ hi k ≤ lo i := by
    intro k hk hki hkj
    rcases h.apart i k hi₀ hk (Ne.symm hki) with h1 | h1
    · rcases h.apart j k hj₀ hk (Ne.symm hkj) with h2 | h2
      · exact Or.inl h2
      · exact absurd ((h.nonempty k hk).trans_le (h2.trans (ht ▸ h1))) (lt_irrefl _)
    · exact Or.inr h1
  refine ⟨?_, ?_, ?_, ?_⟩
  · intro k hs
    rcases old k hs with ⟨_, e1, e2⟩ | ⟨_, _, hk, e1, e2⟩ <;> rw [e1, e2]
    · exact hlen
    · exact h.nonempty k hk
  · intro k hs
    rcases old k hs with ⟨_, e1, e2⟩ | ⟨_, _, hk, e1, e2⟩ <;> rw [e1, e2]
    · exact ⟨(h.bounds i hi₀).1, (h.bounds j hj₀).2⟩
    · exact h.bounds k hk
  · intro k l hsk' hsl' hkl
    rcases old k hsk' with ⟨e0, e1, e2⟩ | ⟨n1, n2, hk, e1, e2⟩ <;>
      rcases old l hsl' with ⟨d0, d1, d2⟩ | ⟨m1, m2, hl, d1, d2⟩ <;> rw [e1, e2, d1, d2]
    · exact absurd (e0.trans d0.symm) hkl
    · exact side l hl m1 m2
    · exact (side k hk n1 n2).symm
    · exact h.apart k l hk hl hkl
  · intro x hx hxb
    obtain ⟨k, hk, h1, h2⟩ := h.cover x hx hxb
    by_cases hki : k = i
    · subst hki
      exact ⟨k, hsi, hli ▸ h1, hhi ▸ h2.trans (ht ▸ h.nonempty j hj₀)⟩
    · by_cases hkj : k = j
      · subst hkj
        exact ⟨i, hsi, hli ▸ ((h.nonempty i hi₀).le.trans (ht ▸ h1)), hhi ▸ h2⟩
      · exact ⟨k, (hsk k hki hkj).mpr hk, (hlk k hki hkj hk) ▸ h1, (hhk k hki hkj hk) ▸ h2⟩

/--
**No touching blocks means one block.** The block at `a` must reach `b`, because
the point where it ended would otherwise start another; and then nothing else fits.
-/
theorem Tiles.single (h : Tiles s lo hi a b) (hab : a < b)
    (hno : ∀ i j, s i → s j → hi i ≠ lo j) :
    ∃ i, s i ∧ lo i = a ∧ hi i = b ∧ ∀ j, s j → j = i := by
  obtain ⟨i, his, h1, h2⟩ := h.cover a (le_refl a) hab
  have hlo : lo i = a := le_antisymm h1 (h.bounds i his).1
  have hhi : hi i = b := by
    rcases lt_or_eq_of_le (h.bounds i his).2 with hlt | he
    · obtain ⟨j, hjs, h3, h4⟩ := h.cover (hi i) h2.le hlt
      rcases lt_or_eq_of_le h3 with h5 | h5
      · -- the block over the seam would also overlap `i`
        have hji : j = i := by
          by_contra hne
          rcases h.apart j i hjs his hne with h6 | h6
          · exact absurd ((h.nonempty i his).trans (h4.trans_le h6)) (lt_irrefl _)
          · exact absurd (h5.trans_le h6) (lt_irrefl _)
        exact absurd (hji ▸ h4) (lt_irrefl _)
      · exact absurd h5.symm (hno i j his hjs)
    · exact he
  refine ⟨i, his, hlo, hhi, fun j hjs => ?_⟩
  by_contra hne
  rcases h.apart j i hjs his hne with h6 | h6
  · have := (h.nonempty j hjs).trans_le (h6.trans (hlo ▸ (h.bounds j hjs).1))
    exact absurd this (lt_irrefl _)
  · have := (h.nonempty j hjs).trans_le ((h.bounds j hjs).2.trans (hhi ▸ h6))
    exact absurd this (lt_irrefl _)

end Os1000.Lib
