import Mathlib.Data.List.Basic
import Mathlib.Logic.Function.Basic

/-!
# Maps in a fixed number of slots

A table of `n` slots, each empty or holding a key with a value, searched from slot 0
upwards. As long as no key is in two slots, such a table is a finite map: putting a
binding where its key already is, or anywhere if the key is in no slot, changes the
value of that key and drops at most the one key that was in the slot.

`latest` is what a map without a bound on its size would hold after a history of
bindings; a bounded table that forgets can only be compared to it one way.

A `Ledger` says the same of owners and handles: no handle has two owners, and every
handle held is good for its owner.
-/

namespace Os1000.Lib

variable {κ α : Type}

/-- A slot is empty or holds a key and its value. -/
abbrev Slots (κ α : Type) := Nat → Option (κ × α)

/-- Slot `i` holds key `k`. -/
def Holding (t : Slots κ α) (k : κ) (i : Nat) : Prop := (t i).map Prod.fst = some k

variable [DecidableEq κ]

instance (t : Slots κ α) (k : κ) (i : Nat) : Decidable (Holding t k i) :=
  inferInstanceAs (Decidable (_ = _))

/-- The first of the `n` slots that holds `k`. -/
def slotOf (t : Slots κ α) (n : Nat) (k : κ) : Option Nat :=
  (List.range n).find? fun i => decide (Holding t k i)

/-- The value of `k`. -/
def valueOf (t : Slots κ α) (n : Nat) (k : κ) : Option α :=
  (slotOf t n k).bind fun i => (t i).map Prod.snd

/-- No key is in two slots. -/
def OneEach (t : Slots κ α) (n : Nat) : Prop :=
  ∀ k i j, i < n → j < n → Holding t k i → Holding t k j → i = j

/-- The value last bound to `k`, in a history with the oldest binding first. -/
def latest (h : List (κ × α)) (k : κ) : Option α :=
  (h.reverse.find? fun b => decide (b.1 = k)).map Prod.snd

variable {t : Slots κ α} {n i j : Nat} {k k' : κ} {v : α}

theorem slotOf_some (h : slotOf t n k = some i) : i < n ∧ Holding t k i := by
  unfold slotOf at h
  rw [List.find?_range_eq_some, decide_eq_true_eq] at h
  exact ⟨List.mem_range.mp h.2.1, h.1⟩

theorem slotOf_none (h : slotOf t n k = none) (hi : i < n) : ¬ Holding t k i := by
  unfold slotOf at h
  rw [List.find?_eq_none] at h
  simpa using h i (List.mem_range.mpr hi)

/-- Where no key is in two slots, the slot that holds a key is the one found. -/
theorem OneEach.slotOf_eq (h : OneEach t n) (hi : i < n) (hk : Holding t k i) :
    slotOf t n k = some i := by
  cases hs : slotOf t n k with
  | none => exact absurd hk (slotOf_none hs hi)
  | some j =>
      obtain ⟨hj, hkj⟩ := slotOf_some hs
      rw [h k j i hj hi hkj hk]

theorem OneEach.valueOf_eq (h : OneEach t n) (hi : i < n) (hk : t i = some (k, v)) :
    valueOf t n k = some v := by
  have hh : Holding t k i := by unfold Holding; rw [hk]; rfl
  unfold valueOf
  rw [h.slotOf_eq hi hh, Option.bind_some, hk]
  rfl

theorem valueOf_some (h : valueOf t n k = some v) : ∃ i, i < n ∧ t i = some (k, v) := by
  unfold valueOf at h
  rw [Option.bind_eq_some_iff] at h
  obtain ⟨i, hs, hv⟩ := h
  obtain ⟨hi, hk⟩ := slotOf_some hs
  refine ⟨i, hi, ?_⟩
  unfold Holding at hk
  cases ht : t i with
  | none => rw [ht] at hk; cases hk
  | some b =>
      rw [ht, Option.map_some, Option.some_inj] at hk hv
      rw [← hk, ← hv]

theorem valueOf_none_iff : valueOf t n k = none ↔ ∀ j, j < n → ¬ Holding t k j := by
  unfold valueOf
  constructor
  · intro h j hj hk
    cases hs : slotOf t n k with
    | none => exact slotOf_none hs hj hk
    | some i =>
        obtain ⟨b, hb, _⟩ := Option.map_eq_some_iff.mp (slotOf_some hs).2
        rw [hs, Option.bind_some, hb] at h
        cases h
  · intro h
    cases hs : slotOf t n k with
    | none => rfl
    | some i => exact absurd (slotOf_some hs).2 (h i (slotOf_some hs).1)

omit [DecidableEq κ] in
theorem holding_update (hk : k' ≠ k) :
    Holding (Function.update t i (some (k, v))) k' j ↔ j ≠ i ∧ Holding t k' j := by
  unfold Holding
  by_cases hj : j = i
  · subst hj
    rw [Function.update_self]
    refine ⟨fun h => absurd ?_ hk.symm, fun h => absurd rfl h.1⟩
    exact Option.some.inj h
  · rw [Function.update_of_ne hj]
    exact ⟨fun h => ⟨hj, h⟩, fun h => h.2⟩

omit [DecidableEq κ] in
theorem holding_update_self : Holding (Function.update t i (some (k, v))) k j ↔
    j = i ∨ Holding t k j := by
  unfold Holding
  by_cases hj : j = i
  · subst hj
    rw [Function.update_self]
    exact ⟨fun _ => Or.inl rfl, fun _ => rfl⟩
  · rw [Function.update_of_ne hj]
    exact ⟨Or.inr, fun h => h.resolve_left hj⟩

/-- A binding may be put where its key is, or anywhere if the key is nowhere. -/
def Admits (t : Slots κ α) (n : Nat) (k : κ) (i : Nat) : Prop :=
  i < n ∧ ∀ j, j < n → Holding t k j → j = i

theorem OneEach.put (h : OneEach t n) (hi : Admits t n k i) :
    OneEach (Function.update t i (some (k, v))) n := by
  intro k' a b ha hb hka hkb
  by_cases hk : k' = k
  · subst hk
    have hone : ∀ j, j < n → Holding (Function.update t i (some (k', v))) k' j → j = i := by
      intro j hj hkj
      rcases holding_update_self.mp hkj with e | e
      · exact e
      · exact hi.2 j hj e
    rw [hone a ha hka, hone b hb hkb]
  · exact h k' a b ha hb ((holding_update hk).mp hka).2 ((holding_update hk).mp hkb).2

theorem OneEach.valueOf_put (h : OneEach t n) (hi : Admits t n k i) :
    valueOf (Function.update t i (some (k, v))) n k = some v :=
  (h.put hi).valueOf_eq hi.1 (Function.update_self ..)

/-- Another key keeps its value, unless it was in that slot; then it is gone. -/
theorem OneEach.valueOf_put_other (h : OneEach t n) (hi : Admits t n k i) (hk : k' ≠ k) :
    valueOf (Function.update t i (some (k, v))) n k'
      = if Holding t k' i then none else valueOf t n k' := by
  have hput : OneEach (Function.update t i (some (k, v))) n := h.put hi
  split
  · rename_i hold
    cases hv : valueOf (Function.update t i (some (k, v))) n k' with
    | none => rfl
    | some w =>
        obtain ⟨j, hj, htj⟩ := valueOf_some hv
        have hkj : Holding (Function.update t i (some (k, v))) k' j := by
          unfold Holding; rw [htj]; rfl
        obtain ⟨hne, hkj'⟩ := (holding_update hk).mp hkj
        exact absurd (h k' j i hj hi.1 hkj' hold) hne
  · rename_i hold
    cases hv : valueOf t n k' with
    | some w =>
        obtain ⟨j, hj, htj⟩ := valueOf_some hv
        refine hput.valueOf_eq hj ?_
        rw [Function.update_of_ne, htj]
        rintro rfl
        exact hold (by unfold Holding; rw [htj]; rfl)
    | none =>
        cases hv' : valueOf (Function.update t i (some (k, v))) n k' with
        | none => rfl
        | some w =>
            obtain ⟨j, hj, htj⟩ := valueOf_some hv'
            have hne : j ≠ i := by
              rintro rfl
              rw [Function.update_self] at htj
              injection htj with htj
              injection htj with htj
              exact hk htj.symm
            rw [Function.update_of_ne hne] at htj
            rw [h.valueOf_eq hj htj] at hv
            cases hv

/-! ## Histories -/

theorem latest_snoc_self (h : List (κ × α)) : latest (h ++ [(k, v)]) k = some v := by
  unfold latest
  rw [List.reverse_append]
  simp

theorem latest_snoc_other (h : List (κ × α)) (hk : k' ≠ k) :
    latest (h ++ [(k, v)]) k' = latest h k' := by
  unfold latest
  rw [List.reverse_append]
  simp [hk.symm]

theorem mem_of_latest {h : List (κ × α)} (hl : latest h k = some v) : (k, v) ∈ h := by
  unfold latest at hl
  rw [Option.map_eq_some_iff] at hl
  obtain ⟨b, hb, rfl⟩ := hl
  have hk : b.1 = k := by simpa using List.find?_some hb
  rw [← hk]
  exact List.mem_reverse.mp (List.mem_of_find?_eq_some hb)

/-- What the table holds is what was bound last. -/
def UpToDate (t : Slots κ α) (n : Nat) (h : List (κ × α)) : Prop :=
  ∀ k v, valueOf t n k = some v → latest h k = some v

theorem UpToDate.put {h : List (κ × α)} (hu : UpToDate t n h) (ho : OneEach t n)
    (hi : Admits t n k i) :
    UpToDate (Function.update t i (some (k, v))) n (h ++ [(k, v)]) := by
  intro k' w hw
  by_cases hk : k' = k
  · subst hk
    rw [ho.valueOf_put hi] at hw
    rw [latest_snoc_self]
    exact hw
  · rw [latest_snoc_other h hk]
    rw [ho.valueOf_put_other hi hk] at hw
    split at hw
    · cases hw
    · exact hu k' w hw

/-! ## Exclusive handles

`H o r` says that owner `o` holds `r`. The ledger stays in order when an owner acquires a
handle nobody could have held, when a handle is given up, and when the goodness of the
handles held survives some other change.
-/

section

variable {ο η : Type}

/-- Every handle has one owner, for whom it is good. -/
structure Ledger (H good : ο → η → Prop) : Prop where
  excl : ∀ {o o' r}, H o r → H o' r → o = o'
  valid : ∀ {o r}, H o r → good o r

variable {H H' good good' : ο → η → Prop}

/-- Acquiring a handle that was good for nobody. -/
theorem Ledger.acquire (h : Ledger H good) {o : ο} {n : η} (hfresh : ∀ o', ¬ good o' n)
    (hH : ∀ o' r, H' o' r → H o' r ∨ (o' = o ∧ r = n))
    (hgood : ∀ o' r, good o' r → good' o' r) (hn : good' o n) : Ledger H' good' := by
  refine ⟨?_, ?_⟩
  · intro o₁ o₂ r h1 h2
    rcases hH o₁ r h1 with g1 | ⟨rfl, rfl⟩ <;> rcases hH o₂ _ h2 with g2 | ⟨e, e'⟩
    · exact h.excl g1 g2
    · exact absurd (h.valid g1) (e' ▸ hfresh o₁)
    · exact absurd (h.valid g2) (hfresh o₂)
    · exact e.symm
  · intro o' r h1
    rcases hH o' r h1 with g1 | ⟨rfl, rfl⟩
    · exact hgood o' r (h.valid g1)
    · exact hn

/-- Giving handles up, while those that are kept stay good. -/
theorem Ledger.shrink (h : Ledger H good) (hH : ∀ o r, H' o r → H o r)
    (hgood : ∀ o r, H' o r → good o r → good' o r) : Ledger H' good' :=
  ⟨fun h1 h2 => h.excl (hH _ _ h1) (hH _ _ h2), fun h1 => hgood _ _ h1 (h.valid (hH _ _ h1))⟩

end

end Os1000.Lib
