import Mathlib.Data.List.Induction

/-!
# Positions in a trace

What happened last, by its position. A trace only grows at its end, so positions are names
for events that stay valid, and a statement about what came before a position is settled
once and for all.
-/

namespace Os1000.Lib

variable {ε : Type} {p : ε → Prop} {tr : List ε} {e x : ε} {i j n : Nat}

/-- The last event of kind `p` is at position `i`. -/
def LastAt (p : ε → Prop) (tr : List ε) (i : Nat) : Prop :=
  (∃ e, tr[i]? = some e ∧ p e) ∧ ∀ j e, i < j → tr[j]? = some e → ¬ p e

theorem lt_of_getElem? (h : tr[i]? = some x) : i < tr.length :=
  (List.getElem?_eq_some_iff.mp h).1

theorem getElem?_snoc (h : tr[i]? = some x) : (tr ++ [e])[i]? = some x := by
  rw [List.getElem?_append_left (lt_of_getElem? h)]
  exact h

/-- An event of a longer trace is an old one or the new one. -/
theorem getElem?_snoc_iff :
    (tr ++ [e])[i]? = some x ↔ tr[i]? = some x ∨ (i = tr.length ∧ e = x) := by
  by_cases hi : i < tr.length
  · rw [List.getElem?_append_left hi]
    exact ⟨Or.inl, fun h => h.elim id fun h => absurd h.1 (by omega)⟩
  · rw [List.getElem?_append_right (by omega), List.getElem?_eq_none (l := tr) (by omega)]
    by_cases hl : i = tr.length
    · rw [hl, Nat.sub_self]
      simp
    · rw [List.getElem?_eq_none (by rw [List.length_singleton]; omega)]
      simp [hl]

/-- What came before a position is not touched by what comes later. -/
theorem take_snoc (h : n ≤ tr.length) : (tr ++ [e]).take n = tr.take n :=
  List.take_append_of_le_length h

theorem LastAt.lt (h : LastAt p tr i) : i < tr.length := by
  obtain ⟨⟨e, he, _⟩, _⟩ := h
  exact lt_of_getElem? he

theorem LastAt.unique (h : LastAt p tr i) (h' : LastAt p tr j) : i = j := by
  obtain ⟨⟨e, he, hp⟩, hlast⟩ := h
  obtain ⟨⟨e', he', hp'⟩, hlast'⟩ := h'
  rcases Nat.lt_trichotomy i j with hlt | heq | hlt
  · exact absurd hp' (hlast j e' hlt he')
  · exact heq
  · exact absurd hp (hlast' i e hlt he)

/-- A new event of the kind is the last one. -/
theorem lastAt_snoc (h : p e) : LastAt p (tr ++ [e]) tr.length := by
  refine ⟨⟨e, getElem?_snoc_iff.mpr (Or.inr ⟨rfl, rfl⟩), h⟩, fun j x hj hx => ?_⟩
  have := lt_of_getElem? hx
  rw [List.length_append, List.length_singleton] at this
  omega

/-- An event of another kind changes nothing. -/
theorem LastAt.snoc (h : LastAt p tr i) (hn : ¬ p e) : LastAt p (tr ++ [e]) i := by
  obtain ⟨⟨x, hx, hp⟩, hlast⟩ := h
  refine ⟨⟨x, getElem?_snoc hx, hp⟩, fun j y hj hy => ?_⟩
  rcases getElem?_snoc_iff.mp hy with hy | ⟨_, rfl⟩
  · exact hlast j y hj hy
  · exact hn

/-- The event at the last position, in the whole trace. -/
theorem LastAt.get (h : LastAt p (tr.take n) i) : i < n ∧ ∃ e, tr[i]? = some e ∧ p e := by
  obtain ⟨⟨e, he, hp⟩, _⟩ := h
  rw [List.getElem?_take] at he
  split at he
  · rename_i hlt
    exact ⟨hlt, e, he, hp⟩
  · cases he

/-- Nothing of the kind lies between the last one and the end. -/
theorem LastAt.after (h : LastAt p (tr.take n) i) (hj : i < j) (hn : j < n)
    (hx : tr[j]? = some x) : ¬ p x := by
  refine h.2 j x hj ?_
  rw [List.getElem?_take, if_pos hn]
  exact hx

/-- There is a last one, or there is none. -/
theorem lastAt_or_none (p : ε → Prop) (tr : List ε) :
    (∃ i, LastAt p tr i) ∨ ∀ (i : Nat) e, tr[i]? = some e → ¬ p e := by
  induction tr using List.reverseRecOn with
  | nil =>
      refine Or.inr fun i e he => ?_
      rw [List.getElem?_nil] at he
      cases he
  | append_singleton tr x ih =>
      by_cases hx : p x
      · exact Or.inl ⟨tr.length, lastAt_snoc hx⟩
      · rcases ih with ⟨i, hi⟩ | hnone
        · exact Or.inl ⟨i, hi.snoc hx⟩
        · refine Or.inr fun i e he => ?_
          rcases getElem?_snoc_iff.mp he with he | ⟨_, rfl⟩
          · exact hnone i e he
          · exact hx

/-! ## An array that is written

Some events of a trace write one cell of an array. -/

section Array

variable {κ α : Type} [DecidableEq κ] {write : ε → Option (κ × α)} {a : κ → α} {k : κ} {v : α}

/-- The event writes cell `k`. -/
def WritesTo (write : ε → Option (κ × α)) (k : κ) (e : ε) : Prop := ∃ v, write e = some (k, v)

/-- An array after an event. -/
def replayStep (write : ε → Option (κ × α)) (a : κ → α) (e : ε) : κ → α :=
  match write e with
  | some (k, v) => Function.update a k v
  | none => a

/-- An array after a trace. -/
def replay (write : ε → Option (κ × α)) (a : κ → α) (tr : List ε) : κ → α :=
  tr.foldl (replayStep write) a

theorem replay_snoc : replay write a (tr ++ [e]) = replayStep write (replay write a tr) e := by
  unfold replay
  rw [List.foldl_append]
  rfl

theorem replayStep_none (h : write e = none) : replayStep write a e = a := by
  unfold replayStep
  rw [h]

theorem replayStep_some (h : write e = some (k, v)) : replayStep write a e = Function.update a k v := by
  unfold replayStep
  rw [h]

theorem replayStep_of_not (h : ¬ WritesTo write k e) : replayStep write a e k = a k := by
  cases hw : write e with
  | none => rw [replayStep_none hw]
  | some kv =>
      rw [replayStep_some hw]
      refine Function.update_of_ne (fun hk => h ⟨kv.2, ?_⟩) _ _
      rw [hw, hk]

/-- **A cell holds what was written to it last.** -/
theorem replay_last (h : LastAt (WritesTo write k) tr i) (hi : tr[i]? = some e)
    (hw : write e = some (k, v)) : replay write a tr k = v := by
  induction tr using List.reverseRecOn with
  | nil => cases hi
  | append_singleton tr x ih =>
      rw [replay_snoc]
      rcases getElem?_snoc_iff.mp hi with hi' | ⟨rfl, rfl⟩
      · -- the cell was not written again
        have hx : ¬ WritesTo write k x := h.2 tr.length x (lt_of_getElem? hi')
          (getElem?_snoc_iff.mpr (Or.inr ⟨rfl, rfl⟩))
        rw [replayStep_of_not hx]
        exact ih ⟨⟨e, hi', v, hw⟩, fun j y hj hy => h.2 j y hj (getElem?_snoc hy)⟩ hi'
      · rw [replayStep_some hw, Function.update_self]

/-- A cell that was not written is as it was. -/
theorem replay_untouched (h : ∀ (i : Nat) e, tr[i]? = some e → ¬ WritesTo write k e) :
    replay write a tr k = a k := by
  induction tr using List.reverseRecOn with
  | nil => rfl
  | append_singleton tr x ih =>
      rw [replay_snoc, replayStep_of_not (h _ x (getElem?_snoc_iff.mpr (Or.inr ⟨rfl, rfl⟩)))]
      exact ih fun i e hi => h i e (getElem?_snoc hi)

end Array

end Os1000.Lib
