import Os1000.Lib.Text

/-!
# Strings, one character at a time

`HoldsString m a s` says that the string `s` is at `a`, with the zero byte behind it. Here it is
taken apart: the first character, the character at an index, the rest from one on.
-/

namespace Os1000.Lib

section

variable {m : Mem} {a : Nat} {s t : List UInt8}

theorem holdsString_cons {c : UInt8} : HoldsString m a (c :: s) ↔ m a = c ∧ c ≠ 0
    ∧ HoldsString m (a + 1) s := by
  constructor
  · intro h
    have hc : m a ≠ 0 := h.ends.head
    have ht := h.text
    rw [List.length_cons, text_cons hc, List.cons.injEq] at ht
    exact ⟨ht.1, ht.1 ▸ hc, h.ends.tail, ht.2⟩
  · rintro ⟨hc, h0, h⟩
    refine ⟨⟨fun j hj => ?_, ?_⟩, ?_⟩
    · cases j with
      | zero => rw [Nat.add_zero, hc]; exact h0
      | succ j =>
          rw [show a + (j + 1) = a + 1 + j by omega]
          exact h.ends.nonzero j (Nat.lt_of_succ_lt_succ hj)
    · rw [List.length_cons, show a + (s.length + 1) = a + 1 + s.length by omega]
      exact h.ends.zero
    · rw [List.length_cons, text_cons (hc ▸ h0), h.text, hc]

theorem holdsString_nil : HoldsString m a [] ↔ m a = 0 :=
  ⟨fun h => h.ends.zero, fun h => ⟨⟨(fun _ hj => by cases hj), h⟩, text_nil h⟩⟩

theorem HoldsString.byte (h : HoldsString m a s) {j : Nat} (hj : j < s.length) :
    s[j]? = some (m (a + j)) := by
  induction s generalizing a j with
  | nil => cases hj
  | cons c s ih =>
      obtain ⟨hc, _, hs⟩ := holdsString_cons.mp h
      cases j with
      | zero => rw [Nat.add_zero, hc]; rfl
      | succ j =>
          rw [List.getElem?_cons_succ, ih hs (Nat.lt_of_succ_lt_succ hj),
            show a + 1 + j = a + (j + 1) by omega]

theorem HoldsString.unique (h : HoldsString m a s) (h' : HoldsString m a t) : s = t := by
  have hlen := h.ends.unique h'.ends
  rw [← h.text, ← h'.text, hlen]

theorem HoldsString.nonzero (h : HoldsString m a s) : (0 : UInt8) ∉ s := by
  intro h0
  obtain ⟨j, hj, he⟩ := List.mem_iff_getElem.mp h0
  have hb := h.byte hj
  rw [List.getElem?_eq_getElem hj, he] at hb
  exact h.ends.nonzero j hj (Option.some.inj hb).symm

theorem HoldsString.drop (h : HoldsString m a (s ++ t)) : HoldsString m (a + s.length) t := by
  induction s generalizing a with
  | nil => exact h
  | cons c s ih =>
      rw [List.length_cons, show a + (s.length + 1) = a + 1 + s.length by omega]
      exact ih (holdsString_cons.mp h).2.2

/-- Bytes and a zero behind them are a string, which ends with the first zero. -/
theorem holdsString_takeWhile (hs : ∀ j, j < s.length → s[j]? = some (m (a + j)))
    (hz : m (a + s.length) = 0) : HoldsString m a (s.takeWhile (· ≠ 0)) := by
  induction s generalizing a with
  | nil => exact holdsString_nil.mpr hz
  | cons c s ih =>
      have hc : c = m a := Option.some.inj (hs 0 (by simp))
      by_cases h0 : c = 0
      · rw [List.takeWhile_cons_of_neg (by simpa using h0)]
        exact holdsString_nil.mpr (hc ▸ h0)
      · rw [List.takeWhile_cons_of_pos (by simpa using h0)]
        refine holdsString_cons.mpr ⟨hc.symm, h0, ih (fun j hj => ?_) ?_⟩
        · have := hs (j + 1) (by simpa using hj)
          rwa [List.getElem?_cons_succ, show a + (j + 1) = a + 1 + j by omega] at this
        · rwa [List.length_cons, show a + (s.length + 1) = a + 1 + s.length by omega] at hz

end

end Os1000.Lib
