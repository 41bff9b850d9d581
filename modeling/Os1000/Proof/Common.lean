import Os1000.Kernel.Filesystem
import Os1000.Lib.Run

/-!
# What the C library does

One statement for each routine: within bounds it returns, and what it leaves is a
block copied or a comparison of strings. The converses say that a call that returned
was within bounds.
-/

namespace Os1000.Proof

open Os1000 Lib

variable {m dst src : Mem} {a d e s n k dEnd sEnd : Nat}

theorem loadAt_ok (h : a < e) : loadAt m a e = .ok (m a) := if_pos h

theorem loadAt_stops (h : e ≤ a) : loadAt m a e = .error .outOfBounds := if_neg (by omega)

theorem storeAt_ok {v : UInt8} (h : a < e) : storeAt m a e v = .ok (Function.update m a v) :=
  if_pos h

theorem storeAt_stops {v : UInt8} (h : e ≤ a) : storeAt m a e v = .error .outOfBounds :=
  if_neg (by omega)

/-! ## Copying -/

theorem memcpy_ok (hd : d + n ≤ dEnd) (hs : s + n ≤ sEnd) :
    memcpy dst d dEnd src s sEnd n = .ok (blit dst d src s n) := by
  induction n generalizing dst d s with
  | zero => rw [memcpy, blit_zero]
  | succ n ih =>
      rw [memcpy, loadAt_ok (by omega), ok_bind, storeAt_ok (by omega), ok_bind, blit_succ]
      exact ih (by omega) (by omega)

/-- A copy that would leave one of the arrays stops there. -/
theorem memcpy_stops (hd : d ≤ dEnd) (hs : s ≤ sEnd) (h : dEnd < d + n ∨ sEnd < s + n) :
    memcpy dst d dEnd src s sEnd n = .error .outOfBounds := by
  induction n generalizing dst d s with
  | zero => omega
  | succ n ih =>
      rw [memcpy]
      by_cases h1 : s < sEnd
      · rw [loadAt_ok h1, ok_bind]
        by_cases h2 : d < dEnd
        · rw [storeAt_ok h2, ok_bind]
          exact ih (by omega) (by omega) (by omega)
        · rw [storeAt_stops (by omega), error_bind]
      · rw [loadAt_stops (by omega), error_bind]

/-- What a copy that returned has done. -/
theorem memcpy_bounds {r : Mem} (hd : d ≤ dEnd) (hs : s ≤ sEnd)
    (h : memcpy dst d dEnd src s sEnd n = .ok r) :
    d + n ≤ dEnd ∧ s + n ≤ sEnd ∧ r = blit dst d src s n := by
  by_cases hb : dEnd < d + n ∨ sEnd < s + n
  · rw [memcpy_stops hd hs hb] at h
    cases h
  · rw [memcpy_ok (by omega) (by omega)] at h
    injection h with h
    exact ⟨by omega, by omega, h.symm⟩

theorem memset_ok {c : UInt8} (h : a + n ≤ e) :
    memset m a e c n = .ok (blit m a (fun _ => c) 0 n) := by
  induction n generalizing m a with
  | zero => rw [memset, blit_zero]
  | succ n ih =>
      rw [memset, storeAt_ok (by omega), ok_bind, blit_succ]
      exact ih (by omega)

/-! ## Strings -/

theorem strcpy_ok (hk : Ends src s k) (hs : s + k < sEnd) (hd : d + k < dEnd) :
    strcpy dst d dEnd src s sEnd = .ok (blit dst d src s (k + 1)) := by
  induction k generalizing dst d s with
  | zero =>
      have h0 : src s = 0 := hk.zero
      rw [strcpy, if_pos (by omega), if_pos h0, storeAt_ok (by omega), blit_succ, blit_zero, h0]
  | succ k ih =>
      rw [strcpy, if_pos (by omega), if_neg hk.head, storeAt_ok (by omega), ok_bind, blit_succ]
      exact ih hk.tail (by omega) (by omega)

/-- A string longer than its destination stops the copy. -/
theorem strcpy_stops (hne : ∀ j, d + j < dEnd → src (s + j) ≠ 0) :
    strcpy dst d dEnd src s sEnd = .error .outOfBounds := by
  induction hn : sEnd - s generalizing dst d s with
  | zero => rw [strcpy, if_neg (by omega)]
  | succ n ih =>
      rw [strcpy, if_pos (by omega)]
      by_cases hd : d < dEnd
      · have h0 : src s ≠ 0 := hne 0 hd
        rw [if_neg h0, storeAt_ok hd, ok_bind]
        refine ih ?_ (by omega)
        intro j hj
        rw [show s + 1 + j = s + (j + 1) by omega]
        exact hne (j + 1) (by omega)
      · rw [storeAt_stops (by omega), storeAt_stops (by omega), error_bind, ite_self]

/-- **`strcmp` decides whether two strings are the same**, when one of them ends. -/
theorem strcmp_ok (s1 : Mem) (a aEnd : Nat) (s2 : Mem) (b bEnd : Nat)
    (hk : Ends s1 a k ∨ Ends s2 b k) (ha : a + k < aEnd) (hb : b + k < bEnd) :
    ∃ r, strcmp s1 a aEnd s2 b bEnd = .ok r ∧ (r = 0 ↔ ∀ j, j ≤ k → s1 (a + j) = s2 (b + j)) := by
  induction k generalizing a b with
  | zero =>
      rw [strcmp, if_pos (by omega), loadAt_ok (by omega), ok_bind]
      have hstop : ¬ (s1 a ≠ 0 ∧ s2 b ≠ 0 ∧ s1 a = s2 b) := by
        rcases hk with hk | hk
        · exact fun h => h.1 hk.zero
        · exact fun h => h.2.1 hk.zero
      refine ⟨((s1 a).toNat : Int) - ((s2 b).toNat : Int), ?_, ?_⟩
      · rw [if_neg hstop]
        rfl
      · constructor
        · intro h j hj
          obtain rfl : j = 0 := by omega
          exact UInt8.toNat_inj.mp (by simpa using (by omega : (s1 a).toNat = (s2 b).toNat))
        · intro h
          have h0 : s1 a = s2 b := h 0 (Nat.le_refl 0)
          rw [h0]
          omega
  | succ k ih =>
      rw [strcmp, if_pos (by omega), loadAt_ok (by omega), ok_bind]
      by_cases hgo : s1 a ≠ 0 ∧ s2 b ≠ 0 ∧ s1 a = s2 b
      · obtain ⟨r, hr, hiff⟩ := ih (a + 1) (b + 1) (hk.imp Ends.tail Ends.tail) (by omega) (by omega)
        refine ⟨r, ?_, hiff.trans ⟨?_, ?_⟩⟩
        · rw [if_pos hgo]
          exact hr
        · intro h j hj
          cases j with
          | zero => exact hgo.2.2
          | succ j =>
              have := h j (by omega)
              rwa [show a + (j + 1) = a + 1 + j by omega, show b + (j + 1) = b + 1 + j by omega]
        · intro h j hj
          have := h (j + 1) (by omega)
          rwa [show a + 1 + j = a + (j + 1) by omega, show b + 1 + j = b + (j + 1) by omega]
      · -- it stops here, before the end of the string, so the bytes differ
        have hne : s1 a ≠ s2 b := by
          intro he
          rcases hk with hk | hk
          · exact hgo ⟨hk.head, he ▸ hk.head, he⟩
          · exact hgo ⟨he ▸ hk.head, hk.head, he⟩
        refine ⟨((s1 a).toNat : Int) - ((s2 b).toNat : Int), ?_, ?_⟩
        · rw [if_neg hgo]
          rfl
        · constructor
          · intro h
            exact absurd (UInt8.toNat_inj.mp (by omega)) hne
          · intro h
            exact absurd (h 0 (by omega)) hne

/-! ## Octal numbers -/

theorem octDigit_eq (c : UInt8) :
    octDigit c = if c.toNat < 48 ∨ 55 < c.toNat then none else some (c.toNat - 48) := by
  unfold octDigit
  by_cases h : c.toNat < 48 ∨ 55 < c.toNat
  · rw [if_pos h, if_neg (by omega)]
  · rw [if_neg h, if_pos (by omega)]

/-- `oct2int` reads the number, unless it does not fit an `int`. -/
theorem oct2int_eq (m : Mem) (a e len dec : Nat) (h : a + len ≤ e) (hdec : dec < 2 ^ 31) :
    oct2int m a e len dec
      = if octValue m a len dec < 2 ^ 31 then .ok (octValue m a len dec) else .error .overflow := by
  induction len generalizing a dec with
  | zero =>
      rw [oct2int, octValue, if_pos hdec]
  | succ len ih =>
      rw [oct2int, loadAt_ok (by omega), ok_bind, octValue, octDigit_eq]
      by_cases hd : (m a).toNat < 48 ∨ 55 < (m a).toNat
      · simp only [if_pos hd, if_pos hdec]
        rfl
      · simp only [if_neg hd]
        by_cases hfit : dec * 8 + ((m a).toNat - 48) < 2 ^ 31
        · rw [if_pos hfit]
          exact ih (a + 1) (dec * 8 + ((m a).toNat - 48)) (by omega) hfit
        · rw [if_neg hfit]
          have := le_octValue (m := m) len (dec * 8 + ((m a).toNat - 48)) (a + 1)
          rw [if_neg (by omega)]
          rfl

theorem ofInt_digit (v : Nat) :
    UInt8.ofInt ((v : Int).tmod 8 + 48) = UInt8.ofNat (v % 8 + 48) := by
  have h : (v : Int).tmod 8 + 48 = ((v % 8 + 48 : Nat) : Int) := by
    rw [Int.tmod_eq_emod_of_nonneg (by omega)]
    omega
  unfold UInt8.ofInt
  rw [h]
  apply UInt8.toNat_inj.mp
  rw [UInt8.toNat_ofNat', UInt8.toNat_ofNat']
  omega

theorem putOctal_ok (v : Nat) (h : a + n ≤ e) :
    putOctal m a e n v = .ok (blit m a (octal n v) 0 n) := by
  induction n generalizing m v with
  | zero => rw [putOctal, blit_zero]
  | succ n ih =>
      have hdiv : (v : Int).tdiv 8 = ((v / 8 : Nat) : Int) := by
        rw [Int.tdiv_eq_ediv_of_nonneg (by omega)]
        omega
      rw [putOctal, storeAt_ok (by omega), ok_bind, ofInt_digit, hdiv, ih (v / 8) (by omega)]
      congr 1
      -- the last digit was written first, the others are those of `v / 8`
      funext x
      by_cases hin : a ≤ x ∧ x < a + (n + 1)
      · obtain ⟨j, rfl⟩ : ∃ j, x = a + j := ⟨x - a, by omega⟩
        rw [blit_inside (show j < n + 1 by omega), Nat.zero_add]
        by_cases hj : j = n
        · subst hj
          rw [blit_outside (by omega), Function.update_self]
          unfold octal
          rw [show j + 1 - 1 - j = 0 by omega, Nat.pow_zero, Nat.div_one]
        · rw [blit_inside (by omega), Nat.zero_add]
          unfold octal
          rw [show n + 1 - 1 - j = (n - 1 - j) + 1 by omega, Nat.pow_succ, Nat.mul_comm,
            ← Nat.div_div_eq_div_mul]
      · rw [blit_outside (by omega), blit_outside (by omega), Function.update_of_ne (by omega)]

/-- `sumBytes` is the sum of the bytes, as unsigned values. -/
theorem sumBytes_eq (h : a + n ≤ e) : sumBytes m a e n = .ok (byteSum m a n) := by
  unfold sumBytes
  obtain ⟨sum, hloop, hsum⟩ := loopM_ok
    (f := fun sum i => do return sum + (← loadAt m (a + i) e).toNat)
    (fun i sum => sum = byteSum m a i) (s := 0) n rfl fun i sum hi hsum => by
      rw [loadAt_ok (by omega), ok_bind, hsum]
      exact ⟨_, rfl, rfl⟩
  rw [hloop, hsum]

end Os1000.Proof
