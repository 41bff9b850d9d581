import Mathlib.Data.Nat.Bitwise
import Mathlib.Data.Nat.ModEq

/-!
# Sums with an end-around carry

Words of base `b` are added up, and what does not fit into a word is added to it again,
until it fits. That is addition modulo `b - 1`, with one twist: a positive sum never folds
to zero, so the multiples of `b - 1` fold to `b - 1` itself. A checksum is what is missing
to it.
-/

namespace Os1000.Lib

/-- Add the carry, until there is none. -/
def foldCarry (b n : Nat) : Nat :=
  if 2 ≤ b ∧ b ≤ n then foldCarry b (n % b + n / b) else n
termination_by n
decreasing_by
  rename_i h
  have hdiv := Nat.div_add_mod n b
  have hq : 1 ≤ n / b := (Nat.one_le_div_iff (by omega)).mpr h.2
  have := Nat.mul_le_mul_right (n / b) h.1
  omega

variable {b n : Nat}

/-- Nothing changes when there is no carry. -/
theorem foldCarry_of_lt (h : n < b) : foldCarry b n = n := by
  rw [foldCarry, if_neg (by omega)]

theorem foldCarry_of_le (hb : 2 ≤ b) (h : b ≤ n) : foldCarry b n = foldCarry b (n % b + n / b) := by
  rw [foldCarry, if_pos ⟨hb, h⟩]

theorem foldCarry_lt (hb : 2 ≤ b) : foldCarry b n < b := by
  induction n using foldCarry.induct b with
  | case1 n h ih =>
      rw [foldCarry_of_le hb h.2]
      exact ih
  | case2 n h =>
      have hlt : n < b := by omega
      rw [foldCarry_of_lt hlt]
      exact hlt

/-- A carry of one is worth `b`, which is one more than `b - 1`. -/
theorem foldCarry_mod (hb : 2 ≤ b) : foldCarry b n % (b - 1) = n % (b - 1) := by
  induction n using foldCarry.induct b with
  | case1 n h ih =>
      rw [foldCarry_of_le hb h.2, ih]
      have hn : n = n % b + n / b + (b - 1) * (n / b) := by
        have hdiv := Nat.div_add_mod n b
        have hsplit : b * (n / b) = (b - 1) * (n / b) + n / b := by
          rw [Nat.sub_mul, Nat.one_mul, Nat.sub_add_cancel]
          exact Nat.le_mul_of_pos_left _ (by omega)
        omega
      conv_rhs => rw [hn, Nat.add_mul_mod_self_left]
  | case2 n h => rw [foldCarry_of_lt (by omega)]

theorem foldCarry_pos (hb : 2 ≤ b) (h : 0 < n) : 0 < foldCarry b n := by
  induction n using foldCarry.induct b with
  | case1 n hn ih =>
      rw [foldCarry_of_le hb hn.2]
      have hq : 1 ≤ n / b := (Nat.one_le_div_iff (by omega)).mpr hn.2
      exact ih (by omega)
  | case2 n hn =>
      rw [foldCarry_of_lt (by omega)]
      exact h

/-- What a sum folds to depends on its remainder, and on whether it is zero. -/
theorem foldCarry_congr {m : Nat} (hb : 2 ≤ b) (hmod : m % (b - 1) = n % (b - 1))
    (hpos : 0 < m ↔ 0 < n) : foldCarry b m = foldCarry b n := by
  -- two words that are not zero are less than `b - 1` apart
  have key : ∀ x y, x < b → y < b → x % (b - 1) = y % (b - 1) → 0 < x → x ≤ y → x = y := by
    intro x y _ hy hxy h0 hle
    have hdvd : b - 1 ∣ y - x := (Nat.modEq_iff_dvd' hle).mp hxy
    have := Nat.eq_zero_of_dvd_of_lt hdvd (by omega)
    omega
  have hm := foldCarry_lt (n := m) hb
  have hn := foldCarry_lt (n := n) hb
  have hmn : foldCarry b m % (b - 1) = foldCarry b n % (b - 1) := by
    rw [foldCarry_mod hb, foldCarry_mod hb, hmod]
  by_cases h0 : 0 < m
  · have hm0 := foldCarry_pos hb h0
    have hn0 := foldCarry_pos hb (hpos.mp h0)
    rcases Nat.le_total (foldCarry b m) (foldCarry b n) with hle | hle
    · exact key _ _ hm hn hmn hm0 hle
    · exact (key _ _ hn hm hmn.symm hn0 hle).symm
  · obtain rfl : m = 0 := by omega
    obtain rfl : n = 0 := by omega
    rfl

/-- The sums that fold to all ones. -/
theorem foldCarry_eq_max_iff (hb : 2 ≤ b) : foldCarry b n = b - 1 ↔ 0 < n ∧ n % (b - 1) = 0 := by
  constructor
  · intro h
    constructor
    · by_contra h0
      obtain rfl : n = 0 := by omega
      rw [foldCarry_of_lt (by omega)] at h
      omega
    · rw [← foldCarry_mod hb, h, Nat.mod_self]
  · rintro ⟨h0, hmod⟩
    have hone : foldCarry b (b - 1) = b - 1 := foldCarry_of_lt (by omega)
    rw [← hone]
    exact foldCarry_congr hb (by rw [hmod, Nat.mod_self]) (by omega)

/-- **What is missing to the sum.** With it, the sum folds to all ones. -/
theorem foldCarry_complement (hb : 2 ≤ b) :
    foldCarry b (n + (b - 1 - foldCarry b n)) = b - 1 := by
  have hlt := foldCarry_lt (n := n) hb
  refine (foldCarry_eq_max_iff hb).mpr ⟨?_, ?_⟩
  · by_cases hn : n = 0
    · rw [hn, foldCarry_of_lt (by omega)]
      omega
    · omega
  · have hmod := foldCarry_mod (n := n) hb
    rw [Nat.add_mod, ← hmod, ← Nat.add_mod, Nat.add_sub_cancel' (by omega), Nat.mod_self]

/-- A change by less than `b - 1` is noticed. -/
theorem foldCarry_ne_max {d m : Nat} (hb : 2 ≤ b) (h : foldCarry b n = b - 1) (h0 : 0 < d)
    (hd : d < b - 1) (hm : m = n + d ∨ m + d = n) : foldCarry b m ≠ b - 1 := by
  intro h'
  have hn := ((foldCarry_eq_max_iff hb).mp h).2
  have hm' := ((foldCarry_eq_max_iff hb).mp h').2
  have hdvd : b - 1 ∣ d := by
    rcases hm with rfl | rfl
    · exact (Nat.dvd_add_right (Nat.dvd_of_mod_eq_zero hn)).mp (Nat.dvd_of_mod_eq_zero hm')
    · exact (Nat.dvd_add_right (Nat.dvd_of_mod_eq_zero hm')).mp (Nat.dvd_of_mod_eq_zero hn)
  exact absurd (Nat.eq_zero_of_dvd_of_lt hdvd hd) (by omega)

/-- A flipped bit changes a number by a power of two. -/
theorem xor_two_pow_cases (x j : Nat) : x ^^^ 2 ^ j = x + 2 ^ j ∨ (x ^^^ 2 ^ j) + 2 ^ j = x := by
  have hdiv : (x ^^^ 2 ^ j) / 2 ^ j = x / 2 ^ j ^^^ 1 := by
    rw [Nat.xor_div_two_pow, Nat.div_self (Nat.two_pow_pos j)]
  have hmod : (x ^^^ 2 ^ j) % 2 ^ j = x % 2 ^ j := by
    rw [Nat.xor_mod_two_pow, Nat.mod_self, Nat.xor_zero]
  have hx := Nat.div_add_mod x (2 ^ j)
  have hy := Nat.div_add_mod (x ^^^ 2 ^ j) (2 ^ j)
  rw [hdiv, hmod] at hy
  rcases Nat.even_or_odd (x / 2 ^ j) with he | ho
  · left
    rw [Nat.xor_one_of_even he, Nat.mul_add, Nat.mul_one] at hy
    omega
  · right
    have hpos : 1 ≤ x / 2 ^ j := by
      obtain ⟨k, hk⟩ := ho
      omega
    rw [Nat.xor_one_of_odd ho, Nat.mul_sub, Nat.mul_one] at hy
    have := Nat.mul_le_mul_left (2 ^ j) hpos
    omega

/-! ## Word by word -/

/-- One word is replaced by another. -/
theorem sum_set_add {l : List Nat} {j x y : Nat} (h : l[j]? = some x) :
    (l.set j y).sum + x = l.sum + y := by
  induction l generalizing j with
  | nil => simp at h
  | cons z l ih =>
      cases j with
      | zero =>
          obtain rfl : z = x := by simpa using h
          simp only [List.set_cons_zero, List.sum_cons]
          omega
      | succ j =>
          have := ih (j := j) (by simpa using h)
          simp only [List.set_cons_succ, List.sum_cons]
          omega

/-- One's complement addition of two words: a carry is added at once. -/
def onesAdd (b x y : Nat) : Nat := if x + y < b then x + y else x + y - b + 1

/-- The one's complement sum of some words. -/
def onesSum (b : Nat) (l : List Nat) : Nat := l.foldl (onesAdd b) 0

theorem onesAdd_eq {x y : Nat} (hb : 2 ≤ b) (hx : x < b) (hy : y < b) :
    onesAdd b x y = foldCarry b (x + y) := by
  unfold onesAdd
  split
  · rename_i h
    rw [foldCarry_of_lt h]
  · rename_i h
    have hdiv : (x + y) / b = 1 := Nat.div_eq_of_lt_le (by omega) (by omega)
    have hmod : (x + y) % b = x + y - b := by
      rw [Nat.mod_eq_sub_mod (by omega), Nat.mod_eq_of_lt (by omega)]
    rw [foldCarry_of_le hb (by omega), hdiv, hmod, foldCarry_of_lt (by omega)]

/-- **It does not matter when the carries are added.** -/
theorem onesSum_eq {l : List Nat} (hb : 2 ≤ b) (hl : ∀ x ∈ l, x < b) :
    onesSum b l = foldCarry b l.sum := by
  -- from any sum so far, folded
  have key : ∀ acc, l.foldl (onesAdd b) (foldCarry b acc) = foldCarry b (acc + l.sum) := by
    induction l with
    | nil => simp
    | cons x l ih =>
        intro acc
        have hfold : foldCarry b (foldCarry b acc + x) = foldCarry b (acc + x) := by
          refine foldCarry_congr hb ?_ ?_
          · rw [Nat.add_mod, foldCarry_mod hb, ← Nat.add_mod]
          · have hzero : foldCarry b 0 = 0 := foldCarry_of_lt (by omega)
            by_cases hacc : acc = 0
            · simp [hacc, hzero]
            · have := foldCarry_pos hb (Nat.pos_of_ne_zero hacc)
              omega
        rw [List.foldl_cons, onesAdd_eq hb (foldCarry_lt hb) (hl x (by simp)), hfold,
          ih (fun y hy => hl y (by simp [hy])), List.sum_cons, Nat.add_assoc]
  have := key 0
  rwa [foldCarry_of_lt (by omega), Nat.zero_add] at this

end Os1000.Lib
