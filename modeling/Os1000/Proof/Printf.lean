import Os1000.Kernel.Printf
import Os1000.Lib.Decimal
import Os1000.Lib.Run

/-!
# What `printNum` prints

The first loop stops at the power of ten that the number begins with, before it would
overflow, and the second takes one digit after the other off the front, so that zeroes
inside the number are printed as well. What is left is the sign, which is printed first
and then removed by `num = -num`. For the smallest `int` there is no such number.
-/

namespace Os1000.Proof

open Os1000 Lib

section

variable {v : Nat} {num : Int}

theorem ofInt_natCast (n : Nat) : UInt8.ofInt (n : Int) = UInt8.ofNat n := by
  unfold UInt8.ofInt
  apply UInt8.toNat_inj.mp
  rw [UInt8.toNat_ofNat', UInt8.toNat_ofNat']
  omega

theorem tdiv_natCast (a b : Nat) : (a : Int).tdiv (b : Int) = ((a / b : Nat) : Int) := by
  rw [Int.tdiv_eq_ediv_of_nonneg (Int.natCast_nonneg a)]
  rfl

theorem tmod_natCast (a b : Nat) : (a : Int).tmod (b : Int) = ((a % b : Nat) : Int) := by
  rw [Int.tmod_eq_emod_of_nonneg (Int.natCast_nonneg a)]
  rfl

/--
**The first loop**, from a power of ten on that is not too large. There is room for ten digits, so
`m` counts the iterations that are left.
-/
theorem growMagnitude_ok (hv : v < 2 ^ 31) : ∀ (m n : Nat) (magnitude : Int) (h : 0 < magnitude),
    n + m = 10 → magnitude = ((10 ^ n : Nat) : Int) → 10 ^ n ≤ v →
    ∃ d, growMagnitude v magnitude (n + 1) h = .ok (((10 ^ d : Nat) : Int), d + 1)
      ∧ 10 ^ d ≤ v ∧ v < 10 ^ (d + 1)
  | 0, n, magnitude, h, hm, hmag, hn => by
      obtain rfl : n = 10 := by omega
      omega
  | m + 1, n, magnitude, h, hm, hmag, hn => by
      have hten : magnitude * 10 = ((10 ^ (n + 1) : Nat) : Int) := by
        rw [hmag, Nat.pow_succ]
        omega
      have hdiv : (v : Int).tdiv 10 = ((v / 10 : Nat) : Int) := tdiv_natCast v 10
      rw [growMagnitude]
      by_cases hle : 10 ^ (n + 1) ≤ v
      · have hgo : magnitude ≤ (v : Int).tdiv 10 := by
          rw [hdiv]
          omega
        rw [dif_pos hgo, if_pos ⟨by omega, by omega⟩]
        exact growMagnitude_ok hv m (n + 1) _ _ (by omega) hten hle
      · have hstop : ¬ magnitude ≤ (v : Int).tdiv 10 := by
          rw [hdiv]
          omega
        rw [dif_neg hstop]
        exact ⟨n, by rw [hmag], hn, by omega⟩

/-- **The second loop** prints that many digits. -/
theorem printDigits_ok : ∀ (count : Nat) (v : Nat) (magnitude : Int), v < 10 ^ count →
    (∀ n, count = n + 1 → magnitude = ((10 ^ n : Nat) : Int)) →
    printDigits count v magnitude = .ok (decimal count v)
  | 0, v, magnitude, _, _ => by rw [printDigits, decimal]
  | count + 1, v, magnitude, hv, hmag => by
      have hpos : 0 < 10 ^ count := Nat.pow_pos (by omega)
      obtain rfl := hmag count rfl
      have hnext : ∀ n, count = n + 1 →
          ((10 ^ count : Nat) : Int).tdiv 10 = ((10 ^ n : Nat) : Int) := by
        rintro n rfl
        refine (tdiv_natCast _ 10).trans ?_
        rw [Nat.pow_succ, Nat.mul_div_cancel _ (by omega)]
      have hdigit : UInt8.ofInt (48 + (v : Int).tdiv ((10 ^ count : Nat) : Int))
          = UInt8.ofNat (48 + v / 10 ^ count) := by
        rw [tdiv_natCast, ← ofInt_natCast]
        rfl
      rw [printDigits, if_neg (by omega), tmod_natCast,
        printDigits_ok count (v % 10 ^ count) _ (Nat.mod_lt _ hpos) hnext, ok_bind, hdigit, decimal]
      rfl

/-- A positive number is printed in its digits. -/
theorem printMagnitude_ok (hpos : 0 < v) (hv : v < 2 ^ 31) :
    ∃ s, printMagnitude v = .ok s ∧ Canonical s v := by
  obtain ⟨d, hgrow, hlow, hhigh⟩ := growMagnitude_ok hv 10 0 1 (by decide) rfl rfl hpos
  unfold printMagnitude
  rw [hgrow, ok_bind, printDigits_ok (d + 1) v _ hhigh fun n hn => by rw [Nat.succ.inj hn]]
  exact ⟨_, rfl, canonical_decimal hlow hhigh⟩

/-- What `printNum` prints of any `int` but the smallest. -/
theorem printNum_ok (hlow : -2 ^ 31 < num) (hhigh : num < 2 ^ 31) :
    ∃ s, printNum num = .ok s ∧ CanonicalInt s num := by
  unfold printNum
  by_cases h0 : num = 0
  · rw [if_pos h0, h0]
    exact ⟨_, rfl, [48], canonical_zero, rfl⟩
  · rw [if_neg h0]
    by_cases hneg : num < 0
    · obtain ⟨v, rfl⟩ : ∃ v : Nat, num = -(v : Int) := ⟨(-num).toNat, by omega⟩
      obtain ⟨s, hs, hc⟩ := printMagnitude_ok (v := v) (by omega) (by omega)
      rw [if_pos hneg, if_pos (by omega), Int.neg_neg, hs, ok_bind]
      refine ⟨_, rfl, s, ?_, by rw [if_pos hneg]⟩
      rwa [Int.natAbs_neg, Int.natAbs_natCast]
    · obtain ⟨v, rfl⟩ : ∃ v : Nat, num = (v : Int) := ⟨num.toNat, by omega⟩
      obtain ⟨s, hs, hc⟩ := printMagnitude_ok (v := v) (by omega) (by omega)
      rw [if_neg hneg, hs]
      exact ⟨_, rfl, s, hc, by rw [if_neg hneg]⟩

end

/--
**`printNum` prints the number.** For every `int` but the smallest, no arithmetic overflows, and the
characters are the decimal representation of the number, from which the number is read back.
-/
theorem printNum_canonical (num : Int) (hlow : -2 ^ 31 < num) (hhigh : num < 2 ^ 31) :
    ∃ s, printNum num = .ok s ∧ CanonicalInt s num ∧ readInt s = num := by
  obtain ⟨s, hs, hc⟩ := printNum_ok hlow hhigh
  exact ⟨s, hs, hc, hc.read⟩

/-- The largest `int`, and the smallest that can be negated. -/
theorem printNum_canonical_ends :
    (∃ s, printNum 2147483647 = .ok s ∧ readInt s = 2147483647)
    ∧ ∃ s, printNum (-2147483647) = .ok s ∧ readInt s = -2147483647 := by
  obtain ⟨s, hs, _, hr⟩ := printNum_canonical 2147483647 (by decide) (by decide)
  obtain ⟨s', hs', _, hr'⟩ := printNum_canonical (-2147483647) (by decide) (by decide)
  exact ⟨⟨s, hs, hr⟩, s', hs', hr'⟩

/-- The smallest `int` cannot be negated. -/
theorem printNum_overflows : printNum (-2 ^ 31) = .error .overflow := by
  decide

end Os1000.Proof
