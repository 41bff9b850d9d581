import Mathlib.Data.List.Basic
import Mathlib.Tactic.Ring

/-!
# Numbers in decimal

A number is read from its digits by a left fold, most significant digit first. `decimal n v`
is what a printer with a fixed number of digits writes. A text is canonical when it has
digits only, at least one of them, and no zero in front of others.
-/

namespace Os1000.Lib

/-- The byte is one of `'0'` to `'9'`. -/
def isDigit (c : UInt8) : Bool := decide (48 ≤ c.toNat ∧ c.toNat ≤ 57)

/-- The number read from digits, after `v`. -/
def decFrom (v : Nat) (s : List UInt8) : Nat := s.foldl (fun v c => v * 10 + (c.toNat - 48)) v

/-- The number a list of digits stands for. -/
def decValue (s : List UInt8) : Nat := decFrom 0 s

/-- The number a text stands for that may begin with a minus sign. -/
def readInt : List UInt8 → Int
  | [] => 0
  | c :: s => if c = 45 then -(decValue s : Int) else decValue (c :: s)

/-- The last `n` digits of `v`, most significant first. -/
def decimal : Nat → Nat → List UInt8
  | 0, _ => []
  | n + 1, v => UInt8.ofNat (48 + v / 10 ^ n) :: decimal n (v % 10 ^ n)

/-- The decimal representation of `v`. -/
structure Canonical (s : List UInt8) (v : Nat) : Prop where
  digits : ∀ c, c ∈ s → isDigit c = true
  nonempty : s ≠ []
  /-- No zero in front of other digits. -/
  lead : s.head? = some 48 → s = [48]
  value : decValue s = v

/-- The decimal representation of `z`: a minus sign if it is negative, and that of its size. -/
def CanonicalInt (s : List UInt8) (z : Int) : Prop :=
  ∃ t, Canonical t z.natAbs ∧ s = if z < 0 then 45 :: t else t

section

variable {s : List UInt8} {c : UInt8} {n v d : Nat} {z : Int}

@[simp] theorem decFrom_nil : decFrom v [] = v := rfl

@[simp] theorem decFrom_cons : decFrom v (c :: s) = decFrom (v * 10 + (c.toNat - 48)) s := by
  unfold decFrom
  rw [List.foldl_cons]

theorem le_decFrom : v ≤ decFrom v s := by
  induction s generalizing v with
  | nil => exact Nat.le_refl v
  | cons c s ih =>
      rw [decFrom_cons]
      exact Nat.le_trans (by omega) ih

theorem toNat_digit (h : d < 10) : (UInt8.ofNat (48 + d)).toNat = 48 + d := by
  rw [UInt8.toNat_ofNat']
  omega

theorem isDigit_digit (h : d < 10) : isDigit (UInt8.ofNat (48 + d)) = true := by
  unfold isDigit
  rw [toNat_digit h]
  exact decide_eq_true (by omega)

/-- **Digits written are digits read.** -/
theorem decFrom_decimal (h : v < 10 ^ n) (x : Nat) : decFrom x (decimal n v) = x * 10 ^ n + v := by
  induction n generalizing v x with
  | zero =>
      rw [decimal, decFrom_nil, Nat.pow_zero]
      omega
  | succ n ih =>
      have hd : v / 10 ^ n < 10 := Nat.div_lt_of_lt_mul (by rwa [Nat.pow_succ] at h)
      rw [decimal, decFrom_cons, toNat_digit hd, Nat.add_sub_cancel_left,
        ih (Nat.mod_lt _ (Nat.pow_pos (by omega)))]
      calc (x * 10 + v / 10 ^ n) * 10 ^ n + v % 10 ^ n
          = x * 10 ^ (n + 1) + (10 ^ n * (v / 10 ^ n) + v % 10 ^ n) := by ring
        _ = x * 10 ^ (n + 1) + v := by rw [Nat.div_add_mod]

theorem decimal_digits (h : v < 10 ^ n) : ∀ c, c ∈ decimal n v → isDigit c = true := by
  induction n generalizing v with
  | zero =>
      intro c hc
      cases hc
  | succ n ih =>
      have hd : v / 10 ^ n < 10 := Nat.div_lt_of_lt_mul (by rwa [Nat.pow_succ] at h)
      intro c hc
      rcases List.mem_cons.mp hc with rfl | hc
      · exact isDigit_digit hd
      · exact ih (Nat.mod_lt _ (Nat.pow_pos (by omega))) c hc

/-- Written with as many digits as it has, a number is canonical. -/
theorem canonical_decimal (hlow : 10 ^ n ≤ v) (hhigh : v < 10 ^ (n + 1)) :
    Canonical (decimal (n + 1) v) v where
  digits := decimal_digits hhigh
  nonempty := List.cons_ne_nil _ _
  lead h := by
    have hd : v / 10 ^ n < 10 := Nat.div_lt_of_lt_mul (by rwa [Nat.pow_succ] at hhigh)
    have hpos : 0 < v / 10 ^ n := Nat.div_pos hlow (Nat.pow_pos (by omega))
    have hhead : UInt8.ofNat (48 + v / 10 ^ n) = 48 := Option.some.inj h
    have := congrArg UInt8.toNat hhead
    rw [toNat_digit hd] at this
    exact absurd this (by simp; omega)
  value := by
    unfold decValue
    rw [decFrom_decimal hhigh]
    omega

theorem canonical_zero : Canonical [48] 0 where
  digits c hc := by
    rw [List.mem_singleton.mp hc]
    rfl
  nonempty := List.cons_ne_nil _ _
  lead _ := rfl
  value := rfl

theorem mul_pow_le_decFrom : v * 10 ^ s.length ≤ decFrom v s := by
  induction s generalizing v with
  | nil => rw [List.length_nil, Nat.pow_zero, Nat.mul_one, decFrom_nil]
  | cons c s ih =>
      rw [decFrom_cons, List.length_cons]
      refine Nat.le_trans ?_ ih
      calc v * 10 ^ (s.length + 1) = v * 10 * 10 ^ s.length := by ring
        _ ≤ (v * 10 + (c.toNat - 48)) * 10 ^ s.length :=
          Nat.mul_le_mul_right _ (Nat.le_add_right _ _)

/-- A small number has few digits. -/
theorem Canonical.length_le (h : Canonical s v) (hv : v < 10 ^ (n + 1)) : s.length ≤ n + 1 := by
  cases s with
  | nil => exact Nat.zero_le _
  | cons c s =>
      rw [List.length_cons]
      by_cases hc : c = 48
      · have hone := congrArg List.length (h.lead (by rw [hc]; rfl))
        simp only [List.length_cons, List.length_nil] at hone
        omega
      · have hdigit : 48 ≤ c.toNat ∧ c.toNat ≤ 57 := of_decide_eq_true (h.digits c List.mem_cons_self)
        have hne : c.toNat ≠ 48 := fun he => hc (UInt8.toNat_inj.mp he)
        have hvalue : decFrom (0 * 10 + (c.toNat - 48)) s = v := h.value
        have hlow : 1 * 10 ^ s.length ≤ v := by
          rw [← hvalue]
          exact Nat.le_trans (Nat.mul_le_mul_right _ (by omega)) mul_pow_le_decFrom
        rw [Nat.one_mul] at hlow
        have := (Nat.pow_lt_pow_iff_right (by decide : 1 < 10)).mp (Nat.lt_of_le_of_lt hlow hv)
        omega

/-- A sign is not a digit. -/
theorem Canonical.ne_minus (h : Canonical s v) (hc : c ∈ s) : c ≠ 45 := by
  rintro rfl
  exact absurd (h.digits _ hc) (by decide)

/-- **A number is read back from its representation.** -/
theorem CanonicalInt.read (h : CanonicalInt s z) : readInt s = z := by
  obtain ⟨t, ht, rfl⟩ := h
  by_cases hz : z < 0
  · rw [if_pos hz, readInt, if_pos rfl, ht.value]
    omega
  · rw [if_neg hz]
    cases t with
    | nil => exact absurd rfl ht.nonempty
    | cons c t =>
        rw [readInt, if_neg (ht.ne_minus List.mem_cons_self), ht.value]
        omega

end

end Os1000.Lib
