import Os1000.Lib.Decimal
import Mathlib.Data.Nat.Log

/-!
# Numerals

A number has one decimal representation. In hexadecimal a printer writes a fixed number of digits,
with small letters.
-/

namespace Os1000.Lib

/-! ## Decimal -/

section

variable {s t : List UInt8} {v w : Nat} {z : Int}

/-- As many digits of the same value are the same digits. -/
theorem decFrom_inj (hlen : s.length = t.length) (hs : ∀ c, c ∈ s → isDigit c = true)
    (ht : ∀ c, c ∈ t → isDigit c = true) (h : decFrom v s = decFrom w t) : v = w ∧ s = t := by
  induction s generalizing v w t with
  | nil =>
      cases t with
      | nil => exact ⟨h, rfl⟩
      | cons d t => cases hlen
  | cons c s ih =>
      cases t with
      | nil => cases hlen
      | cons d t =>
          rw [decFrom_cons, decFrom_cons] at h
          obtain ⟨hv, rfl⟩ := ih (Nat.succ.inj hlen) (fun x hx => hs x (List.mem_cons_of_mem c hx))
            (fun x hx => ht x (List.mem_cons_of_mem d hx)) h
          have hc : 48 ≤ c.toNat ∧ c.toNat ≤ 57 := of_decide_eq_true (hs c List.mem_cons_self)
          have hd : 48 ≤ d.toNat ∧ d.toNat ≤ 57 := of_decide_eq_true (ht d List.mem_cons_self)
          have hcd : c = d := UInt8.toNat_inj.mp (by omega)
          exact ⟨by omega, by rw [hcd]⟩

/-- A number of more digits is larger. -/
theorem Canonical.length_mono (h : Canonical s v) (h' : Canonical t w) (hvw : v ≤ w) :
    s.length ≤ t.length := by
  obtain ⟨n, hn⟩ : ∃ n, t.length = n + 1 :=
    Nat.exists_eq_succ_of_ne_zero fun h0 => h'.nonempty (List.length_eq_zero_iff.mp h0)
  rw [hn]
  refine h.length_le (Nat.lt_of_le_of_lt hvw ?_)
  rw [← h'.value, ← hn]
  have hlt : ∀ (l : List UInt8) (x : Nat), (∀ c, c ∈ l → isDigit c = true) →
      decFrom x l < (x + 1) * 10 ^ l.length := by
    intro l
    induction l with
    | nil => intro x _; simp
    | cons c l ih =>
        intro x hl
        have hc : 48 ≤ c.toNat ∧ c.toNat ≤ 57 := of_decide_eq_true (hl c List.mem_cons_self)
        rw [decFrom_cons, List.length_cons]
        calc decFrom (x * 10 + (c.toNat - 48)) l
            < (x * 10 + (c.toNat - 48) + 1) * 10 ^ l.length :=
              ih _ fun d hd => hl d (List.mem_cons_of_mem c hd)
          _ ≤ ((x + 1) * 10) * 10 ^ l.length := Nat.mul_le_mul_right _ (by omega)
          _ = (x + 1) * 10 ^ (l.length + 1) := by ring
  have := hlt t 0 h'.digits
  rwa [Nat.zero_add, Nat.one_mul] at this

theorem Canonical.unique (h : Canonical s v) (h' : Canonical t v) : s = t :=
  (decFrom_inj (Nat.le_antisymm (h.length_mono h' (Nat.le_refl v))
    (h'.length_mono h (Nat.le_refl v))) h.digits h'.digits (h.value.trans h'.value.symm)).2

/-- **A number has one representation.** -/
theorem CanonicalInt.unique (h : CanonicalInt s z) (h' : CanonicalInt t z) : s = t := by
  obtain ⟨s', hs, rfl⟩ := h
  obtain ⟨t', ht, rfl⟩ := h'
  rw [hs.unique ht]

end

/-- The decimal representation of a number. -/
def numeral (v : Nat) : List UInt8 := if v = 0 then [48] else decimal (Nat.log 10 v + 1) v

theorem canonical_numeral (v : Nat) : Canonical (numeral v) v := by
  unfold numeral
  by_cases h0 : v = 0
  · rw [if_pos h0, h0]
    exact canonical_zero
  · rw [if_neg h0]
    exact canonical_decimal (Nat.pow_log_le_self 10 h0) (Nat.lt_pow_succ_log_self (by decide) v)

theorem canonicalInt_numeral (v : Nat) : CanonicalInt (numeral v) v :=
  ⟨numeral v, canonical_numeral v, by rw [if_neg (by omega)]⟩

/-! ## Hexadecimal -/

/-- The digit for a number below sixteen. -/
def hexDigit (d : Nat) : UInt8 := if 10 ≤ d then UInt8.ofNat (87 + d) else UInt8.ofNat (48 + d)

/-- The last `n` digits of `v`, most significant first. -/
def hexadecimal : Nat → Nat → List UInt8
  | 0, _ => []
  | n + 1, v => hexDigit (v / 16 ^ n % 16) :: hexadecimal n v

end Os1000.Lib
