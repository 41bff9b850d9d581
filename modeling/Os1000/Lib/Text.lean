import Os1000.Lib.Memory
import Mathlib.Tactic.Ring

/-!
# Text in memory

What the routines that move bytes about leave behind, as functions of the memory
before: a copied block, a string that ends with a zero byte, a number written in
octal digits. A block is read back where it was copied to and leaves every other byte
alone; these two laws are all that a layout of several blocks needs.
-/

namespace Os1000.Lib

/-! ## Blocks -/

/-- `m` with the `n` bytes of `src` from `s` on copied to `a`. -/
def blit (m : Mem) (a : Nat) (src : Mem) (s n : Nat) : Mem := fun x =>
  if a ≤ x ∧ x < a + n then src (s + (x - a)) else m x

section Blocks

variable {m src : Mem} {a s n x j : Nat}

theorem blit_inside (h : j < n) : blit m a src s n (a + j) = src (s + j) := by
  unfold blit
  rw [if_pos (by omega), Nat.add_sub_cancel_left]

theorem blit_front (h : j < n) : blit m 0 src s n j = src (s + j) := by
  unfold blit
  rw [if_pos (by omega), Nat.sub_zero]

theorem blit_outside (h : x < a ∨ a + n ≤ x) : blit m a src s n x = m x := by
  unfold blit
  rw [if_neg (by omega)]

theorem blit_zero : blit m a src s 0 = m :=
  funext fun _ => blit_outside (by omega)

/-- A copy goes byte by byte, from the front. -/
theorem blit_succ : blit m a src s (n + 1)
    = blit (Function.update m a (src s)) (a + 1) src (s + 1) n := by
  funext x
  unfold blit
  by_cases hx : x = a
  · subst hx
    rw [if_pos (by omega), if_neg (by omega), Function.update_self, Nat.sub_self, Nat.add_zero]
  · rw [Function.update_of_ne hx]
    by_cases hin : a ≤ x ∧ x < a + (n + 1)
    · rw [if_pos hin, if_pos (by omega), show s + (x - a) = s + 1 + (x - (a + 1)) by omega]
    · rw [if_neg hin, if_neg (by omega)]

/-- One byte is a block of one. -/
theorem update_eq_blit (v : UInt8) : Function.update m a v = blit m a (fun _ => v) 0 1 := by
  rw [blit_succ, blit_zero]

end Blocks

/-! ## Sums of bytes -/

/-- The sum of the `n` bytes at `a`, as unsigned values. -/
def byteSum (m : Mem) (a : Nat) : Nat → Nat
  | 0 => 0
  | n + 1 => byteSum m a n + (m (a + n)).toNat

section Sums

variable {m m' : Mem} {a n : Nat}

theorem byteSum_add (p : Nat) : byteSum m a (p + n) = byteSum m a p + byteSum m (a + p) n := by
  induction n with
  | zero => rfl
  | succ n ih =>
      rw [← Nat.add_assoc, byteSum, ih, byteSum, Nat.add_assoc, Nat.add_assoc a p n]

theorem byteSum_congr (he : ∀ i, i < n → m' (a + i) = m (a + i)) : byteSum m' a n = byteSum m a n := by
  induction n with
  | zero => rfl
  | succ n ih =>
      rw [byteSum, byteSum, ih fun i hi => he i (Nat.lt_succ_of_lt hi), he n (Nat.lt_succ_self n)]

theorem byteSum_const {c : UInt8} (he : ∀ i, i < n → m (a + i) = c) : byteSum m a n = n * c.toNat := by
  induction n with
  | zero => rw [byteSum, Nat.zero_mul]
  | succ n ih =>
      rw [byteSum, ih fun i hi => he i (Nat.lt_succ_of_lt hi), he n (Nat.lt_succ_self n),
        Nat.succ_mul]

/-- The sum of `p + q + r` bytes of which the middle ones are all `c`. -/
theorem byteSum_fill {c : UInt8} (p q r : Nat) (he : ∀ i, i < q → m (a + p + i) = c) :
    byteSum m a (p + q + r) = byteSum m a p + q * c.toNat + byteSum m (a + p + q) r := by
  rw [byteSum_add, byteSum_add, byteSum_const he, Nat.add_assoc a p q]

theorem byteSum_le : byteSum m a n ≤ n * 255 := by
  induction n with
  | zero => rw [byteSum, Nat.zero_mul]
  | succ n ih =>
      have hbyte : (m (a + n)).toNat < 256 := (m (a + n)).toNat_lt
      rw [byteSum]
      omega

end Sums

/-! ## Strings -/

/-- The string at `a` has `k` bytes before the zero that ends it. -/
structure Ends (m : Mem) (a k : Nat) : Prop where
  nonzero : ∀ j, j < k → m (a + j) ≠ 0
  zero : m (a + k) = 0

/-- The string at `a`, as far as its first `n` bytes go. -/
def text (m : Mem) (a : Nat) : Nat → List UInt8
  | 0 => []
  | n + 1 => if m a = 0 then [] else m a :: text m (a + 1) n

/-- The string with these bytes, from address 0 on. -/
def literal (l : List UInt8) : Mem := fun i => l[i]?.getD 0

section Strings

variable {m m' : Mem} {a a' k n : Nat}

theorem Ends.tail (h : Ends m a (k + 1)) : Ends m (a + 1) k where
  nonzero j hj := by
    rw [Nat.add_assoc, Nat.add_comm 1 j]
    exact h.nonzero (j + 1) (by omega)
  zero := by
    rw [Nat.add_assoc, Nat.add_comm 1 k]
    exact h.zero

theorem Ends.head (h : Ends m a (k + 1)) : m a ≠ 0 := h.nonzero 0 (by omega)

/-- A string depends on its bytes only, wherever they lie. -/
theorem Ends.congr (h : Ends m a k) (he : ∀ j, j ≤ k → m' (a' + j) = m (a + j)) : Ends m' a' k where
  nonzero j hj := by
    rw [he j (by omega)]
    exact h.nonzero j hj
  zero := by
    rw [he k (Nat.le_refl k)]
    exact h.zero

/-- A string has one end. -/
theorem Ends.unique {k' : Nat} (h : Ends m a k) (h' : Ends m a k') : k' = k := by
  rcases Nat.lt_trichotomy k' k with hlt | heq | hgt
  · exact absurd h'.zero (h.nonzero k' hlt)
  · exact heq
  · exact absurd h.zero (h'.nonzero k hgt)

/-- A string ends within `n` bytes, or none of them is zero. -/
theorem exists_ends_or_nonzero (m : Mem) (a n : Nat) :
    (∃ k, k < n ∧ Ends m a k) ∨ ∀ j, j < n → m (a + j) ≠ 0 := by
  induction n with
  | zero => exact Or.inr fun j hj => absurd hj (Nat.not_lt_zero j)
  | succ n ih =>
      rcases ih with ⟨k, hk, hend⟩ | hne
      · exact Or.inl ⟨k, by omega, hend⟩
      · by_cases h0 : m (a + n) = 0
        · exact Or.inl ⟨n, by omega, hne, h0⟩
        · refine Or.inr fun j hj => ?_
          rcases Nat.lt_succ_iff_lt_or_eq.mp hj with hlt | rfl
          · exact hne j hlt
          · exact h0

theorem text_nil (h : m a = 0) : text m a n = [] := by
  cases n with
  | zero => rfl
  | succ n => rw [text, if_pos h]

theorem text_cons (h : m a ≠ 0) : text m a (n + 1) = m a :: text m (a + 1) n := by
  rw [text, if_neg h]

/-- The bytes after the end of a string do not matter. -/
theorem Ends.text_congr (h : Ends m a k) (he : ∀ j, j ≤ k → m' (a' + j) = m (a + j)) :
    text m' a' n = text m a n := by
  induction k generalizing a a' n with
  | zero =>
      have h0 : m a = 0 := h.zero
      have h0' : m' a' = 0 := (he 0 (by omega)).trans h0
      rw [text_nil h0, text_nil h0']
  | succ k ih =>
      cases n with
      | zero => rfl
      | succ n =>
          have h0 : m' a' = m a := he 0 (by omega)
          rw [text_cons h.head, text_cons (h0 ▸ h.head), h0]
          congr 1
          refine ih h.tail fun j hj => ?_
          have := he (j + 1) (by omega)
          rwa [show a' + 1 + j = a' + (j + 1) by omega, show a + 1 + j = a + (j + 1) by omega]

/-- Two strings are the same when their bytes are, up to the end of one of them. -/
theorem Ends.text_eq_iff (h : Ends m a k) (hk : k < n) :
    (∀ j, j ≤ k → m (a + j) = m' (a' + j)) ↔ text m a n = text m' a' n := by
  refine ⟨fun he => (h.text_congr fun j hj => (he j hj).symm).symm, fun he => ?_⟩
  induction k generalizing a a' n with
  | zero =>
      intro j hj
      obtain rfl : j = 0 := by omega
      have h0 : m a = 0 := h.zero
      rw [text_nil h0] at he
      by_contra hne
      have h0' : m' a' ≠ 0 := fun hz => hne (h0.trans hz.symm)
      obtain ⟨n, rfl⟩ : ∃ n', n = n' + 1 := ⟨n - 1, by omega⟩
      rw [text_cons h0'] at he
      cases he
  | succ k ih =>
      obtain ⟨n, rfl⟩ : ∃ n', n = n' + 1 := ⟨n - 1, by omega⟩
      have h0' : m' a' ≠ 0 := by
        intro hz
        rw [text_cons h.head, text_nil hz] at he
        cases he
      rw [text_cons h.head, text_cons h0'] at he
      injection he with hc he
      intro j hj
      cases j with
      | zero => exact hc
      | succ j =>
          have := ih h.tail (by omega) he j (by omega)
          rwa [show a + (j + 1) = a + 1 + j by omega, show a' + (j + 1) = a' + 1 + j by omega]

/-- The rest of a string, behind the bytes at its front that satisfy `p`. -/
theorem Ends.dropWhile (h : Ends m a k) (p : UInt8 → Bool) :
    ((text m a (k + 1)).takeWhile p).length ≤ k
    ∧ Ends m (a + ((text m a (k + 1)).takeWhile p).length)
      (k - ((text m a (k + 1)).takeWhile p).length)
    ∧ text m (a + ((text m a (k + 1)).takeWhile p).length)
      (k - ((text m a (k + 1)).takeWhile p).length + 1) = (text m a (k + 1)).dropWhile p := by
  induction k generalizing a with
  | zero =>
      have h0 : m a = 0 := h.zero
      rw [text_nil h0, List.takeWhile_nil, List.dropWhile_nil]
      exact ⟨Nat.le_refl 0, h, text_nil h0⟩
  | succ k ih =>
      rw [text_cons h.head]
      by_cases hp : p (m a) = true
      · obtain ⟨h1, h2, h3⟩ := ih h.tail
        rw [List.takeWhile_cons_of_pos hp, List.dropWhile_cons_of_pos hp, List.length_cons]
        rw [show a + (((text m (a + 1) (k + 1)).takeWhile p).length + 1)
            = a + 1 + ((text m (a + 1) (k + 1)).takeWhile p).length by omega, Nat.add_sub_add_right]
        exact ⟨by omega, h2, h3⟩
      · rw [List.takeWhile_cons_of_neg hp, List.dropWhile_cons_of_neg hp]
        exact ⟨Nat.zero_le _, h, text_cons h.head⟩

/-- A string constant ends where its bytes do. -/
theorem ends_literal {l : List UInt8} (h : (0 : UInt8) ∉ l) : Ends (literal l) 0 l.length where
  nonzero j hj := by
    unfold literal
    rw [Nat.zero_add, List.getElem?_eq_getElem hj]
    exact fun he => h (he ▸ List.getElem_mem hj)
  zero := by
    unfold literal
    rw [Nat.zero_add, List.getElem?_eq_none (Nat.le_refl _)]
    rfl

/-- The string with the bytes `l` is at `a`. -/
structure HoldsString (m : Mem) (a : Nat) (l : List UInt8) : Prop where
  ends : Ends m a l.length
  text : text m a (l.length + 1) = l

/-- A string is there when its bytes are, and a zero behind them. -/
theorem holdsString_of_bytes {l : List UInt8} (h0 : (0 : UInt8) ∉ l)
    (he : ∀ j, j < l.length → l[j]? = some (m (a + j))) (hz : m (a + l.length) = 0) :
    HoldsString m a l := by
  induction l generalizing a with
  | nil => exact ⟨⟨by simp, hz⟩, text_nil hz⟩
  | cons c l ih =>
      have hc : c = m a := Option.some.inj (he 0 (by simp))
      have hne : m a ≠ 0 := fun h => h0 (by simp [hc, h])
      have hrest : HoldsString m (a + 1) l := by
        refine ih (fun h => h0 (List.mem_cons_of_mem c h)) (fun j hj => ?_) ?_
        · have := he (j + 1) (by simpa using hj)
          rwa [List.getElem?_cons_succ, show a + (j + 1) = a + 1 + j by omega] at this
        · rwa [List.length_cons, show a + (l.length + 1) = a + 1 + l.length by omega] at hz
      refine ⟨⟨fun j hj => ?_, hz⟩, ?_⟩
      · have hj' := he j hj
        intro hzero
        rw [hzero] at hj'
        exact h0 (List.mem_of_getElem? hj')
      · rw [List.length_cons, text_cons hne, hrest.text, ← hc]

theorem holdsString_literal {l : List UInt8} (h0 : (0 : UInt8) ∉ l) : HoldsString (literal l) 0 l := by
  refine holdsString_of_bytes h0 (fun j hj => ?_) (ends_literal h0).zero
  unfold literal
  rw [Nat.zero_add, List.getElem?_eq_getElem hj]
  rfl

end Strings

/-! ## Numbers in octal -/

/-- The digit a byte stands for. -/
def octDigit (c : UInt8) : Option Nat :=
  if 48 ≤ c.toNat ∧ c.toNat ≤ 55 then some (c.toNat - 48) else none

/-- The number the digits at `a` denote, as far as `n` bytes and the digits go, after `dec`. -/
def octValue (m : Mem) (a : Nat) : Nat → Nat → Nat
  | 0, dec => dec
  | n + 1, dec =>
      match octDigit (m a) with
      | some d => octValue m (a + 1) n (dec * 8 + d)
      | none => dec

/-- The last `n` octal digits of `v`, most significant first. -/
def octal (n v : Nat) : Mem := fun i => UInt8.ofNat (v / 8 ^ (n - 1 - i) % 8 + 48)

section Octal

variable {m : Mem} {a n v dec : Nat}

theorem octDigit_ofNat (h : v < 8) : octDigit (UInt8.ofNat (v + 48)) = some v := by
  have hv : (UInt8.ofNat (v + 48)).toNat = v + 48 := by
    rw [UInt8.toNat_ofNat']
    exact Nat.mod_eq_of_lt (by omega)
  unfold octDigit
  rw [hv, if_pos (by omega), Nat.add_sub_cancel]

theorem octDigit_octal (i : Nat) : octDigit (octal n v i) ≠ none := by
  unfold octal
  rw [octDigit_ofNat (Nat.mod_lt _ (by omega))]
  exact Option.some_ne_none _

theorem octValue_congr {m' : Mem} {a' : Nat} (he : ∀ i, i < n → m' (a' + i) = m (a + i)) :
    octValue m' a' n dec = octValue m a n dec := by
  induction n generalizing a a' dec with
  | zero => rfl
  | succ n ih =>
      have h0 : m' a' = m a := he 0 (by omega)
      rw [octValue, octValue, h0]
      cases octDigit (m a) with
      | none => rfl
      | some d =>
          refine ih fun i hi => ?_
          have := he (i + 1) (by omega)
          rwa [show a' + 1 + i = a' + (i + 1) by omega, show a + 1 + i = a + (i + 1) by omega]

/-- More digits make the number larger. -/
theorem le_octValue : ∀ (n dec : Nat) (a : Nat), dec ≤ octValue m a n dec
  | 0, dec, _ => Nat.le_refl dec
  | n + 1, dec, a => by
      rw [octValue]
      cases octDigit (m a) with
      | none => exact Nat.le_refl dec
      | some d =>
          have := le_octValue n (dec * 8 + d) (a + 1)
          show dec ≤ octValue m (a + 1) n (dec * 8 + d)
          omega

/-- Reading goes on behind the digits. -/
theorem octValue_add (h : ∀ i, i < n → octDigit (m (a + i)) ≠ none) (r : Nat) :
    octValue m a (n + r) dec = octValue m (a + n) r (octValue m a n dec) := by
  induction n generalizing a dec with
  | zero => rw [Nat.zero_add, Nat.add_zero, octValue]
  | succ n ih =>
      have h0 : octDigit (m a) ≠ none := h 0 (by omega)
      obtain ⟨d, hd⟩ := Option.ne_none_iff_exists'.mp h0
      have hrest : ∀ i, i < n → octDigit (m (a + 1 + i)) ≠ none := by
        intro i hi
        rw [show a + 1 + i = a + (i + 1) by omega]
        exact h (i + 1) (by omega)
      rw [show n + 1 + r = (n + r) + 1 by omega, octValue, octValue, hd]
      show octValue m (a + 1) (n + r) (dec * 8 + d) = _
      rw [ih hrest, show a + 1 + n = a + (n + 1) by omega]

/-- Reading ends where there is no digit. -/
theorem octValue_end (h : octDigit (m a) = none) : octValue m a n dec = dec := by
  cases n with
  | zero => rfl
  | succ n => rw [octValue, h]

/-- **Digits written are digits read.** -/
theorem octValue_octal (h : ∀ i, i < n → m (a + i) = octal n v i) :
    octValue m a n dec = dec * 8 ^ n + v % 8 ^ n := by
  induction n generalizing a dec with
  | zero =>
      rw [octValue, Nat.pow_zero, Nat.mul_one, Nat.mod_one, Nat.add_zero]
  | succ n ih =>
      have hlt : v / 8 ^ n % 8 < 8 := Nat.mod_lt _ (by omega)
      have hd : octDigit (m a) = some (v / 8 ^ n % 8) := by
        have h0 := h 0 (by omega)
        rw [Nat.add_zero] at h0
        rw [h0]
        exact octDigit_ofNat hlt
      have hrest : ∀ i, i < n → m (a + 1 + i) = octal n v i := by
        intro i hi
        have := h (i + 1) (by omega)
        rw [show a + 1 + i = a + (i + 1) by omega, this]
        unfold octal
        rw [show n + 1 - 1 - (i + 1) = n - 1 - i by omega]
      rw [octValue, hd]
      show octValue m (a + 1) n (dec * 8 + v / 8 ^ n % 8) = _
      rw [ih hrest, Nat.mod_pow_succ, Nat.pow_succ]
      ring

end Octal

end Os1000.Lib
