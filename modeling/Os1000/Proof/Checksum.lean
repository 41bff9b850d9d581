import Os1000.Lib.Checksum
import Os1000.Net.Ipv4
import Os1000.Proof.Fields
import Mathlib.Algebra.BigOperators.Group.Finset.Piecewise
import Mathlib.Algebra.Order.BigOperators.Group.List

/-!
# The Internet checksum

`ipv4_checksum` adds up 16-bit words in 32 bits and folds the carries in afterwards. For
packets of up to 65535 bytes nothing is lost, and the order does not matter: the result is
what adding with an end-around carry from the beginning would have given, complemented.

A header that has zero where its checksum belongs is sealed by writing the checksum there.
-/

namespace Os1000.Proof

open Os1000 Lib

/-- The words of `len` bytes, most significant byte first. A last odd byte is padded with zero. -/
def be16Words (b : Bytes) (off : Nat) : Nat → List Nat
  | len + 2 => ((b off).toNat * 2 ^ 8 + (b (off + 1)).toNat) :: be16Words b (off + 2) len
  | 1 => [(b off).toNat * 2 ^ 8]
  | 0 => []

/-- One round of the second loop of `ipv4_checksum`. -/
def foldRound (sum : Nat) : Nat := (sum &&& 0xffff) + (sum >>> 16)

section

variable {b b' p : Bytes} {off off' i j k n len sum : Nat}

/-! ## The words -/

theorem be16Words_lt : ∀ x ∈ be16Words b off len, x < 2 ^ 16 := by
  fun_induction be16Words b off len with
  | case1 off len ih =>
      have h0 := (b off).toNat_lt
      have h1 := (b (off + 1)).toNat_lt
      simp only [List.mem_cons, forall_eq_or_imp]
      exact ⟨by omega, ih⟩
  | case2 off =>
      have h0 := (b off).toNat_lt
      simp only [List.mem_singleton, forall_eq]
      omega
  | case3 off => simp

theorem be16Words_length : (be16Words b off len).length = (len + 1) / 2 := by
  fun_induction be16Words b off len with
  | case1 off len ih =>
      rw [List.length_cons, ih]
      omega
  | case2 off => rfl
  | case3 off => rfl

theorem be16Words_sum_le : (be16Words b off len).sum ≤ (len + 1) / 2 * (2 ^ 16 - 1) := by
  have h := List.sum_le_card_nsmul (be16Words b off len) (2 ^ 16 - 1) fun x hx => by
    have := be16Words_lt x hx
    omega
  rwa [be16Words_length, Nat.nsmul_eq_mul] at h

/-- The words are those of the bytes, wherever they lie. -/
theorem be16Words_congr (h : ∀ i, i < len → b' (off' + i) = b (off + i)) :
    be16Words b' off' len = be16Words b off len := by
  fun_induction be16Words b off len generalizing off' with
  | case1 off len ih =>
      have h0 : b' off' = b off := h 0 (by omega)
      have h1 := h 1 (by omega)
      have hrest : be16Words b' (off' + 2) len = be16Words b (off + 2) len := by
        refine ih fun i hi => ?_
        have := h (i + 2) (by omega)
        rwa [show off' + 2 + i = off' + (i + 2) by omega, show off + 2 + i = off + (i + 2) by omega]
      rw [be16Words, h0, h1, hrest]
  | case2 off =>
      have h0 : b' off' = b off := h 0 (by omega)
      rw [be16Words, h0]
  | case3 off => rfl

/-- The word number `j`. -/
theorem be16Words_get (h : 2 * j + 1 < len) :
    (be16Words b off len)[j]? = some (readBe16 b (off + 2 * j)) := by
  fun_induction be16Words b off len generalizing j with
  | case1 off len ih =>
      cases j with
      | zero => rw [List.getElem?_cons_zero, ← readBe16_eq, Nat.mul_zero, Nat.add_zero]
      | succ j =>
          rw [List.getElem?_cons_succ, ih (by omega), show off + 2 + 2 * j = off + 2 * (j + 1) by omega]
  | case2 off => omega
  | case3 off => omega

/-- Bytes that differ in one word only differ in this word. -/
theorem be16Words_set (hj : 2 * j + 1 < len) (hn : readBe16 b' (off + 2 * j) = n)
    (h : ∀ i, i ≠ off + 2 * j → i ≠ off + 2 * j + 1 → b' i = b i) :
    be16Words b' off len = (be16Words b off len).set j n := by
  fun_induction be16Words b off len generalizing j with
  | case1 off len ih =>
      cases j with
      | zero =>
          have hrest : be16Words b' (off + 2) len = be16Words b (off + 2) len :=
            be16Words_congr fun i _ => h _ (by omega) (by omega)
          rw [Nat.mul_zero, Nat.add_zero] at hn
          rw [be16Words, hrest, List.set_cons_zero, ← readBe16_eq, hn]
      | succ j =>
          have h0 : b' off = b off := h _ (by omega) (by omega)
          have h1 : b' (off + 1) = b (off + 1) := h _ (by omega) (by omega)
          rw [be16Words, List.set_cons_succ, h0, h1]
          congr 1
          refine ih (by omega) ?_ fun i hi hi' => h i (by omega) (by omega)
          rwa [show off + 2 + 2 * j = off + 2 * (j + 1) by omega]
  | case2 off => omega
  | case3 off => omega

/-! ## Adding them up -/

/-- As long as the true sum fits 32 bits, it is what the first loop computes. -/
theorem sumWords_words (h : sum + (be16Words b off len).sum < 2 ^ 32) :
    sumWords b off len sum = sum + (be16Words b off len).sum := by
  fun_induction be16Words b off len generalizing sum with
  | case1 off len ih =>
      rw [List.sum_cons, ← readBe16_eq] at h ⊢
      rw [sumWords, u32_of_lt (by omega), ih (by omega), Nat.add_assoc]
  | case2 off =>
      rw [List.sum_singleton] at h ⊢
      rw [sumWords, Nat.shiftLeft_eq, u32_of_lt h]
  | case3 off => rfl

theorem foldSum_eq (n : Nat) : foldSum n = foldCarry (2 ^ 16) n := by
  induction n using foldSum.induct with
  | case1 n h =>
      rw [foldSum, if_pos h, foldCarry_of_lt]
      rw [Nat.shiftRight_eq_div_pow] at h
      omega
  | case2 n h ih =>
      rw [foldSum, if_neg h, ih, foldCarry_of_le (n := n) (by decide) ?_, Nat.shiftRight_eq_div_pow,
        show n &&& 0xffff = n % 2 ^ 16 from Nat.and_two_pow_sub_one_eq_mod n 16]
      rw [Nat.shiftRight_eq_div_pow] at h
      omega

theorem foldRound_eq (sum : Nat) : foldRound sum = sum % 2 ^ 16 + sum / 2 ^ 16 := by
  unfold foldRound
  rw [show sum &&& 0xffff = sum % 2 ^ 16 from Nat.and_two_pow_sub_one_eq_mod sum 16,
    Nat.shiftRight_eq_div_pow]

/-- The second loop is over after two rounds. -/
theorem foldSum_rounds (h : sum < 2 ^ 32) : ∃ n, n ≤ 2 ∧ (∀ i, i < n → foldRound^[i] sum >>> 16 ≠ 0)
    ∧ foldRound^[n] sum >>> 16 = 0 ∧ foldSum sum = foldRound^[n] sum := by
  -- what is carried gets smaller: at most 16 bits, then at most one
  have h1 := foldRound_eq sum
  have h2 := foldRound_eq (foldRound sum)
  by_cases hz : sum >>> 16 = 0
  · refine ⟨0, by omega, by omega, hz, ?_⟩
    rw [foldSum, if_pos hz]
    rfl
  · have hstep : foldSum sum = foldSum (foldRound sum) := by
      rw [foldSum, if_neg hz]
      rfl
    by_cases hz1 : foldRound sum >>> 16 = 0
    · refine ⟨1, by omega, fun i hi => ?_, hz1, ?_⟩
      · obtain rfl : i = 0 := by omega
        exact hz
      · rw [hstep, foldSum, if_pos hz1]
        rfl
    · have hz2 : foldRound (foldRound sum) >>> 16 = 0 := by
        rw [Nat.shiftRight_eq_div_pow] at hz1 ⊢
        omega
      refine ⟨2, by omega, fun i hi => ?_, hz2, ?_⟩
      · rcases (by omega : i = 0 ∨ i = 1) with rfl | rfl
        · exact hz
        · exact hz1
      · rw [hstep, foldSum, if_neg hz1]
        show foldSum (foldRound (foldRound sum)) = _
        rw [foldSum, if_pos hz2]
        rfl

/-- The sum of the words of a packet fits 32 bits. -/
theorem be16Words_sum_lt (h : len ≤ 2 ^ 16) : (be16Words b off len).sum < 2 ^ 32 := by
  have hle : (be16Words b off len).sum ≤ _ := be16Words_sum_le
  omega

/-- **The checksum**, for any number of bytes a packet can have. -/
theorem ipv4Checksum_words (h : len ≤ 2 ^ 16) :
    ipv4Checksum b off len = 2 ^ 16 - 1 - foldCarry (2 ^ 16) (be16Words b off len).sum := by
  have hsum : (be16Words b off len).sum < 2 ^ 32 := be16Words_sum_lt h
  unfold ipv4Checksum
  rw [sumWords_words (by omega), Nat.zero_add, foldSum_eq]
  have := foldCarry_lt (n := (be16Words b off len).sum) (b := 2 ^ 16) (by decide)
  unfold u16
  omega

/-- A checksum is zero when the words fold to all ones. -/
theorem ipv4Checksum_eq_zero (h : len ≤ 2 ^ 16) :
    ipv4Checksum b off len = 0 ↔ foldCarry (2 ^ 16) (be16Words b off len).sum = 2 ^ 16 - 1 := by
  have := foldCarry_lt (n := (be16Words b off len).sum) (b := 2 ^ 16) (by decide)
  rw [ipv4Checksum_words h]
  omega

/-! ## Sealing -/

/-- Writing a word that was zero adds it to the sum. -/
theorem be16Words_write (hj : 2 * j + 1 < len) (hzero : readBe16 p (off + 2 * j) = 0)
    (hn : n < 2 ^ 16) :
    (be16Words (writeBe16 p (off + 2 * j) n) off len).sum = (be16Words p off len).sum + n := by
  have hget : (be16Words p off len)[j]? = some (readBe16 p (off + 2 * j)) := be16Words_get hj
  rw [hzero] at hget
  rw [be16Words_set hj (readBe16_writeBe16 hn) fun i hi hi' => writeBe16_of_outside (by omega)]
  exact sum_set_add hget

/-- **With its checksum in place, a packet has the checksum zero.** -/
theorem ipv4Checksum_write (h : len ≤ 2 ^ 16) (hj : 2 * j + 1 < len)
    (hzero : readBe16 p (off + 2 * j) = 0) :
    ipv4Checksum (writeBe16 p (off + 2 * j) (ipv4Checksum p off len)) off len = 0 := by
  have hc : ipv4Checksum p off len = _ := ipv4Checksum_words h
  rw [ipv4Checksum_eq_zero h, be16Words_write hj hzero (by omega), hc]
  exact foldCarry_complement (by decide)

/-! ## An even number of bytes -/

/-- The sum of `k` words. -/
def wordSum (b : Bytes) (off k : Nat) : Nat := ∑ i ∈ Finset.range k, readBe16 b (off + 2 * i)

theorem be16Words_sum : (be16Words b off (2 * k)).sum = wordSum b off k := by
  induction k generalizing off with
  | zero => rfl
  | succ k ih =>
      show (((b off).toNat * 2 ^ 8 + (b (off + 1)).toNat) :: be16Words b (off + 2) (2 * k)).sum = _
      rw [List.sum_cons, ih, ← readBe16_eq]
      unfold wordSum
      rw [Finset.sum_range_succ', Nat.mul_zero, Nat.add_zero, Nat.add_comm]
      congr 1
      refine Finset.sum_congr rfl fun i _ => ?_
      congr 1
      omega

theorem ipv4Checksum_eq (hk : k ≤ 2 ^ 15) :
    ipv4Checksum b off (2 * k) = 2 ^ 16 - 1 - foldCarry (2 ^ 16) (wordSum b off k) := by
  rw [ipv4Checksum_words (by omega), be16Words_sum]

end

/--
**`ipv4_checksum` is the Internet checksum.** For up to 65535 bytes the accumulator of the
first loop never overflows, the second loop is over after at most two rounds, and the result
is the complement of the one's complement sum of the words. Written into an even place that
was zero, it makes the checksum zero.
-/
theorem internet_checksum (b : Bytes) (off len : Nat) (hlen : len ≤ 65535) :
    (∀ m, m ≤ len → sumWords b off m 0 = (be16Words b off m).sum
      ∧ (be16Words b off m).sum < 2 ^ 32)
    ∧ (∃ n, n ≤ 2 ∧ (∀ i, i < n → foldRound^[i] (sumWords b off len 0) >>> 16 ≠ 0)
      ∧ foldRound^[n] (sumWords b off len 0) >>> 16 = 0
      ∧ foldSum (sumWords b off len 0) = foldRound^[n] (sumWords b off len 0))
    ∧ ipv4Checksum b off len + onesSum (2 ^ 16) (be16Words b off len) = 2 ^ 16 - 1
    ∧ ∀ k, k % 2 = 0 → k + 1 < len → b (off + k) = 0 → b (off + k + 1) = 0 →
      ipv4Checksum (writeBe16 b (off + k) (ipv4Checksum b off len)) off len = 0 := by
  have hacc : ∀ m, m ≤ len → sumWords b off m 0 = (be16Words b off m).sum
      ∧ (be16Words b off m).sum < 2 ^ 32 := by
    intro m hm
    have hlt : (be16Words b off m).sum < 2 ^ 32 := be16Words_sum_lt (by omega)
    exact ⟨by rw [sumWords_words (by omega), Nat.zero_add], hlt⟩
  refine ⟨hacc, ?_, ?_, ?_⟩
  · obtain ⟨heq, hlt⟩ := hacc len (Nat.le_refl _)
    exact foldSum_rounds (by omega)
  · have hwords : ∀ w, w ∈ be16Words b off len → w < 2 ^ 16 := be16Words_lt
    have hones := onesSum_eq (by decide) hwords
    have hfold := foldCarry_lt (n := (be16Words b off len).sum) (b := 2 ^ 16) (by decide)
    rw [hones, ipv4Checksum_words (by omega)]
    omega
  · intro k hk hin h0 h1
    obtain ⟨j, rfl⟩ : ∃ j, k = 2 * j := ⟨k / 2, by omega⟩
    refine ipv4Checksum_write (by omega) hin ?_
    rw [readBe16_eq, h0, h1]
    rfl

/-- Three bytes, the last of them odd: `0x0000`, `0xff00`. -/
theorem internet_checksum_odd :
    ipv4Checksum (fun i => if i = 2 then 0xff else 0) 0 3 + 0xff00 = 0xffff
    ∧ ipv4Checksum (writeBe16 (fun i => if i = 2 then 0xff else 0) 0
      (ipv4Checksum (fun i => if i = 2 then 0xff else 0) 0 3)) 0 3 = 0 := by
  obtain ⟨_, _, hsum, hwrite⟩ :=
    internet_checksum (fun i => if i = 2 then 0xff else 0) 0 3 (by decide)
  have hones : onesSum (2 ^ 16) (be16Words (fun i => if i = 2 then 0xff else 0) 0 3) = 0xff00 := by
    simp [be16Words, onesSum, onesAdd]
  rw [hones] at hsum
  exact ⟨hsum, hwrite 0 rfl (by decide) rfl rfl⟩

end Os1000.Proof
