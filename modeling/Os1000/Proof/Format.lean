import Os1000.Proof.Printf
import Os1000.Spec.Format

/-!
# `printf` writes what its format says

The printer goes over the format once, and takes an argument where it comes upon a conversion. It
stops where an argument is missing, a string does not end in its memory, or the number is the
smallest `int`; otherwise it writes what the format says, and there is only one text that it
could be.
-/

namespace Os1000.Proof

open Os1000 Lib

section

variable {m : Mem} {a e : Nat} {s out : List UInt8} {w : BitVec 32} {num : Int}

/-! ## Strings -/

/-- `printString` writes the string, if it ends. -/
theorem printString_iff : printString m a e = .ok s ↔ HoldsString m a s ∧ a + s.length < e := by
  induction s generalizing a with
  | nil =>
      rw [holdsString_nil, printString]
      by_cases ha : a < e
      · rw [if_pos ha]
        by_cases h0 : m a = 0
        · simp [h0, ha]
        · rw [if_neg h0]
          refine ⟨fun h => ?_, fun h => absurd h.1 h0⟩
          obtain ⟨rest, _, h⟩ := bind_eq_ok.mp h
          simp at h
      · rw [if_neg ha]
        exact ⟨(fun h => by cases h), fun h => absurd h.2 ha⟩
  | cons c s ih =>
      rw [holdsString_cons, printString]
      by_cases ha : a < e
      · rw [if_pos ha]
        by_cases h0 : m a = 0
        · rw [if_pos h0]
          refine ⟨(fun h => by cases h), fun h => absurd (h.1.1.symm.trans h0) h.1.2.1⟩
        · rw [if_neg h0, List.length_cons]
          constructor
          · intro h
            obtain ⟨rest, hrest, h⟩ := bind_eq_ok.mp h
            rw [pure_eq_ok, List.cons.injEq] at h
            obtain ⟨hc, rfl⟩ := h
            obtain ⟨h1, h2⟩ := ih.mp hrest
            exact ⟨⟨hc, hc ▸ h0, h1⟩, by omega⟩
          · rintro ⟨⟨hc, _, h1⟩, h2⟩
            rw [ih.mpr ⟨h1, by omega⟩, ok_bind, hc]
            rfl
      · rw [if_neg ha, List.length_cons]
        exact ⟨(fun h => by cases h), fun h => absurd h.2 (by omega)⟩

/-! ## Numbers -/

/-- `printNum` writes the number, unless it is the smallest. -/
theorem printNum_iff (hlow : -2 ^ 31 ≤ num) (hhigh : num < 2 ^ 31) :
    printNum num = .ok s ↔ CanonicalInt s num ∧ num ≠ -2 ^ 31 := by
  by_cases hmin : num = -2 ^ 31
  · refine ⟨fun h => ?_, fun h => absurd hmin h.2⟩
    rw [hmin] at h
    unfold printNum at h
    rw [if_neg (by decide), if_pos (by decide), if_neg (by decide)] at h
    cases h
  · obtain ⟨t, ht, hc⟩ := printNum_ok (show -2 ^ 31 < num by omega) hhigh
    rw [ht]
    constructor
    · intro h
      rw [← Except.ok.inj h]
      exact ⟨hc, hmin⟩
    · rintro ⟨hc', _⟩
      rw [hc.unique hc']

theorem printPointer_eq (p : BitVec 32) (n : Nat) : printPointer p n = hexadecimal n p.toNat := by
  induction n with
  | zero => rfl
  | succ n ih =>
      have hdigit : (p.toNat >>> (n * 4)) &&& 0xf = p.toNat / 16 ^ n % 16 := by
        rw [Nat.shiftRight_eq_div_pow, show (0xf : Nat) = 2 ^ 4 - 1 from rfl,
          Nat.and_two_pow_sub_one_eq_mod, Nat.mul_comm n 4, Nat.pow_mul]
      rw [printPointer, hexadecimal, ih, hdigit]
      unfold hexDigit
      congr 1
      by_cases h10 : 10 ≤ p.toNat / 16 ^ n % 16
      · rw [if_pos h10, if_pos h10]
        congr 1
        omega
      · rw [if_neg h10, if_neg h10]

/-! ## The format -/

/-- What is written for an argument. -/
def convert (m : Mem) (e : Nat) (w : BitVec 32) : Conversion → Except Stop (List UInt8)
  | .str => printString m w.toNat e
  | .num => printNum w.toInt
  | .hex => .ok (printPointer w 8)

theorem convert_iff (k : Conversion) : convert m e w k = .ok s ↔ Shows m e k w s := by
  cases k with
  | str =>
      refine printString_iff.trans ⟨fun h => .str h.1 h.2, fun h => ?_⟩
      cases h with
      | str h1 h2 => exact ⟨h1, h2⟩
  | num =>
      refine (printNum_iff (BitVec.le_toInt w) (BitVec.toInt_lt (x := w))).trans
        ⟨fun h => .num h.1 h.2, fun h => ?_⟩
      cases h with
      | num h1 h2 => exact ⟨h1, h2⟩
  | hex =>
      rw [convert, printPointer_eq]
      constructor
      · intro h
        rw [← Except.ok.inj h]
        exact .hex
      · intro h
        cases h
        rfl

/-- The character that names a conversion. -/
theorem conversion_some {d : UInt8} {k : Conversion} (h : conversion d = some k) :
    k = .str ∧ d = 115 ∨ k = .num ∧ d = 100 ∨ k = .hex ∧ d = 120 := by
  unfold conversion at h
  split at h
  · exact Or.inl ⟨(Option.some.inj h).symm, ‹_›⟩
  split at h
  · exact Or.inr (Or.inl ⟨(Option.some.inj h).symm, ‹_›⟩)
  split at h
  · exact Or.inr (Or.inr ⟨(Option.some.inj h).symm, ‹_›⟩)
  · cases h

theorem conversion_none {d : UInt8} (h : conversion d = none) : ¬ (d = 115 ∨ d = 100 ∨ d = 120) := by
  rintro (rfl | rfl | rfl)
  · cases h
  · cases h
  · cases h

variable {c d : UInt8} {fmt : List UInt8} {vargs : List (BitVec 32)} {k : Conversion}

theorem printf_missing (hk : conversion d = some k) :
    printf m e (37 :: d :: fmt) [] = .error .outOfBounds := by
  rw [printf, if_pos rfl, if_pos]
  rcases conversion_some hk with ⟨_, h⟩ | ⟨_, h⟩ | ⟨_, h⟩
  · exact Or.inl h
  · exact Or.inr (Or.inl h)
  · exact Or.inr (Or.inr h)

/-- A conversion takes an argument. -/
theorem printf_convert (hk : conversion d = some k) : printf m e (37 :: d :: fmt) (w :: vargs)
    = convert m e w k >>= fun out => printf m e fmt vargs >>= fun rest => pure (out ++ rest) := by
  rw [printf, if_pos rfl]
  rcases conversion_some hk with ⟨rfl, rfl⟩ | ⟨rfl, rfl⟩ | ⟨rfl, rfl⟩
  · rfl
  · rfl
  · rfl

/-- Any other character after a percent sign is written, and the sign too. -/
theorem printf_percent (hk : conversion d = none) : printf m e (37 :: d :: fmt) vargs
    = printf m e fmt vargs >>= fun rest => pure (37 :: d :: rest) := by
  rw [printf.eq_def]
  dsimp only
  rw [if_pos rfl, if_neg (conversion_none hk)]

theorem printf_char (hc : c ≠ 37) : printf m e (c :: d :: fmt) vargs
    = printf m e (d :: fmt) vargs >>= fun rest => pure (c :: rest) := by
  rw [printf.eq_def]
  dsimp only
  rw [if_neg hc]

theorem directives_char (hc : c ≠ 37) :
    directives (c :: d :: fmt) = .plain c :: directives (d :: fmt) := by
  rw [directives, if_neg hc]

theorem directives_percent (d : UInt8) (fmt : List UInt8) :
    directives (37 :: d :: fmt) = ((conversion d).elim (.percent d) .convert) :: directives fmt := by
  rw [directives, if_pos rfl]

end

/--
**`printf` writes what its format says, and nothing else.** For every format, every arguments and
every memory, it returns exactly if the format can be rendered, and then it has written the
rendering: each character for itself, each `%d` as the decimal representation of its argument, each
`%x` as eight hexadecimal digits, and each `%s` as the string at its argument, which ends in its
memory. There is no rendering where an argument is missing or a `%d` gets the smallest `int`.
-/
theorem printf_renders (m : Mem) (e : Nat) : ∀ (fmt : List UInt8) (vargs : List (BitVec 32))
    (out : List UInt8), printf m e fmt vargs = .ok out ↔ Renders m e (directives fmt) vargs out
  | [], vargs, out => by
      rw [printf, directives]
      constructor
      · intro h
        rw [← Except.ok.inj h]
        exact .done
      · intro h
        cases h
        rfl
  | [c], vargs, out => by
      rw [printf, directives]
      by_cases hc : c = 37
      · rw [if_pos hc, if_pos hc]
        constructor
        · intro h
          rw [← Except.ok.inj h]
          exact .done
        · intro h
          cases h
          rfl
      · rw [if_neg hc, if_neg hc]
        constructor
        · intro h
          rw [← Except.ok.inj h]
          exact .plain .done
        · intro h
          cases h with
          | plain h =>
              cases h
              rfl
  | c :: d :: fmt, vargs, out => by
      by_cases hc : c = 37
      · subst hc
        have ih := printf_renders m e fmt
        rw [directives_percent]
        cases hk : conversion d with
        | none =>
            rw [printf_percent hk, bind_eq_ok]
            constructor
            · rintro ⟨rest, hrest, h⟩
              rw [← pure_eq_ok.mp h]
              exact .percent ((ih vargs rest).mp hrest)
            · intro h
              cases h with
              | percent h => exact ⟨_, (ih vargs _).mpr h, rfl⟩
        | some k =>
            cases vargs with
            | nil =>
                rw [printf_missing hk]
                constructor
                · intro h
                  cases h
                · intro h
                  cases h
            | cons w vargs =>
                rw [printf_convert hk, bind_eq_ok]
                constructor
                · rintro ⟨s, hs, h⟩
                  obtain ⟨rest, hrest, h⟩ := bind_eq_ok.mp h
                  rw [← pure_eq_ok.mp h]
                  exact .convert ((convert_iff k).mp hs) ((ih vargs rest).mp hrest)
                · intro h
                  cases h with
                  | convert hs h =>
                      refine ⟨_, (convert_iff k).mpr hs, ?_⟩
                      rw [(ih vargs _).mpr h]
                      rfl
      · have ih := printf_renders m e (d :: fmt)
        rw [directives_char hc, printf_char hc, bind_eq_ok]
        constructor
        · rintro ⟨rest, hrest, h⟩
          rw [← pure_eq_ok.mp h]
          exact .plain ((ih vargs rest).mp hrest)
        · intro h
          cases h with
          | plain h => exact ⟨_, (ih vargs _).mpr h, rfl⟩

end Os1000.Proof
