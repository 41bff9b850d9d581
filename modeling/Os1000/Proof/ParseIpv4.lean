import Os1000.Proof.Common
import Os1000.Proof.Printf
import Os1000.User.Commands
import Mathlib.Data.List.TakeWhile

/-!
# Addresses in text

`parse_ipv4` on any string, as the list of its bytes. The digit loop reads the digits the
string begins with; it gives up as soon as the number exceeds 255, and more digits only
make a number larger. A dot is no digit, so a string can be cut into groups in one way,
and the loop over the parts cuts it there. What `print_ipv4` prints is such a string.

The only `int` that grows with the string is the count of the digits, one for each leading
zero.
-/

namespace Os1000.Proof

open Os1000 Lib

/-- A group: one or more digits, of a value up to 255. -/
structure Group (g : List UInt8) : Prop where
  nonempty : g ≠ []
  digits : ∀ c, c ∈ g → isDigit c = true
  value : decValue g ≤ 255

/-- Four groups with dots between them, and the address they stand for. -/
def Quad (s : List UInt8) (ip : Nat) : Prop :=
  ∃ g₁ g₂ g₃ g₄, Group g₁ ∧ Group g₂ ∧ Group g₃ ∧ Group g₄
    ∧ s = g₁ ++ 46 :: (g₂ ++ 46 :: (g₃ ++ 46 :: g₄))
    ∧ ip = decValue g₁ * 2 ^ 24 + decValue g₂ * 2 ^ 16 + decValue g₃ * 2 ^ 8 + decValue g₄

/-- `n` groups with dots between them, read after `v`. -/
inductive Dotted : Nat → List UInt8 → Nat → Nat → Prop where
  | last {g : List UInt8} {v : Nat} : Group g → Dotted 1 g v (v * 2 ^ 8 + decValue g)
  | dot {n v w : Nat} {g s : List UInt8} : Group g → Dotted (n + 1) s (v * 2 ^ 8 + decValue g) w →
      Dotted (n + 2) (g ++ 46 :: s) v w

section

variable {m : Mem} {a e k n v w number digits : Nat} {s g : List UInt8}

theorem quad_iff : Quad s w ↔ Dotted 4 s 0 w := by
  constructor
  · rintro ⟨g₁, g₂, g₃, g₄, h₁, h₂, h₃, h₄, rfl, rfl⟩
    have h := Dotted.dot (v := 0) h₁ (.dot h₂ (.dot h₃ (.last h₄)))
    rwa [show (((0 * 2 ^ 8 + decValue g₁) * 2 ^ 8 + decValue g₂) * 2 ^ 8 + decValue g₃) * 2 ^ 8
      + decValue g₄ = decValue g₁ * 2 ^ 24 + decValue g₂ * 2 ^ 16 + decValue g₃ * 2 ^ 8
      + decValue g₄ by omega] at h
  · intro h
    cases h with
    | dot h₁ h =>
        cases h with
        | dot h₂ h =>
            cases h with
            | dot h₃ h =>
                cases h with
                | last h₄ => exact ⟨_, _, _, _, h₁, h₂, h₃, h₄, rfl, by omega⟩

/-! ## The digits a string begins with -/

theorem Group.split (hg : Group g) : (g ++ 46 :: s).takeWhile isDigit = g
    ∧ (g ++ 46 :: s).dropWhile isDigit = 46 :: s := by
  have hdot : isDigit 46 = false := by decide
  refine ⟨?_, ?_⟩
  · rw [List.takeWhile_append_of_pos hg.digits, List.takeWhile_cons_of_neg (by rw [hdot]; decide),
      List.append_nil]
  · rw [List.dropWhile_append_of_pos hg.digits, List.dropWhile_cons_of_neg (by rw [hdot]; decide)]

theorem Group.whole (hg : Group g) : g.takeWhile isDigit = g ∧ g.dropWhile isDigit = [] := by
  refine ⟨List.takeWhile_eq_self_iff.mpr hg.digits, List.dropWhile_eq_nil_iff.mpr hg.digits⟩

/-- The last group is all of what is left. -/
theorem dotted_one_iff : Dotted 1 s v w ↔ Group (s.takeWhile isDigit) ∧ s.dropWhile isDigit = []
    ∧ w = v * 2 ^ 8 + decValue (s.takeWhile isDigit) := by
  constructor
  · intro h
    cases h with
    | last hg => rw [hg.whole.1]; exact ⟨hg, hg.whole.2, rfl⟩
  · rintro ⟨hg, hrest, rfl⟩
    have hs : s.takeWhile isDigit = s := by
      have := List.takeWhile_append_dropWhile (p := isDigit) (l := s)
      rwa [hrest, List.append_nil] at this
    rw [hs] at hg ⊢
    exact .last hg

/-- A group that is not the last is followed by a dot. -/
theorem dotted_succ_iff : Dotted (n + 2) s v w ↔ Group (s.takeWhile isDigit)
    ∧ ∃ rest, s.dropWhile isDigit = 46 :: rest
      ∧ Dotted (n + 1) rest (v * 2 ^ 8 + decValue (s.takeWhile isDigit)) w := by
  constructor
  · intro h
    cases h with
    | dot hg h => rw [hg.split.1]; exact ⟨hg, _, hg.split.2, h⟩
  · rintro ⟨hg, rest, hrest, h⟩
    have hs := List.takeWhile_append_dropWhile (p := isDigit) (l := s)
    rw [hrest] at hs
    rw [← hs]
    exact .dot hg h

theorem Dotted.first (h : Dotted (n + 1) s v w) : Group (s.takeWhile isDigit) := by
  cases n with
  | zero => exact (dotted_one_iff.mp h).1
  | succ n => exact (dotted_succ_iff.mp h).1

/-- **The digit loop** reads the digits the string begins with. -/
theorem parseNumber_eq (hend : Ends m a k) (he : a + k < e) (hnum : number ≤ 255)
    (hdig : digits + k < 2 ^ 31) :
    parseNumber m a e number digits
      = .ok (if 255 < decFrom number ((text m a (k + 1)).takeWhile isDigit) then none
        else some (decFrom number ((text m a (k + 1)).takeWhile isDigit),
          digits + ((text m a (k + 1)).takeWhile isDigit).length,
          a + ((text m a (k + 1)).takeWhile isDigit).length)) := by
  induction k generalizing a number digits with
  | zero =>
      have h0 : m a = 0 := hend.zero
      rw [parseNumber, if_pos (by omega), h0, if_neg (by decide), text_nil h0, List.takeWhile_nil,
        decFrom_nil, if_neg (by omega)]
      rfl
  | succ k ih =>
      rw [parseNumber, if_pos (by omega), text_cons hend.head]
      by_cases hd : 48 ≤ (m a).toNat ∧ (m a).toNat ≤ 57
      · have hdigit : isDigit (m a) = true := decide_eq_true hd
        rw [if_pos hd, if_pos (by omega), List.takeWhile_cons_of_pos hdigit, decFrom_cons]
        by_cases hbig : 255 < number * 10 + ((m a).toNat - 48)
        · have hmore := Nat.lt_of_lt_of_le hbig (le_decFrom (s := (text m (a + 1) (k + 1)).takeWhile isDigit))
          rw [if_pos hbig, if_pos hmore]
        · rw [if_neg hbig, if_pos (by omega), ih hend.tail (by omega) (by omega) (by omega),
            List.length_cons, show digits + 1 + ((text m (a + 1) (k + 1)).takeWhile isDigit).length
              = digits + (((text m (a + 1) (k + 1)).takeWhile isDigit).length + 1) by omega,
            show a + 1 + ((text m (a + 1) (k + 1)).takeWhile isDigit).length
              = a + (((text m (a + 1) (k + 1)).takeWhile isDigit).length + 1) by omega]
      · have hdigit : ¬ isDigit (m a) = true := fun h => hd (of_decide_eq_true h)
        rw [if_neg hd, List.takeWhile_cons_of_neg hdigit, decFrom_nil, if_neg (by omega)]
        rfl

theorem takeWhile_group (hne : ((text m a (k + 1)).takeWhile isDigit).length ≠ 0)
    (hle : decValue ((text m a (k + 1)).takeWhile isDigit) ≤ 255) :
    Group ((text m a (k + 1)).takeWhile isDigit) where
  nonempty h := hne (by rw [h]; rfl)
  digits _ hc := List.mem_takeWhile_imp hc
  value := hle

/-! ## The parts -/

/-- `value = (value << 8) | number`, while there is room for it. -/
theorem shift_value {x : Nat} (hv : v * 2 ^ 8 < 2 ^ 32) (hx : x ≤ 255) :
    u32 (v <<< 8) ||| x = v * 2 ^ 8 + x := by
  have hlow : x < 2 ^ 8 := by omega
  rw [Nat.shiftLeft_eq, u32_of_lt hv, ← Nat.shiftLeft_eq, ← Nat.shiftLeft_add_eq_or_of_lt hlow,
    Nat.shiftLeft_eq]

theorem text_eq_nil_iff : text m a (k + 1) = [] ↔ m a = 0 := by
  constructor
  · intro h
    by_contra hne
    rw [text_cons hne] at h
    cases h
  · exact text_nil

/-- A part that is no group is refused. -/
theorem parseParts_refuses (hend : Ends m a k) (he : a + k < e) (hk : k < 2 ^ 31)
    (hno : ¬ Group ((text m a (k + 1)).takeWhile isDigit)) :
    parseParts m e (n + 1) a v = .ok none := by
  have hnumber := parseNumber_eq hend he (Nat.zero_le 255) (by omega : 0 + k < 2 ^ 31)
  rw [parseParts, hnumber, ok_bind]
  by_cases hbig : 255 < decFrom 0 ((text m a (k + 1)).takeWhile isDigit)
  · rw [if_pos hbig]
    rfl
  · rw [if_neg hbig]
    by_cases hlen : ((text m a (k + 1)).takeWhile isDigit).length = 0
    · dsimp only
      rw [if_pos (by omega)]
      rfl
    · exact absurd (takeWhile_group hlen (Nat.le_of_not_lt hbig)) hno

/-- A part that is a group is read, and unless it is the last the dot behind it. -/
theorem parseParts_group (hend : Ends m a k) (he : a + k < e) (hk : k < 2 ^ 31)
    (hg : Group ((text m a (k + 1)).takeWhile isDigit)) (hv : v * 2 ^ 8 < 2 ^ 32) :
    ∃ j, j ≤ k ∧ Ends m (a + j) (k - j)
      ∧ text m (a + j) (k - j + 1) = (text m a (k + 1)).dropWhile isDigit
      ∧ parseParts m e (n + 1) a v
        = if 0 < n then
            if m (a + j) ≠ 46 then .ok none
            else parseParts m e n (a + j + 1)
              (v * 2 ^ 8 + decValue ((text m a (k + 1)).takeWhile isDigit))
          else parseParts m e n (a + j)
            (v * 2 ^ 8 + decValue ((text m a (k + 1)).takeWhile isDigit)) := by
  obtain ⟨hj, hend', htext⟩ := hend.dropWhile isDigit
  refine ⟨_, hj, hend', htext, ?_⟩
  have hnumber := parseNumber_eq hend he (Nat.zero_le 255) (by omega : 0 + k < 2 ^ 31)
  have hlen : ((text m a (k + 1)).takeWhile isDigit).length ≠ 0 :=
    fun h => hg.nonempty (List.length_eq_zero_iff.mp h)
  have hsmall : ¬ 255 < decFrom 0 ((text m a (k + 1)).takeWhile isDigit) :=
    Nat.not_lt.mpr hg.value
  rw [if_neg hsmall] at hnumber
  rw [parseParts, hnumber, ok_bind]
  dsimp only
  rw [if_neg (by omega), loadAt_ok (by omega), ok_bind]
  show (if 0 < n then _ else _) = _
  rw [show u32 (v <<< 8) ||| decFrom 0 ((text m a (k + 1)).takeWhile isDigit)
    = v * 2 ^ 8 + decValue ((text m a (k + 1)).takeWhile isDigit) from shift_value hv hg.value]
  rfl

/-- **The loop over the parts** accepts dotted strings, up to what comes behind them. -/
theorem parseParts_spec (n : Nat) : ∀ {a k v : Nat}, Ends m a k → a + k < e → k < 2 ^ 31 →
    (v + 1) * 2 ^ (8 * (n + 1)) ≤ 2 ^ 32 →
    ∃ r, parseParts m e (n + 1) a v = .ok r
      ∧ (∀ w, Dotted (n + 1) (text m a (k + 1)) v w ↔ ∃ a', r = some (a', w) ∧ m a' = 0)
      ∧ ∀ a' w, r = some (a', w) → a' < e := by
  induction n with
  | zero =>
      intro a k v hend he hk hv
      by_cases hg : Group ((text m a (k + 1)).takeWhile isDigit)
      · have hv8 : v * 2 ^ 8 < 2 ^ 32 := by omega
        obtain ⟨j, hj, _, htext, hstep⟩ := parseParts_group (n := 0) hend he hk hg hv8
        rw [if_neg (by omega), parseParts] at hstep
        refine ⟨_, hstep, fun w => ?_, fun a' w h => ?_⟩
        · rw [dotted_one_iff, ← htext, text_eq_nil_iff]
          simp only [Option.some.injEq, Prod.mk.injEq]
          constructor
          · rintro ⟨_, h0, rfl⟩
            exact ⟨_, ⟨rfl, rfl⟩, h0⟩
          · rintro ⟨_, ⟨rfl, rfl⟩, h0⟩
            exact ⟨hg, h0, rfl⟩
        · simp only [Option.some.injEq, Prod.mk.injEq] at h
          omega
      · refine ⟨_, parseParts_refuses hend he hk hg, fun w => ?_, by simp⟩
        simp [show ¬ Dotted 1 (text m a (k + 1)) v w from fun h => hg h.first]
  | succ n ih =>
      intro a k v hend he hk hv
      by_cases hg : Group ((text m a (k + 1)).takeWhile isDigit)
      · have hroom : (v + 1) * 2 ^ 8 * 2 ^ (8 * (n + 1)) ≤ 2 ^ 32 := by
          rw [Nat.mul_assoc, ← Nat.pow_add]
          refine Nat.le_trans (Nat.le_of_eq ?_) hv
          congr 2
          omega
        have hvalue := hg.value
        have hle : (v + 1) * 2 ^ 8 ≤ 2 ^ 32 :=
          Nat.le_trans (Nat.le_mul_of_pos_right _ (Nat.two_pow_pos _)) hroom
        have hv8 : v * 2 ^ 8 < 2 ^ 32 := by omega
        obtain ⟨j, hj, hend', htext, hstep⟩ := parseParts_group (n := n + 1) hend he hk hg hv8
        rw [if_pos (by omega)] at hstep
        by_cases hdot : m (a + j) = 46
        · -- behind the dot, the string goes on
          obtain ⟨k', hk'⟩ : ∃ k', k - j = k' + 1 := by
            refine ⟨k - j - 1, ?_⟩
            by_contra hcon
            have hzero : k - j = 0 := by omega
            rw [hzero] at hend'
            exact absurd (hdot.symm.trans hend'.zero) (by decide)
          rw [hk'] at hend' htext
          rw [text_cons hend'.head, hdot] at htext
          have hnext : (v * 2 ^ 8 + decValue ((text m a (k + 1)).takeWhile isDigit) + 1)
              * 2 ^ (8 * (n + 1)) ≤ 2 ^ 32 :=
            Nat.le_trans (Nat.mul_le_mul_right _ (by omega)) hroom
          obtain ⟨r, hr, hiff, hlt⟩ := ih hend'.tail (by omega) (by omega) hnext
          rw [if_neg (not_not_intro hdot), hr] at hstep
          refine ⟨r, hstep, fun w => ?_, hlt⟩
          rw [dotted_succ_iff, ← hiff w, ← htext]
          constructor
          · rintro ⟨_, rest, hrest, h⟩
            injection hrest with _ hrest
            exact hrest ▸ h
          · exact fun h => ⟨hg, _, rfl, h⟩
        · rw [if_pos hdot] at hstep
          refine ⟨none, hstep, fun w => ?_, by simp⟩
          have hno : ¬ Dotted (n + 2) (text m a (k + 1)) v w := by
            intro h
            obtain ⟨_, rest, hrest, _⟩ := dotted_succ_iff.mp h
            rw [← htext] at hrest
            by_cases h0 : m (a + j) = 0
            · rw [text_nil h0] at hrest
              cases hrest
            · rw [text_cons h0] at hrest
              injection hrest with hc _
              exact hdot hc
          simp [hno]
      · refine ⟨_, parseParts_refuses hend he hk hg, fun w => ?_, by simp⟩
        simp [show ¬ Dotted (n + 2) (text m a (k + 1)) v w from fun h => hg h.first]

/-- **`parse_ipv4`** on a string in an array: it accepts dotted quads, and nothing else. -/
theorem parseIpv4_spec (hs : HoldsString m a s) (he : a + s.length < e) (hlen : s.length < 2 ^ 31)
    (ip : Nat) : (∀ w, Quad s w → parseIpv4 m a e ip = .ok (true, w))
      ∧ ((∀ w, ¬ Quad s w) → parseIpv4 m a e ip = .ok (false, ip)) := by
  have hroom : (0 + 1) * 2 ^ (8 * (3 + 1)) ≤ 2 ^ 32 := by decide
  obtain ⟨r, hr, hiff, hlt⟩ := parseParts_spec 3 hs.ends he hlen hroom
  rw [hs.text] at hiff
  unfold parseIpv4
  rw [hr, ok_bind]
  refine ⟨fun w hq => ?_, fun hno => ?_⟩
  · obtain ⟨a', rfl, h0⟩ := (hiff w).mp (quad_iff.mp hq)
    dsimp only
    rw [loadAt_ok (hlt a' w rfl), ok_bind, h0, if_neg (by decide)]
    rfl
  · cases r with
    | none => rfl
    | some r =>
        obtain ⟨a', w⟩ := r
        have h0 : m a' ≠ 0 := fun h0 => hno w (quad_iff.mpr ((hiff w).mpr ⟨a', rfl, h0⟩))
        dsimp only
        rw [loadAt_ok (hlt a' w rfl), ok_bind, if_pos h0]
        rfl

/-! ## What `print_ipv4` prints -/

theorem group_of_canonical (h : Canonical s v) (hv : v ≤ 255) : Group s :=
  ⟨h.nonempty, h.digits, by rw [h.value]; exact hv⟩

/-- A byte is printed as a group. -/
theorem printNum_byte {x : Nat} (hx : x < 256) :
    ∃ s, printNum (BitVec.ofNat 32 x).toInt = .ok s ∧ Group s ∧ decValue s = x ∧ s.length ≤ 3 := by
  have hint : (BitVec.ofNat 32 x).toInt = (x : Int) := by
    rw [BitVec.toInt_ofNat', Int.bmod_eq_of_le (by omega) (by omega)]
  have hlow : -2 ^ 31 < (x : Int) := by omega
  obtain ⟨s, hs, t, hc, hst⟩ := printNum_ok hlow (by omega)
  rw [if_neg (by omega)] at hst
  rw [Int.natAbs_natCast, ← hst] at hc
  exact ⟨s, hint ▸ hs, group_of_canonical hc (by omega), hc.value,
    hc.length_le (Nat.lt_trans hx (by decide))⟩

/-- A `%d`. -/
theorem printf_num {mem : Mem} {fmt out rest : List UInt8} {arg : BitVec 32}
    {vargs : List (BitVec 32)} (hout : printNum arg.toInt = .ok out)
    (hrest : printf mem e fmt vargs = .ok rest) :
    printf mem e (37 :: 100 :: fmt) (arg :: vargs) = .ok (out ++ rest) := by
  rw [printf, if_pos rfl, if_pos (by decide)]
  dsimp only
  rw [if_neg (by decide), if_pos rfl, hout, ok_bind, hrest, ok_bind]
  rfl

/-- A character that stands for itself. -/
theorem printf_plain {mem : Mem} {fmt rest : List UInt8} {c d : UInt8} {vargs : List (BitVec 32)}
    (hc : c ≠ 37) (hrest : printf mem e (d :: fmt) vargs = .ok rest) :
    printf mem e (c :: d :: fmt) vargs = .ok (c :: rest) := by
  rw [printf.eq_def]
  dsimp only
  rw [if_neg hc, hrest, ok_bind]
  rfl

/-- **`print_ipv4` prints the dotted quad of its address.** -/
theorem printIpv4_quad (mem : Mem) (e : Nat) {ip : Nat} (hip : ip < 2 ^ 32) :
    ∃ s, printIpv4 mem e ip = .ok s ∧ Quad s ip ∧ s.length ≤ 15 := by
  have hbyte : ∀ i, (ip >>> i) &&& 0xff = ip / 2 ^ i % 2 ^ 8 := fun i => by
    rw [Nat.shiftRight_eq_div_pow]
    exact Nat.and_two_pow_sub_one_eq_mod _ 8
  have hlow : ip &&& 0xff = ip % 2 ^ 8 := Nat.and_two_pow_sub_one_eq_mod _ 8
  have hbound : ∀ x, x % 2 ^ 8 < 256 := fun x => Nat.mod_lt x (by decide)
  obtain ⟨s₁, h₁, hg₁, hv₁, hl₁⟩ := printNum_byte (hbound (ip / 2 ^ 24))
  obtain ⟨s₂, h₂, hg₂, hv₂, hl₂⟩ := printNum_byte (hbound (ip / 2 ^ 16))
  obtain ⟨s₃, h₃, hg₃, hv₃, hl₃⟩ := printNum_byte (hbound (ip / 2 ^ 8))
  obtain ⟨s₄, h₄, hg₄, hv₄, hl₄⟩ := printNum_byte (hbound ip)
  refine ⟨s₁ ++ 46 :: (s₂ ++ 46 :: (s₃ ++ 46 :: (s₄ ++ []))), ?_,
    ⟨s₁, s₂, s₃, s₄, hg₁, hg₂, hg₃, hg₄, by rw [List.append_nil], by omega⟩, ?_⟩
  swap
  · simp only [List.length_append, List.length_cons, List.length_nil]
    omega
  unfold printIpv4
  rw [hbyte, hbyte, hbyte, hlow]
  exact printf_num h₁ (printf_plain (by decide) (printf_num h₂ (printf_plain (by decide)
    (printf_num h₃ (printf_plain (by decide) (printf_num h₄ rfl))))))

/-- There is no zero byte in a dotted quad. -/
theorem Quad.nonzero (h : Quad s w) : (0 : UInt8) ∉ s := by
  have hgroup : ∀ g, Group g → (0 : UInt8) ∉ g := fun g hg h0 =>
    absurd (hg.digits 0 h0) (by decide)
  obtain ⟨g₁, g₂, g₃, g₄, h₁, h₂, h₃, h₄, rfl, _⟩ := h
  simp [hgroup g₁ h₁, hgroup g₂ h₂, hgroup g₃ h₃, hgroup g₄ h₄]

/-- A string is read as one address only. -/
theorem parseIpv4_iff (hs : HoldsString m a s) (hlen : s.length < 2 ^ 31) (ip v : Nat) :
    parseIpv4 m a (a + s.length + 1) ip = .ok (true, v) ↔ Quad s v := by
  obtain ⟨hyes, hno⟩ := parseIpv4_spec hs (Nat.lt_succ_self _) hlen ip
  refine ⟨fun h => ?_, hyes v⟩
  by_cases hany : ∃ w, Quad s w
  · obtain ⟨w, hw⟩ := hany
    have heq := h.symm.trans (hyes w hw)
    injection heq with heq
    injection heq with _ heq
    exact heq ▸ hw
  · have heq := h.symm.trans (hno fun w hw => hany ⟨w, hw⟩)
    injection heq with heq
    injection heq with heq _
    cases heq

end

/--
**Addresses in text.** For every string of fewer than `2 ^ 31` bytes, `parse_ipv4` returns true with
the address if the string is a dotted quad, and otherwise returns false and leaves `*ip` alone; it
reads nothing behind the zero byte, and no `int` overflows. And what `print_ipv4` prints for an
address is read back as that address.
-/
theorem parseIpv4_exact (m : Mem) (a : Nat) (s : List UInt8) (ip : Nat) (hs : HoldsString m a s)
    (hlen : s.length < 2 ^ 31) :
    (∀ v, parseIpv4 m a (a + s.length + 1) ip = .ok (true, v) ↔ Quad s v)
    ∧ ((∀ v, ¬ Quad s v) → parseIpv4 m a (a + s.length + 1) ip = .ok (false, ip))
    ∧ ∀ mem e addr, addr < 2 ^ 32 → ∃ t, printIpv4 mem e addr = .ok t
      ∧ HoldsString (literal t) 0 t
      ∧ ∀ m' a' ip', HoldsString m' a' t →
        parseIpv4 m' a' (a' + t.length + 1) ip' = .ok (true, addr) := by
  refine ⟨fun v => parseIpv4_iff hs hlen ip v, fun hno => ?_, fun mem e addr haddr => ?_⟩
  · exact (parseIpv4_spec hs (Nat.lt_succ_self _) hlen ip).2 hno
  · obtain ⟨t, ht, hq, hl⟩ := printIpv4_quad mem e haddr
    exact ⟨t, ht, holdsString_literal hq.nonzero, fun m' a' ip' ht' =>
      (parseIpv4_iff ht' (by omega) ip' addr).mpr hq⟩

/-- `"10.0.2.015"` is the local address, and so is what is printed for it. -/
theorem parseIpv4_exact_local :
    parseIpv4 (literal [49, 48, 46, 48, 46, 50, 46, 48, 49, 53]) 0 11 7 = .ok (true, 167772687)
    ∧ ∃ t, printIpv4 (fun _ => 0) 0 167772687 = .ok t
      ∧ parseIpv4 (literal t) 0 (0 + t.length + 1) 7 = .ok (true, 167772687) := by
  have hs : HoldsString (literal [49, 48, 46, 48, 46, 50, 46, 48, 49, 53]) 0
      [49, 48, 46, 48, 46, 50, 46, 48, 49, 53] := holdsString_literal (by decide)
  obtain ⟨hiff, _, hprint⟩ := parseIpv4_exact _ 0 _ 7 hs (by decide)
  obtain ⟨t, ht, hlit, hback⟩ := hprint (fun _ => 0) 0 167772687 (by decide)
  have hquad : Quad [49, 48, 46, 48, 46, 50, 46, 48, 49, 53] 167772687 :=
    ⟨[49, 48], [48], [50], [48, 49, 53], ⟨by simp, by simp [isDigit], by decide⟩,
      ⟨by simp, by simp [isDigit], by decide⟩, ⟨by simp, by simp [isDigit], by decide⟩,
      ⟨by simp, by simp [isDigit], by decide⟩, rfl, rfl⟩
  exact ⟨(hiff 167772687).mpr hquad, t, ht, hback _ 0 7 hlit⟩

/-- `2 ^ 31` zeroes. -/
def manyZeroes : Mem := fun j => if j < 2 ^ 31 then 48 else 0

theorem manyZeroes_holds : HoldsString manyZeroes 0 (List.replicate (2 ^ 31) 48) := by
  refine holdsString_of_bytes (fun h => ?_) (fun j hj => ?_) ?_
  · exact absurd (List.eq_of_mem_replicate h) (by decide)
  · rw [List.length_replicate] at hj
    rw [List.getElem?_replicate_of_lt hj]
    unfold manyZeroes
    rw [if_pos (by omega)]
  · rw [List.length_replicate]
    unfold manyZeroes
    rw [if_neg (by omega)]

/-- Every zero is counted, and the last one is one too many. -/
theorem parseNumber_manyZeroes : ∀ (n j : Nat), j + n + 1 = 2 ^ 31 →
    parseNumber manyZeroes j (2 ^ 31 + 1) 0 j = .error .overflow
  | n, j, hj => by
      have hzero : manyZeroes j = 48 := if_pos (by omega)
      rw [parseNumber, if_pos (by omega), hzero, if_pos (by decide), if_pos (by decide),
        if_neg (by decide)]
      cases n with
      | zero => rw [if_neg (by omega)]
      | succ n =>
          rw [if_pos (by omega)]
          exact parseNumber_manyZeroes n (j + 1) (by omega)

/-- A string of `2 ^ 31` zeroes overflows `digits`. -/
theorem parseIpv4_overflows : ∃ m s, HoldsString m 0 s
    ∧ parseIpv4 m 0 (0 + s.length + 1) 0 = .error .overflow := by
  refine ⟨manyZeroes, List.replicate (2 ^ 31) 48, manyZeroes_holds, ?_⟩
  rw [List.length_replicate, Nat.zero_add]
  unfold parseIpv4
  rw [parseParts, parseNumber_manyZeroes (2 ^ 31 - 1) 0 (by omega), error_bind, error_bind]

end Os1000.Proof
