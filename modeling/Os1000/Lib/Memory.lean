import Mathlib.Algebra.Order.Ring.Int

/-!
# Byte memory with little-endian words

Memory is a byte for every address. Words are four bytes, least significant
first, and are read and written at any address. What the rest of the development
uses is three kinds of law: a word read back where it was written, a read that a
write elsewhere does not disturb, and which bytes a block operation touches.
-/

namespace Os1000.Lib

/-- Memory: one byte at every address. -/
abbrev Mem := Nat → UInt8

/-- The four bytes at `a`, least significant first. -/
def load32 (m : Mem) (a : Nat) : Nat :=
  (m a).toNat + 2 ^ 8 * (m (a + 1)).toNat + 2 ^ 16 * (m (a + 2)).toNat
    + 2 ^ 24 * (m (a + 3)).toNat

/-- Write the low 32 bits of `v` at `a`. -/
def store32 (m : Mem) (a v : Nat) : Mem := fun x =>
  if x = a then UInt8.ofNat v
  else if x = a + 1 then UInt8.ofNat (v / 2 ^ 8)
  else if x = a + 2 then UInt8.ofNat (v / 2 ^ 16)
  else if x = a + 3 then UInt8.ofNat (v / 2 ^ 24)
  else m x

/-- The eight bytes at `a`, least significant first. -/
def load64 (m : Mem) (a : Nat) : Nat := load32 m a + 2 ^ 32 * load32 m (a + 4)

/-- Write the low 64 bits of `v` at `a`. -/
def store64 (m : Mem) (a v : Nat) : Mem := store32 (store32 m a v) (a + 4) (v / 2 ^ 32)

/-- Set `n` bytes from `a` on to `c`, one after the other. -/
def fill (m : Mem) (a : Nat) (c : UInt8) : Nat → Mem
  | 0 => m
  | n + 1 => fill (Function.update m a c) (a + 1) c n

/-- Write the bytes `bs` from `a` on, one after the other. -/
def writeBytes (m : Mem) (a : Nat) : List UInt8 → Mem
  | [] => m
  | b :: bs => writeBytes (Function.update m a b) (a + 1) bs

variable {m m' : Mem} {a b v x : Nat}

/-- A word depends on its four bytes only. -/
theorem load32_congr (h : ∀ x, a ≤ x → x < a + 4 → m x = m' x) : load32 m a = load32 m' a := by
  unfold load32
  rw [h a (by omega) (by omega), h (a + 1) (by omega) (by omega),
    h (a + 2) (by omega) (by omega), h (a + 3) (by omega) (by omega)]

theorem load32_zero (h : ∀ x, a ≤ x → x < a + 4 → m x = 0) : load32 m a = 0 := by
  unfold load32
  rw [h a (by omega) (by omega), h (a + 1) (by omega) (by omega),
    h (a + 2) (by omega) (by omega), h (a + 3) (by omega) (by omega)]
  rfl

/-- A byte outside the written word is untouched. -/
theorem store32_of_outside (h : x < a ∨ a + 4 ≤ x) : store32 m a v x = m x := by
  unfold store32
  rw [if_neg (by omega), if_neg (by omega), if_neg (by omega), if_neg (by omega)]

/-- What is read back is what fits. -/
theorem load32_store32_mod : load32 (store32 m a v) a = v % 2 ^ 32 := by
  have e0 : store32 m a v a = UInt8.ofNat v := by simp [store32]
  have e1 : store32 m a v (a + 1) = UInt8.ofNat (v / 2 ^ 8) := by simp [store32]
  have e2 : store32 m a v (a + 2) = UInt8.ofNat (v / 2 ^ 16) := by simp [store32]
  have e3 : store32 m a v (a + 3) = UInt8.ofNat (v / 2 ^ 24) := by simp [store32]
  unfold load32
  rw [e0, e1, e2, e3]
  simp only [UInt8.toNat_ofNat']
  omega

theorem load32_store32 (hv : v < 2 ^ 32) : load32 (store32 m a v) a = v := by
  rw [load32_store32_mod, Nat.mod_eq_of_lt hv]

/-- A word disjoint from the written one is untouched. -/
theorem load32_store32_of_disjoint (h : b + 4 ≤ a ∨ a + 4 ≤ b) :
    load32 (store32 m a v) b = load32 m b :=
  load32_congr fun x h1 h2 => store32_of_outside (by omega)

theorem load64_congr (h : ∀ x, a ≤ x → x < a + 8 → m x = m' x) : load64 m a = load64 m' a := by
  unfold load64
  rw [load32_congr fun x h1 h2 => h x h1 (by omega),
    load32_congr (a := a + 4) fun x h1 h2 => h x (by omega) (by omega)]

theorem load64_store64 (hv : v < 2 ^ 64) : load64 (store64 m a v) a = v := by
  unfold load64 store64
  rw [load32_store32_of_disjoint (by omega), load32_store32_mod, load32_store32_mod]
  omega

theorem fill_apply (c : UInt8) :
    ∀ (n : Nat) (m : Mem) (a x : Nat), fill m a c n x = if a ≤ x ∧ x < a + n then c else m x
  | 0, m, a, x => by
      rw [fill, if_neg (by omega)]
  | n + 1, m, a, x => by
      rw [fill, fill_apply c n]
      by_cases hx : x = a
      · subst hx
        rw [if_neg (by omega), if_pos (by omega), Function.update_self]
      · rw [Function.update_of_ne hx]
        by_cases h : a ≤ x ∧ x < a + (n + 1)
        · rw [if_pos (by omega), if_pos h]
        · rw [if_neg (by omega), if_neg h]

theorem writeBytes_apply :
    ∀ (bs : List UInt8) (m : Mem) (a x : Nat),
      writeBytes m a bs x = if a ≤ x then (bs[x - a]?).getD (m x) else m x
  | [], m, a, x => by
      simp [writeBytes]
  | b :: bs, m, a, x => by
      rw [writeBytes, writeBytes_apply bs]
      by_cases hx : x = a
      · subst hx
        rw [if_neg (by omega), if_pos (by omega), Function.update_self]
        simp
      · rw [Function.update_of_ne hx]
        by_cases h : a ≤ x
        · rw [if_pos (by omega), if_pos h, show x - a = (x - (a + 1)) + 1 by omega]
          simp
        · rw [if_neg (by omega), if_neg h]

/-- A byte outside the written block is untouched. -/
theorem writeBytes_of_outside {bs : List UInt8} (h : x < a ∨ a + bs.length ≤ x) :
    writeBytes m a bs x = m x := by
  rw [writeBytes_apply]
  split
  · rw [List.getElem?_eq_none (by omega)]; rfl
  · rfl

end Os1000.Lib
