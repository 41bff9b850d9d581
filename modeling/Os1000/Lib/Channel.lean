import Mathlib.Data.List.Basic
import Mathlib.Logic.Function.Basic

/-!
# Rings

**With free-running counters.** One side writes entries into the slots of a ring and counts them, the other side reads
them and counts what it has read. Both counters run on for ever and wrap at a modulus
that the number of slots divides, so that a counter says both which slot is next and,
compared with the other, how much is unread.

`Carries` relates the slots and the two counters to the list of everything ever
published and the number of entries ever taken. The writer is two steps, first the slot
and then the counter, and the slot may only be written while there is room.

**Going round.** `ahead n a b` is how many steps, at least one, it takes from slot `a` to
slot `b`. Whoever always moves on to the first candidate ahead passes every candidate
before coming back to where the round began.
-/

namespace Os1000.Lib

/-- A ring of `n` slots can be run with counters modulo `m`. -/
structure Wraps (n m : Nat) : Prop where
  pos : 0 < n
  lt : n < m
  dvd : n ∣ m

/-- The entries between the two counters, oldest first. -/
def unread {α : Type} (n m : Nat) (slots : Nat → α) (head tail : Nat) : List α :=
  (List.range ((head + m - tail) % m)).map fun j => slots ((tail + j) % n)

/-- The ring carries the entries of `log` from number `taken` on. -/
structure Carries {α : Type} (n m : Nat) (slots : Nat → α) (head tail : Nat) (log : List α)
    (taken : Nat) : Prop where
  head : head = log.length % m
  tail : tail = taken % m
  le : taken ≤ log.length
  room : log.length ≤ taken + n
  slot : ∀ k a, taken ≤ k → log[k]? = some a → slots (k % n) = a

section

variable {α : Type} {n m : Nat} {slots : Nat → α} {head tail taken : Nat} {log : List α} {a : α}

/-- The distance of two counters is the number of steps between them. -/
theorem distance_mod {t d : Nat} (hd : d < m) : ((t + d) % m + m - t % m) % m = d := by
  have hpos : 0 < m := by omega
  have hr : t % m < m := Nat.mod_lt t hpos
  have hsum : (t + d) % m = (t % m + d) % m := (Nat.mod_add_mod t m d).symm
  rw [hsum]
  by_cases hlt : t % m + d < m
  · rw [Nat.mod_eq_of_lt hlt, show t % m + d + m - t % m = d + m by omega, Nat.add_mod_right,
      Nat.mod_eq_of_lt hd]
  · have hback : (t % m + d) % m = t % m + d - m := by
      rw [Nat.mod_eq_sub_mod (by omega), Nat.mod_eq_of_lt (by omega)]
    rw [hback, show t % m + d - m + m - t % m = d by omega, Nat.mod_eq_of_lt hd]

theorem succ_mod (t : Nat) : (t % m + 1) % m = (t + 1) % m := Nat.mod_add_mod t m 1

theorem Wraps.slot_eq (hw : Wraps n m) (t : Nat) : t % m % n = t % n :=
  Nat.mod_mod_of_dvd t hw.dvd

theorem Carries.start (hw : Wraps n m) : Carries n m slots 0 0 [] 0 where
  head := (Nat.zero_mod m).symm
  tail := (Nat.zero_mod m).symm
  le := Nat.le_refl 0
  room := Nat.le_of_lt (Nat.lt_of_lt_of_le hw.pos (Nat.le_add_left n 0))
  slot k a _ h := by cases h

theorem Carries.distance (hc : Carries n m slots head tail log taken) (hw : Wraps n m) :
    (head + m - tail) % m = log.length - taken := by
  have hlt := hw.lt
  have hroom := hc.room
  obtain ⟨d, hd⟩ : ∃ d, log.length = taken + d := ⟨log.length - taken, by have := hc.le; omega⟩
  rw [hc.head, hc.tail, hd, distance_mod (by omega)]
  omega

/-- The counters are equal exactly when everything has been taken. -/
theorem Carries.eq_iff (hc : Carries n m slots head tail log taken) (hw : Wraps n m) :
    tail = head ↔ taken = log.length := by
  have hle := hc.le
  constructor
  · intro h
    have hd := hc.distance hw
    rw [h, Nat.add_sub_cancel_left, Nat.mod_self] at hd
    omega
  · intro h
    rw [hc.head, hc.tail, h]

/-- The next entry to take is in the slot the reader's counter points at. -/
theorem Carries.next (hc : Carries n m slots head tail log taken) (hw : Wraps n m)
    (hne : tail ≠ head) : log[taken]? = some (slots (tail % n)) := by
  have hlt : taken < log.length :=
    Nat.lt_of_le_of_ne hc.le fun h => hne ((hc.eq_iff hw).mpr h)
  have hs := hc.slot taken _ (Nat.le_refl taken) (List.getElem?_eq_getElem hlt)
  rw [hc.tail, hw.slot_eq, hs, List.getElem?_eq_getElem hlt]

/-- **What lies between the counters** is what was published and not taken, in order. -/
theorem Carries.unread_eq (hc : Carries n m slots head tail log taken) (hw : Wraps n m) :
    unread n m slots head tail = log.drop taken := by
  unfold unread
  rw [hc.distance hw]
  refine List.ext_getElem? fun j => ?_
  rw [List.getElem?_map, List.getElem?_drop]
  by_cases hj : j < log.length - taken
  · have hlt : taken + j < log.length := by omega
    have hs := hc.slot (taken + j) _ (by omega) (List.getElem?_eq_getElem hlt)
    have hslot : (tail + j) % n = (taken + j) % n := by
      rw [hc.tail, Nat.add_mod, hw.slot_eq, ← Nat.add_mod]
    rw [List.getElem?_range hj, Option.map_some, hslot, hs, List.getElem?_eq_getElem hlt]
  · rw [List.getElem?_eq_none (by rw [List.length_range]; omega), Option.map_none,
      List.getElem?_eq_none (by omega)]

/-- **Writing the next slot** disturbs nothing unread, while there is room. -/
theorem Carries.write (hc : Carries n m slots head tail log taken) (hw : Wraps n m)
    (hroom : log.length < taken + n) (a : α) :
    Carries n m (Function.update slots (head % n) a) head tail log taken := by
  refine ⟨hc.head, hc.tail, hc.le, hc.room, fun k b hk hb => ?_⟩
  have hlt : k < log.length := by
    by_contra hge
    rw [List.getElem?_eq_none (by omega)] at hb
    cases hb
  have hne : k % n ≠ head % n := by
    rw [hc.head, hw.slot_eq]
    intro he
    -- fewer than `n` apart, so not in the same slot
    have hd := distance_mod (m := n) (t := k) (d := log.length - k) (by omega)
    rw [show k + (log.length - k) = log.length by omega, ← he,
      Nat.add_sub_cancel_left, Nat.mod_self] at hd
    omega
  rw [Function.update_of_ne hne]
  exact hc.slot k b hk hb

/-- **Publishing** the entry in the next slot. -/
theorem Carries.publish (hc : Carries n m slots head tail log taken) (hw : Wraps n m)
    (hroom : log.length < taken + n) (hs : slots (head % n) = a) :
    Carries n m slots ((head + 1) % m) tail (log ++ [a]) taken := by
  refine ⟨?_, hc.tail, ?_, ?_, fun k b hk hb => ?_⟩
  · rw [hc.head, succ_mod, List.length_append, List.length_singleton]
  · have := hc.le
    rw [List.length_append]
    omega
  · rw [List.length_append, List.length_singleton]
    omega
  · by_cases hlt : k < log.length
    · rw [List.getElem?_append_left hlt] at hb
      exact hc.slot k b hk hb
    · rw [List.getElem?_append_right (by omega)] at hb
      have hk0 : k - log.length = 0 := by
        by_contra hne
        rw [List.getElem?_eq_none (by rw [List.length_singleton]; omega)] at hb
        cases hb
      rw [hk0, List.getElem?_cons_zero] at hb
      injection hb with hb
      rw [show k = log.length by omega, ← hb, ← hs, hc.head, hw.slot_eq]

/-- **Taking** the next entry. -/
theorem Carries.take (hc : Carries n m slots head tail log taken) (hw : Wraps n m)
    (hne : tail ≠ head) : Carries n m slots head ((tail + 1) % m) log (taken + 1) := by
  have hlt : taken < log.length :=
    Nat.lt_of_le_of_ne hc.le fun h => hne ((hc.eq_iff hw).mpr h)
  have hroom := hc.room
  refine ⟨hc.head, ?_, hlt, by omega, fun k a hk => hc.slot k a (by omega)⟩
  rw [hc.tail, succ_mod]

end

/-! ## Going round -/

section

/-- The number of steps from `a` to `b`, a full round if they are the same. -/
def ahead (n a b : Nat) : Nat := if a < b then b - a else b + n - a

variable {n a b c x : Nat}

theorem ahead_mod {i : Nat} (ha : a < n) (hi : i < n) : ahead n a ((a + 1 + i) % n) = i + 1 := by
  unfold ahead
  by_cases h : a + 1 + i < n
  · rw [Nat.mod_eq_of_lt h, if_pos (by omega)]
    omega
  · rw [Nat.mod_eq_sub_mod (by omega), Nat.mod_eq_of_lt (by omega), if_neg (by omega)]
    omega

/-- Among the slots on one side of `a` the lowest is the first ahead. -/
theorem ahead_le_of_le (h : (a < x ∧ a < b) ∨ (x < a ∧ b < a)) (hle : x ≤ b) :
    ahead n a x ≤ ahead n a b := by
  unfold ahead
  split <;> split <;> omega

/--
**No overtaking.** The round began at `a` and has come to `c`, not as far as `b`. Moving on to an
`x` no further than `b`, one gets to `b` or is still short of it, and not back at `a`.
-/
theorem ahead_step (ha : a < n) (hb : b < n) (hc : c < n) (hx : x < n) (_ : b ≠ a)
    (h : c = a ∨ ahead n a c < ahead n a b) (hle : ahead n c x ≤ ahead n c b) :
    x = b ∨ (x ≠ a ∧ ahead n a x < ahead n a b) := by
  unfold ahead at *
  split at h <;> split at h <;> split at hle <;> split at hle <;> split <;> omega

end

end Os1000.Lib
