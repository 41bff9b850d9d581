import Os1000.Lib.Run
import Mathlib.Logic.Function.Basic
import Mathlib.Data.Nat.Bitwise

/-!
# A platform-level interrupt controller

Each source has a gateway. While its line is high, the gateway forwards one request, and the
source is then pending; it forwards no other until the one that was claimed is completed. A
hart context claims the pending source of the highest priority, the lowest number first,
among those it has enabled, and completes it by writing the number back. The context is
interrupted while one of those has a priority above its threshold.

There is one context here besides the sources; `read` and `write` are its registers by their
offsets, where `ctx` is its number.
-/

namespace Os1000.Lib

/-- A controller of the sources `1`, …, `n`. -/
structure Plic (n : Nat) where
  priority : Nat → Nat
  /-- The enable bits, in words of 32. -/
  enable : Nat → Nat
  threshold : Nat
  pending : Nat → Bool
  claimed : Nat → Bool

namespace Plic

variable {n : Nat}

/-- After a reset, with whatever is pending. -/
def reset (pending : Nat → Bool) : Plic n where
  priority _ := 0
  enable _ := 0
  threshold := 0
  pending
  claimed _ := false

/-- Whether the context has source `i` enabled. -/
def enabled (p : Plic n) (i : Nat) : Bool := (p.enable (i / 32)).testBit (i % 32)

/-- Whether source `i` can be claimed. A priority of zero never interrupts. -/
def ready (p : Plic n) (i : Nat) : Bool :=
  decide (0 < i ∧ i ≤ n) && p.pending i && p.enabled i && decide (0 < p.priority i)

/-- Whether the context is interrupted. -/
def eip (p : Plic n) : Bool :=
  (List.range (n + 1)).any fun i => p.ready i && decide (p.threshold < p.priority i)

/-- The source to be claimed, or `0`. -/
def best (p : Plic n) : Nat :=
  (List.range (n + 1)).foldl
    (fun b i => if p.ready i ∧ (b = 0 ∨ p.priority b < p.priority i) then i else b) 0

/-- The claim register is read. -/
def claim (p : Plic n) : Nat × Plic n :=
  let i := p.best
  if i = 0 then (0, p)
  else (i, { p with
    pending := Function.update p.pending i false, claimed := Function.update p.claimed i true })

/-- The completion register is written. Sources that are not enabled are ignored. -/
def complete (p : Plic n) (i : Nat) : Plic n :=
  if p.enabled i then { p with claimed := Function.update p.claimed i false } else p

/-- The gateway of source `i` forwards a request. -/
def forward (p : Plic n) (i : Nat) : Plic n :=
  { p with pending := Function.update p.pending i true }

/-! ## Registers -/

/-- Where the enable bits of a context begin. -/
def enableOffset (ctx : Nat) : Nat := 0x2000 + 0x80 * ctx
/-- The threshold of a context. -/
def thresholdOffset (ctx : Nat) : Nat := 0x200000 + 0x1000 * ctx
/-- The claim and completion register of a context. -/
def claimOffset (ctx : Nat) : Nat := thresholdOffset ctx + 4

/-- A word is written. -/
def write (ctx : Nat) (p : Plic n) (off v : Nat) : Plic n :=
  if off < 0x1000 then { p with priority := Function.update p.priority (off / 4) v }
  else if enableOffset ctx ≤ off ∧ off < enableOffset ctx + 0x80 then
    { p with enable := Function.update p.enable ((off - enableOffset ctx) / 4) v }
  else if off = thresholdOffset ctx then { p with threshold := v }
  else if off = claimOffset ctx then p.complete v
  else p

/-- A word is read. -/
def read (ctx : Nat) (p : Plic n) (off : Nat) : Nat × Plic n :=
  if off < 0x1000 then (p.priority (off / 4), p)
  else if enableOffset ctx ≤ off ∧ off < enableOffset ctx + 0x80 then
    (p.enable ((off - enableOffset ctx) / 4), p)
  else if off = thresholdOffset ctx then (p.threshold, p)
  else if off = claimOffset ctx then p.claim
  else (0, p)

/-! ## What is claimed -/

variable {p : Plic n} {i j : Nat}

theorem ready_iff : p.ready i = true ↔
    (0 < i ∧ i ≤ n) ∧ p.pending i = true ∧ p.enabled i = true ∧ 0 < p.priority i := by
  unfold ready
  rw [Bool.and_eq_true, Bool.and_eq_true, Bool.and_eq_true, decide_eq_true_iff, decide_eq_true_iff,
    and_assoc, and_assoc]

theorem eip_iff : p.eip = true ↔ ∃ i, p.ready i = true ∧ p.threshold < p.priority i := by
  unfold eip
  rw [List.any_eq_true]
  constructor
  · rintro ⟨i, _, hi⟩
    rw [Bool.and_eq_true, decide_eq_true_iff] at hi
    exact ⟨i, hi⟩
  · rintro ⟨i, hr, hp⟩
    refine ⟨i, List.mem_range.mpr (Nat.lt_succ_of_le (ready_iff.mp hr).1.2), ?_⟩
    rw [Bool.and_eq_true, decide_eq_true_iff]
    exact ⟨hr, hp⟩

/-- What is claimed can be claimed, and something is if something can be. -/
theorem best_spec (p : Plic n) : (p.best ≠ 0 → p.ready p.best = true)
    ∧ ∀ i, p.ready i = true → p.best ≠ 0 := by
  -- over the sources that were looked at
  have h := loop_inv (f := fun b i => if p.ready i ∧ (b = 0 ∨ p.priority b < p.priority i) then i else b)
    (fun k b => (b ≠ 0 → p.ready b = true) ∧ ∀ i, i < k → p.ready i = true → b ≠ 0) (s := 0) (n + 1)
    ⟨fun h => absurd rfl h, fun _ hi => absurd hi (Nat.not_lt_zero _)⟩ fun k b _ hb => by
      split
      · next hc => exact ⟨fun _ => hc.1, fun _ _ _ => Nat.ne_of_gt (ready_iff.mp hc.1).1.1⟩
      · next hc =>
          refine ⟨hb.1, fun i hi hr => ?_⟩
          rcases Nat.lt_succ_iff_lt_or_eq.mp hi with hlt | rfl
          · exact hb.2 i hlt hr
          · exact fun h0 => hc ⟨hr, Or.inl h0⟩
  exact ⟨h.1, fun i hr => h.2 i (Nat.lt_succ_of_le (ready_iff.mp hr).1.2) hr⟩

/-- A source that interrupts can be claimed. -/
theorem best_ne_zero_of_eip (h : p.eip = true) : p.best ≠ 0 := by
  obtain ⟨i, hr, _⟩ := eip_iff.mp h
  exact p.best_spec.2 i hr

/-- Reading the claim register while something can be claimed. -/
theorem claim_of_ne_zero (h : p.best ≠ 0) : p.claim = (p.best, { p with
    pending := Function.update p.pending p.best false,
    claimed := Function.update p.claimed p.best true }) := by
  unfold claim
  exact if_neg h

end Plic

end Os1000.Lib
