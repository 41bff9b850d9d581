import Mathlib.Logic.Function.Basic

/-!
# Programs that make calls

A program computes, and from time to time makes a call and goes on with what it gets back. What a
call does is not known to the program: it is a tree with a branch for every reply. An environment
answers the calls, and `wp` says what holds after a program has run in one, whatever it answers.
-/

namespace Os1000.Lib

/-- A program with calls `ι`, of which `i` gets a reply in `ρ i`. It may stop with an error. -/
inductive Prog (ι : Type) (ρ : ι → Type) (ε α : Type) where
  | ret (a : α)
  | stop (e : ε)
  | call (i : ι) (next : ρ i → Prog ι ρ ε α)

namespace Prog

variable {ι ε α β γ σ : Type} {ρ : ι → Type}

/-- One program after another. -/
def bind : Prog ι ρ ε α → (α → Prog ι ρ ε β) → Prog ι ρ ε β
  | .ret a, f => f a
  | .stop e, _ => .stop e
  | .call i next, f => .call i fun r => (next r).bind f

instance : Monad (Prog ι ρ ε) where
  pure := .ret
  bind := Prog.bind

@[simp] theorem ret_bind (a : α) (f : α → Prog ι ρ ε β) : ((.ret a : Prog ι ρ ε α) >>= f) = f a := rfl

/-- Make a call. -/
def perform (i : ι) : Prog ι ρ ε (ρ i) := .call i .ret

/-- Compute. -/
def lift : Except ε α → Prog ι ρ ε α
  | .ok a => .ret a
  | .error e => .stop e

@[simp] theorem lift_ok (a : α) : (lift (.ok a) : Prog ι ρ ε α) = .ret a := rfl

/-- Make one call after another. -/
def each (f : β → Prog ι ρ ε Unit) : List β → Prog ι ρ ε Unit
  | [] => .ret ()
  | b :: l => f b >>= fun _ => each f l

end Prog

/-! ## Environments -/

/-- An environment answers calls. A call that it lets wait may never return. -/
structure Env (ι : Type) (ρ : ι → Type) (σ : Type) where
  step : σ → (i : ι) → ρ i → σ → Prop
  waits : σ → ι → Prop

section

variable {ι ε α β σ : Type} {ρ : ι → Type} {E : Env ι ρ σ} {Q Q' : α → σ → Prop}

/-- A program makes calls. -/
inductive Exec (E : Env ι ρ σ) : Prog ι ρ ε α → σ → Prog ι ρ ε α → σ → Prop where
  | refl {p : Prog ι ρ ε α} {s : σ} : Exec E p s p s
  | call {i : ι} {next : ρ i → Prog ι ρ ε α} {r : ρ i} {p : Prog ι ρ ε α} {s s' s'' : σ} :
      E.step s i r s' → Exec E (next r) s' p s'' → Exec E (.call i next) s p s''

/-- The weakest precondition: the program does not stop with an error, makes no call that the
environment neither answers nor lets wait, and when it is done, `Q` holds. -/
def wp (E : Env ι ρ σ) : Prog ι ρ ε α → (α → σ → Prop) → σ → Prop
  | .ret a, Q, s => Q a s
  | .stop _, _, _ => False
  | .call i next, Q, s =>
      (E.waits s i ∨ ∃ r s', E.step s i r s') ∧ ∀ r s', E.step s i r s' → wp E (next r) Q s'

theorem wp_bind (p : Prog ι ρ ε α) (f : α → Prog ι ρ ε β) {Q : β → σ → Prop} {s : σ}
    (h : wp E p (fun a s => wp E (f a) Q s) s) : wp E (p >>= f) Q s := by
  induction p generalizing s with
  | ret a => exact h
  | stop e => exact h
  | call i next ih => exact ⟨h.1, fun r s' hs => ih r (h.2 r s' hs)⟩

theorem wp_mono {p : Prog ι ρ ε α} {s : σ} (h : wp E p Q s) (hQ : ∀ a s, Q a s → Q' a s) :
    wp E p Q' s := by
  induction p generalizing s with
  | ret a => exact hQ a s h
  | stop e => exact h
  | call i next ih => exact ⟨h.1, fun r s' hs => ih r (h.2 r s' hs)⟩

/-- What holds before an execution holds on the way. -/
theorem Exec.wp {p p' : Prog ι ρ ε α} {s s' : σ} (he : Exec E p s p' s') (h : wp E p Q s) :
    wp E p' Q s' := by
  induction he with
  | refl => exact h
  | call hs _ ih => exact ih (h.2 _ _ hs)

/-- An environment that answers as another does allows what that one does. -/
theorem Exec.weaken {E' : Env ι ρ σ} {p p' : Prog ι ρ ε α} {s s' : σ} (he : Exec E p s p' s')
    (hstep : ∀ s i r s', E.step s i r s' → E'.step s i r s') : Exec E' p s p' s' := by
  induction he with
  | refl => exact .refl
  | call hs _ ih => exact .call (hstep _ _ _ _ hs) ih

/-- **A program returns** where no call may wait. -/
theorem wp_returns {p : Prog ι ρ ε α} {s : σ} (hwaits : ∀ s i, ¬ E.waits s i) (h : wp E p Q s) :
    ∃ a s', Exec E p s (.ret a) s' ∧ Q a s' := by
  induction p generalizing s with
  | ret a => exact ⟨a, s, .refl, h⟩
  | stop e => exact h.elim
  | call i next ih =>
      rcases h.1 with hw | ⟨r, s₁, hs⟩
      · exact absurd hw (hwaits s i)
      · obtain ⟨a, s', he, hq⟩ := ih r (h.2 r s₁ hs)
        exact ⟨a, s', .call hs he, hq⟩

end

end Os1000.Lib
