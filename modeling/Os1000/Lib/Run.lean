import Mathlib.Data.List.Basic
import Mathlib.Data.List.Induction

/-!
# Runs, paths and loops

The induction rules everything above is proved with, stated once.

* A **run** starts in an initial state and takes labelled steps; it carries the
  list of its labels, oldest first. A **path** is a stretch of a run that also
  remembers the state after each label.
* A **counting loop** `for (i = 0; i < n; i++)` is a fold over `List.range n`,
  in `Except` when its body may fail. `loop_inv` and `loopM_inv` are its
  invariant rules, `loopM_ok` the rule that also shows it does not fail;
  `listM_inv` and `listM_ok` are the rules for a loop over a list.
-/

namespace Os1000.Lib

/-! ## Failing computations -/

section Failure

variable {ε α β : Type}

theorem ok_bind {a : α} {f : α → Except ε β} : ((.ok a : Except ε α) >>= f) = f a := rfl

theorem error_bind {e : ε} {f : α → Except ε β} : ((.error e : Except ε α) >>= f) = .error e := rfl

/-- A sequence succeeds exactly when both halves do. -/
theorem bind_eq_ok {x : Except ε α} {f : α → Except ε β} {b : β} :
    (x >>= f) = .ok b ↔ ∃ a, x = .ok a ∧ f a = .ok b := by
  cases x with
  | error e => simp [bind, Except.bind]
  | ok a => simp [bind, Except.bind]

@[simp] theorem pure_eq_ok {a b : α} : (pure a : Except ε α) = .ok b ↔ a = b := by
  simp [pure, Except.pure]

end Failure

/-! ## Counting loops -/

section Loops

variable {σ ε : Type}

/-- **Invariant rule** for a loop that cannot fail. -/
theorem loop_inv {f : σ → Nat → σ} (P : Nat → σ → Prop) {s : σ} :
    ∀ (n : Nat), P 0 s → (∀ i t, i < n → P i t → P (i + 1) (f t i)) →
      P n ((List.range n).foldl f s)
  | 0, h0, _ => by simpa using h0
  | n + 1, h0, hstep => by
      rw [List.range_succ, List.foldl_append]
      exact hstep n _ (Nat.lt_succ_self n)
        (loop_inv P n h0 fun i t hi => hstep i t (Nat.lt_succ_of_lt hi))

/-- **Invariant rule** for a loop whose body may fail. -/
theorem loopM_inv {f : σ → Nat → Except ε σ} (P : Nat → σ → Prop) {s : σ} :
    ∀ (n : Nat) {s' : σ}, P 0 s → (∀ i t t', i < n → P i t → f t i = .ok t' → P (i + 1) t') →
      (List.range n).foldlM f s = .ok s' → P n s'
  | 0, s', h0, _, h => by
      have : s = s' := by simpa using h
      exact this ▸ h0
  | n + 1, s', h0, hstep, h => by
      rw [List.range_succ, List.foldlM_append, bind_eq_ok] at h
      obtain ⟨t, ht, h⟩ := h
      have hn := loopM_inv P n h0 (fun i t t' hi => hstep i t t' (Nat.lt_succ_of_lt hi)) ht
      rw [List.foldlM_cons, bind_eq_ok] at h
      obtain ⟨t', ht', h⟩ := h
      have : t' = s' := by simpa using h
      exact this ▸ hstep n t t' (Nat.lt_succ_self n) hn ht'

/-- **Total rule**: when no iteration fails from the invariant, neither does the loop. -/
theorem loopM_ok {f : σ → Nat → Except ε σ} (P : Nat → σ → Prop) {s : σ} :
    ∀ (n : Nat), P 0 s → (∀ i t, i < n → P i t → ∃ t', f t i = .ok t' ∧ P (i + 1) t') →
      ∃ s', (List.range n).foldlM f s = .ok s' ∧ P n s'
  | 0, h0, _ => ⟨s, by simp [pure, Except.pure], h0⟩
  | n + 1, h0, hstep => by
      obtain ⟨t, ht, hn⟩ := loopM_ok P n h0 fun i t hi => hstep i t (Nat.lt_succ_of_lt hi)
      obtain ⟨t', ht', hn'⟩ := hstep n t (Nat.lt_succ_self n) hn
      refine ⟨t', ?_, hn'⟩
      rw [List.range_succ, List.foldlM_append, bind_eq_ok]
      exact ⟨t, ht, by simp [ht']⟩

/-- **Invariant rule** for a loop over a list, given the part that has been worked off. -/
theorem listM_inv {α : Type} {f : σ → α → Except ε σ} (P : List α → σ → Prop) (l : List α) :
    ∀ {s s' : σ}, P [] s →
      (∀ pre a t t', a ∈ l → P pre t → f t a = .ok t' → P (pre ++ [a]) t') →
      l.foldlM f s = .ok s' → P l s' := by
  -- generalised over the part that is done already
  have key : ∀ (l' pre : List α), (∀ a, a ∈ l' → a ∈ l) → ∀ {s s' : σ}, P pre s →
      (∀ pre a t t', a ∈ l → P pre t → f t a = .ok t' → P (pre ++ [a]) t') →
      l'.foldlM f s = .ok s' → P (pre ++ l') s' := by
    intro l'
    induction l' with
    | nil =>
        intro pre _ s s' h0 _ h
        have : s = s' := by simpa using h
        rw [List.append_nil]
        exact this ▸ h0
    | cons a l' ih =>
        intro pre hsub s s' h0 hstep h
        rw [List.foldlM_cons, bind_eq_ok] at h
        obtain ⟨t, ht, h⟩ := h
        have h1 := hstep pre a s t (hsub a List.mem_cons_self) h0 ht
        have h2 := ih (pre ++ [a]) (fun b hb => hsub b (List.mem_cons_of_mem a hb)) h1 hstep h
        rwa [List.append_assoc] at h2
  intro s s' h0 hstep h
  exact key l [] (fun _ ha => ha) h0 hstep h

/-- **Total rule** for a loop over a list. -/
theorem listM_ok {α : Type} {f : σ → α → Except ε σ} (P : List α → σ → Prop) (l : List α) {s : σ}
    (h0 : P [] s)
    (hstep : ∀ pre a post t, pre ++ a :: post = l → P pre t →
      ∃ t', f t a = .ok t' ∧ P (pre ++ [a]) t') :
    ∃ s', l.foldlM f s = .ok s' ∧ P l s' := by
  -- generalised over the part that is done already
  have key : ∀ (l' pre : List α), pre ++ l' = l → ∀ {s : σ}, P pre s →
      ∃ s', l'.foldlM f s = .ok s' ∧ P l s' := by
    intro l'
    induction l' with
    | nil =>
        intro pre hl s hs
        rw [List.append_nil] at hl
        exact ⟨s, rfl, hl ▸ hs⟩
    | cons a l' ih =>
        intro pre hl s hs
        obtain ⟨t, ht, h1⟩ := hstep pre a l' s hl hs
        obtain ⟨s', hs', h2⟩ := ih (pre ++ [a]) (by rw [List.append_assoc]; exact hl) h1
        refine ⟨s', ?_, h2⟩
        rw [List.foldlM_cons, bind_eq_ok]
        exact ⟨t, ht, hs'⟩
  exact key l [] rfl h0

end Loops

/-! ## Runs and paths -/

section Runs

variable {σ ε : Type} {init : σ → Prop} {step step' : σ → ε → σ → Prop}

/-- A run from an initial state, with the labels of its steps, oldest first. -/
inductive Run (init : σ → Prop) (step : σ → ε → σ → Prop) : List ε → σ → Prop where
  | start {s : σ} : init s → Run init step [] s
  | snoc {tr : List ε} {s s' : σ} {e : ε} :
      Run init step tr s → step s e s' → Run init step (tr ++ [e]) s'

/-- A stretch of a run: each label with the state it led to. -/
inductive Path (step : σ → ε → σ → Prop) : σ → List (ε × σ) → σ → Prop where
  | nil {s : σ} : Path step s [] s
  | cons {s s' s'' : σ} {e : ε} {es : List (ε × σ)} :
      step s e s' → Path step s' es s'' → Path step s ((e, s') :: es) s''

/-- **What every step preserves holds in every state a run reaches.** -/
theorem Run.invariant {P : σ → Prop} (h0 : ∀ s, init s → P s)
    (hstep : ∀ s e s', P s → step s e s' → P s') {tr : List ε} {s : σ}
    (h : Run init step tr s) : P s := by
  induction h with
  | start hi => exact h0 _ hi
  | snoc _ hs ih => exact hstep _ _ _ ih hs

/-- The same for a property of the state and the labels so far. -/
theorem Run.invariant_trace {P : List ε → σ → Prop} (h0 : ∀ s, init s → P [] s)
    (hstep : ∀ tr s e s', Run init step tr s → P tr s → step s e s' → P (tr ++ [e]) s')
    {tr : List ε} {s : σ} (h : Run init step tr s) : P tr s := by
  induction h with
  | start hi => exact h0 _ hi
  | snoc hr hs ih => exact hstep _ _ _ _ hr ih hs

theorem Run.snoc_inv {tr : List ε} {e : ε} {s' : σ} (h : Run init step (tr ++ [e]) s') :
    ∃ s, Run init step tr s ∧ step s e s' := by
  generalize hl : tr ++ [e] = l at h
  cases h with
  | start _ => exact absurd hl (by simp)
  | snoc hr hs =>
      obtain ⟨rfl, he⟩ := List.append_inj' hl rfl
      injection he with he _
      exact ⟨_, hr, he ▸ hs⟩

/-- The same from an event on: what holds after it and is preserved by every later step. -/
theorem Run.invariant_after {tr : List ε} {e₀ : ε} {P : List ε → σ → Prop}
    (h0 : ∀ s s', Run init step tr s → step s e₀ s' → P [] s')
    (hstep : ∀ es s e s', Run init step (tr ++ e₀ :: es) s → P es s → step s e s' → P (es ++ [e]) s')
    {es : List ε} {s : σ} (h : Run init step (tr ++ e₀ :: es) s) : P es s := by
  induction es using List.reverseRecOn generalizing s with
  | nil =>
      obtain ⟨s₀, hr, hs⟩ := h.snoc_inv
      exact h0 s₀ s hr hs
  | append_singleton es e ih =>
      rw [← List.cons_append, ← List.append_assoc] at h
      obtain ⟨s₁, hr, hs⟩ := h.snoc_inv
      exact hstep es s₁ e s hr (ih hr) hs

/-- A run of a more constrained system is a run. -/
theorem Run.weaken {init' : σ → Prop} (hi : ∀ s, init s → init' s)
    (hm : ∀ s e s', step s e s' → step' s e s') {tr : List ε} {s : σ}
    (h : Run init step tr s) : Run init' step' tr s := by
  induction h with
  | start h0 => exact .start (hi _ h0)
  | snoc _ hs ih => exact .snoc ih (hm _ _ _ hs)

/-- A run can be continued along a path. -/
theorem Run.append {tr : List ε} {s s' : σ} {es : List (ε × σ)}
    (h : Run init step tr s) (hp : Path step s es s') : Run init step (tr ++ es.map Prod.fst) s' := by
  induction hp generalizing tr with
  | nil => simpa using h
  | cons hs _ ih =>
      have := ih (.snoc h hs)
      simpa using this

/-- **A loop whose rounds are stretches of a run**, with its states given by the number of rounds. -/
theorem Run.loop {f : Nat → σ} {round : Nat → List ε} (n : Nat) (h0 : init (f 0))
    (hround : ∀ k tr, k < n → Run init step tr (f k) → Run init step (tr ++ round k) (f (k + 1))) :
    Run init step ((List.range n).flatMap round) (f n) := by
  induction n with
  | zero => exact .start h0
  | succ n ih =>
      have hn := hround n _ (Nat.lt_succ_self n) (ih fun k tr hk => hround k tr (by omega))
      rw [List.range_succ, List.flatMap_append]
      simpa using hn

/-- What every step preserves is preserved along a path. -/
theorem Path.invariant {P : σ → Prop} (hstep : ∀ s e s', P s → step s e s' → P s')
    {s s' : σ} {es : List (ε × σ)} (hp : Path step s es s') (h : P s) : P s' := by
  induction hp with
  | nil => exact h
  | cons hs _ ih => exact ih (hstep _ _ _ h hs)

/-- **Termination rule**: what every step lowers bounds the length of a path. -/
theorem Path.length_le {P : σ → Prop} {m : σ → Nat}
    (hstep : ∀ s e s', P s → step s e s' → P s' ∧ m s' < m s)
    {s s' : σ} {es : List (ε × σ)} (hp : Path step s es s') (h : P s) : es.length + m s' ≤ m s := by
  induction hp with
  | nil => simp
  | cons hs _ ih =>
      obtain ⟨h1, h2⟩ := hstep _ _ _ h hs
      have h3 := ih h1
      rw [List.length_cons]
      omega

/-- What every step with an admissible label preserves, and what it says of the labels. -/
theorem Path.invariant_labels {P : σ → Prop} {C Q : ε → Prop}
    (hstep : ∀ s e s', P s → C e → step s e s' → P s' ∧ Q e)
    {s s' : σ} {es : List (ε × σ)} (hp : Path step s es s') (h : P s)
    (hC : ∀ x, x ∈ es → C x.1) : P s' ∧ ∀ x, x ∈ es → Q x.1 := by
  induction hp with
  | nil => exact ⟨h, fun _ hx => absurd hx List.not_mem_nil⟩
  | cons hs _ ih =>
      obtain ⟨h1, h2⟩ := hstep _ _ _ h (hC _ List.mem_cons_self) hs
      obtain ⟨h3, h4⟩ := ih h1 fun x hx => hC x (List.mem_cons_of_mem _ hx)
      refine ⟨h3, fun x hx => ?_⟩
      rcases List.mem_cons.mp hx with rfl | hx
      · exact h2
      · exact h4 x hx

end Runs

end Os1000.Lib
