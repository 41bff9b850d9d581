import Os1000.Proof.Traps

/-!
# Kernel contexts

`switch_context` stores thirteen registers below the stack pointer and loads as many from
where another process left them; `create_process` writes the words that it will load for
a process that has never run. The three listings agree.

That a suspended process finds its registers again is in the invariant of the machine
(`Suspended`). Two things are added here. Between the suspension and the return of a
process only others run (`OtherRuns`), so what it left in its slot is what it finds
there. And the stack of a new process holds what `create_process` wrote until it is
switched to (`NewContext`).
-/

namespace Os1000.Proof

open Os1000 Lib

variable {L : StackLayout}

/-- A step that is taken while process `p` does not run. -/
def OtherRuns (L : StackLayout) (p : Nat) (s : Machine) (l : TrapLabel) (s' : Machine) : Prop :=
  s.current ≠ p ∧ TrapStep L s l s'

/-! ## What a step does to the others -/

/-- A step either continues the process that runs, or switches, or creates a process. -/
inductive Moves (L : StackLayout) (s : Machine) : Machine → Prop where
  /-- It writes to its own stack only. -/
  | own {h' : Hart} {P : Point} {ts : List Trapped} :
      (∀ a, a < L.low s.current ∨ L.high s.current ≤ a → h'.mem a = s.hart.mem a) →
      Moves L s (s.goto h' P ts)
  | switch {m y next : Nat} {ts : List Trapped} {c : Control} :
      s.At (.yield m y .masked) ts → next < procsMax → next ≠ s.current →
      Switchable (s.control next) → L.low s.current + 13 * 4 ≤ s.hart.regs .sp →
      Leaves (.yield m y (.switched (switchArgs L s.current next s.hart).get)) ts c →
      Moves L s
        { hart := run switchContext none (switchArgs L s.current next s.hart), current := next,
          control := Function.update s.control s.current c }
  | create {p : Nat} :
      p < procsMax → p ≠ s.current → s.control p = .unused →
      Moves L s
        { s with
          hart := { s.hart with mem := stackContext L p s.hart.mem },
          control := Function.update s.control p .fresh }

section

variable {tr : List TrapLabel} {s s' : Machine} {l : TrapLabel}

theorem TrapInv.moves (h : TrapInv L tr s) (hs : TrapStep L s l s') : Moves L s s' := by
  have hcur := h.current_lt
  cases hs with
  | @trap ts n cause hat hn hroom => exact .own ((h.inUser hat).trap cause hcur hn hroom).2
  | interrupt hat hu hsie hn hroom =>
      exact .own ((h.inKernel hat hu).interrupt hu hcur hsie hn hroom).2
  | @stack m m' ts regs mem hat hsp hlow hmem =>
      have htop : s.hart.regs .sp + m ≤ L.high s.current := (h.inKernel hat rfl).stack.chain.le_high
      exact .own fun a ha => hmem a (by omega)
  | result hat hc => exact .own ((h.inKernel hat rfl).result hc _).2
  | waitCall hat hw hsize hroom => exact .own ((h.inKernel hat rfl).waitCall hw hsize hroom).2
  | yieldCall hat hw hsize hroom => exact .own ((h.inKernel hat rfl).yieldCall hw hsize hroom).2
  | firstEntry _ _ => exact .own fun a _ => by rw [(userEntry_spec s.hart).2.2]
  | @ret t ts hat =>
      have hk := h.inKernel hat rfl
      refine .own fun a _ => ?_
      by_cases hu : t.point.isUser = true
      · rw [(hk.ret_user hcur hu).2.2]
      · rw [(hk.ret_kernel hcur (Bool.eq_false_iff.mpr hu)).2.2]
  | yieldSwitch hat hnext hne hsw hroom hc => exact .switch hat hnext hne hsw hroom hc
  | @create m p ts hat _ hp hunused =>
      refine .create hp (fun e => ?_) hunused
      rw [e, show s.control s.current = _ from hat] at hunused
      cases hunused
  | _ => exact .own fun _ _ => rfl

/-- The slot of a process that does not run is left alone. -/
theorem Moves.control (hm : Moves L s s') {p : Nat} (hp : s.current ≠ p)
    (hused : s.control p ≠ .unused) : s'.control p = s.control p := by
  cases hm with
  | own _ => exact Function.update_of_ne (Ne.symm hp) ..
  | switch _ _ _ _ _ _ => exact Function.update_of_ne (Ne.symm hp) ..
  | create _ _ hunused =>
      refine Function.update_of_ne ?_ ..
      rintro rfl
      exact hused hunused

/-- As long as only others run, a process stays as it is. -/
theorem control_of_others {p : Nat} {es : List (TrapLabel × Machine)}
    (hr : Run (TrapStart L) (TrapStep L) tr s) (hused : s.control p ≠ .unused)
    (hpath : Path (OtherRuns L p) s es s') :
    ∃ tr', Run (TrapStart L) (TrapStep L) tr' s' ∧ s'.control p = s.control p := by
  induction hpath generalizing tr with
  | nil => exact ⟨tr, hr, rfl⟩
  | cons hstep _ ih =>
      obtain ⟨hp, hs⟩ := hstep
      have he := ((trapInv_run hr).moves hs).control hp hused
      obtain ⟨tr', hr', he'⟩ := ih (hr.snoc hs) (by rw [he]; exact hused)
      exact ⟨tr', hr', he'.trans he⟩

end

/-! ## The first context of a process -/

/-- What `create_process` left for `switch_context` to load. -/
structure NewContext (L : StackLayout) (p : Nat) (mem : Nat → Nat) : Prop where
  sp : mem (spField L.toLayout p) = L.high p - 52
  words : ∀ i, i < 13 → mem (L.high p - 52 + 4 * i) = (initialContext L).getD i 0

/-- A process at its very beginning. -/
structure AtEntry (L : StackLayout) (p : Nat) (h : Hart) : Prop where
  pc : h.pc = L.userEntry
  sp : h.get .sp = stackTop L.toLayout p
  regs : ∀ r, r ∈ calleeSaved → r ≠ .ra → h.get r = 0

theorem stackContext_words {p : Nat} (mem : Nat → Nat) (hp : p < procsMax) (h0 : p ≠ idleSlot) :
    NewContext L p (stackContext L p mem) := by
  have hroom := low_le_high (L := L) (p := p)
  have hoff := spField_off (L := L) hp hp
  refine ⟨(stackContext_spec mem hp h0).1, fun i hi => ?_⟩
  unfold stackContext
  rw [← high_eq h0]
  have hwords := loop_inv
    (f := fun mem i => Function.update mem (L.high p - 52 + 4 * i) ((initialContext L).getD i 0))
    (fun n mem' => ∀ i, i < n → mem' (L.high p - 52 + 4 * i) = (initialContext L).getD i 0)
    (s := mem) 13 (fun i hi => absurd hi (Nat.not_lt_zero i)) fun n mem' _ ih i hi => by
      by_cases he : i = n
      · subst he
        exact Function.update_self ..
      · rw [Function.update_of_ne (by omega)]
        exact ih i (by omega)
  show Function.update _ _ _ _ = _
  rw [Function.update_of_ne (by omega)]
  exact hwords i hi

/-- All words but the return address are zero. -/
theorem initialContext_zero {i : Nat} {r : Reg} (hi : calleeSaved[i]? = some r) (hr : r ≠ .ra) :
    (initialContext L).getD i 0 = 0 := by
  cases i with
  | zero =>
      injection hi with hi
      exact absurd hi.symm hr
  | succ i =>
      unfold initialContext
      rw [List.getD_cons_succ, List.getD_eq_getElem?_getD, List.getElem?_replicate]
      split <;> rfl

section

variable {tr : List TrapLabel} {s s' : Machine} {l : TrapLabel} {p : Nat}

/-- The words are on the stack of the process and in its slot, where nobody else writes. -/
theorem NewContext.congr {mem mem' : Nat → Nat} (h : NewContext L p mem)
    (hsp : mem' (spField L.toLayout p) = mem (spField L.toLayout p))
    (he : ∀ a, L.low p ≤ a → a < L.high p → mem' a = mem a) : NewContext L p mem' := by
  have hroom := low_le_high (L := L) (p := p)
  refine ⟨hsp.trans h.sp, fun i hi => ?_⟩
  rw [he _ (by omega) (by omega)]
  exact h.words i hi

/-- `switch_context` loads them. -/
theorem NewContext.enter {h h' : Hart} {P : Nat} (hn : NewContext L p h'.mem) (h0 : p ≠ idleSlot)
    (hsw : Switched h h' P (L.high p - 52)) : AtEntry L p h' := by
  have hroom := low_le_high (L := L) (p := p)
  refine ⟨?_, ?_, fun r hr hra => ?_⟩
  · rw [hsw.pc]
    exact hn.words 0 (by decide)
  · show h'.regs .sp = _
    rw [hsw.sp, ← high_eq h0]
    omega
  · obtain ⟨i, hi, he⟩ := List.getElem_of_mem hr
    have hi' : calleeSaved[i]? = some r := by rw [List.getElem?_eq_getElem hi, he]
    have hz : r ≠ .zero := by
      rintro rfl
      revert hr
      decide
    rw [Hart.get_eq hz, hsw.restored i r hi', hn.words i hi, initialContext_zero hi' hra]

/-- What is known of the processes that have not run yet. -/
def FreshInv (L : StackLayout) (s : Machine) : Prop :=
  ∀ p, p < procsMax → s.control p = .fresh →
    (p ≠ s.current → NewContext L p s.hart.mem) ∧ (p = s.current → AtEntry L p s.hart)

theorem freshInv_start (h : TrapStart L s) : FreshInv L s := by
  obtain ⟨_, hidle, hunused, _⟩ := h
  intro p _ hc
  by_cases hp : p = idleSlot
  · rw [hp, hidle] at hc
    cases hc
  · rw [hunused p hp] at hc
    cases hc

/-- A new process is switched to, or is left alone. -/
theorem FreshInv.switch (hf : FreshInv L s) (h : TrapInv L tr s) {m y next : Nat}
    {ts : List Trapped} {c : Control} (hat : s.At (.yield m y .masked) ts) (hnext : next < procsMax)
    (hne : next ≠ s.current) (hsw : Switchable (s.control next))
    (hroom : L.low s.current + 13 * 4 ≤ s.hart.regs .sp)
    (hc : Leaves (.yield m y (.switched (switchArgs L s.current next s.hart).get)) ts c) :
    FreshInv L
      { hart := run switchContext none (switchArgs L s.current next s.hart), current := next,
        control := Function.update s.control s.current c } := by
  have hk := h.inKernel hat rfl
  have hcur := h.current_lt
  have hspec := hk.switched hcur hnext hne hroom (h.others next hnext hne) hsw
  have htop : s.hart.regs .sp + (m + y) ≤ L.high s.current := hk.stack.chain.le_high
  obtain ⟨h', hh'⟩ : ∃ h', h' = run switchContext none (switchArgs L s.current next s.hart) :=
    ⟨_, rfl⟩
  rw [← hh'] at hspec ⊢
  intro p hp hctl
  have hfresh : Function.update s.control s.current c p = .fresh := hctl
  have hpc : p ≠ s.current := by
    rintro rfl
    rw [Function.update_self] at hfresh
    rcases hc with rfl | ⟨rfl, _⟩ <;> cases hfresh
  rw [Function.update_of_ne hpc] at hfresh
  -- its words are not where the process that yields is saved
  have hold := (hf p hp hfresh).1 hpc
  have hnew : NewContext L p h'.mem := by
    have hoff := spField_off (L := L) hp hcur
    refine hold.congr ?_ fun a h1 h2 => ?_
    · exact hspec.outside _ (spField_ne hpc) (by omega)
    · have hapart := stacks_apart hp hcur hpc h1 h2
      have hoff := spField_off (L := L) hcur hp
      exact hspec.outside a (by show a ≠ spField L.toLayout s.current; omega) (by omega)
  refine ⟨fun _ => hnew, fun he => ?_⟩
  obtain rfl : p = next := he
  have h0 : p ≠ idleSlot := by
    have hsusp := h.others p hp hpc
    rw [hfresh] at hsusp
    exact hsusp.1
  rw [hold.sp] at hspec
  exact hnew.enter h0 hspec

theorem freshInv_step (hf : FreshInv L s) (h : TrapInv L tr s) (hs : TrapStep L s l s') :
    FreshInv L s' := by
  have hcur := h.current_lt
  cases h.moves hs with
  | @own h' P ts hmem =>
      intro p hp hfresh
      have hfresh : Function.update s.control s.current (.live P ts) p = .fresh := hfresh
      have hpc : p ≠ s.current := by
        rintro rfl
        rw [Function.update_self] at hfresh
        cases hfresh
      rw [Function.update_of_ne hpc] at hfresh
      refine ⟨fun _ => ?_, fun he => absurd he hpc⟩
      refine ((hf p hp hfresh).1 hpc).congr (hmem _ (spField_off hp hcur)) fun a h1 h2 => ?_
      exact hmem a (stacks_apart hp hcur hpc h1 h2)
  | switch hat hnext hne hsw hroom hc => exact hf.switch h hat hnext hne hsw hroom hc
  | @create q hq hqc hunused =>
      have hq0 : q ≠ idleSlot := by
        have := h.others q hq hqc
        rw [hunused] at this
        exact this
      intro p hp hfresh
      have hfresh : Function.update s.control q .fresh p = .fresh := hfresh
      by_cases hpq : p = q
      · subst hpq
        have hnew := stackContext_words (L := L) s.hart.mem hp hq0
        exact ⟨fun _ => hnew, fun he => absurd he hqc⟩
      · rw [Function.update_of_ne hpq] at hfresh
        have hout := (stackContext_spec (L := L) s.hart.mem hq hq0).2.2
        refine ⟨fun hpc => ?_, fun he => ?_⟩
        · refine ((hf p hp hfresh).1 hpc).congr ?_ fun a h1 h2 => ?_
          · exact hout (spField L.toLayout p) (spField_ne hpq) (spField_off hp hq)
          · have hoff := spField_off (L := L) hq hp
            exact hout a (by omega) (stacks_apart hp hq hpq h1 h2)
        · have hat := (hf p hp hfresh).2 he
          exact ⟨hat.pc, hat.sp, hat.regs⟩

theorem freshInv_run (hr : Run (TrapStart L) (TrapStep L) tr s) : FreshInv L s := by
  induction hr with
  | start h0 => exact freshInv_start h0
  | snoc hr hs ih => exact freshInv_step ih (trapInv_run hr) hs

/-! ## Every context is preserved -/

/--
**Kernel contexts are preserved.** In every state of every run:

* if the process that runs calls `switch_context` and does not exit, then, however many
  steps others take before it runs again, `switch_context` returns to it with `ra`,
  `s0`–`s11` and `sp` as they were at the call;
* a process that has not run yet and is switched to is at `user_entry`, with `s0`–`s11`
  zero and `sp` at the top of its kernel stack.
-/
theorem contexts_preserved (hr : Run (TrapStart L) (TrapStep L) tr s) :
    (∀ l s₁ es s₂, TrapStep L s l s₁ → s₁.current ≠ s.current →
        s₁.control s.current ≠ .unused → Path (OtherRuns L s.current) s₁ es s₂ →
        s₂.current = s.current →
        s₂.hart.pc = (switchArgs L s.current s₁.current s.hart).get .ra
          ∧ ∀ r, r = .sp ∨ r ∈ calleeSaved →
            s₂.hart.get r = (switchArgs L s.current s₁.current s.hart).get r)
      ∧ (s.control s.current = .fresh → s.hart.pc = L.userEntry
        ∧ s.hart.get .sp = stackTop L.toLayout s.current
        ∧ ∀ r, r ∈ calleeSaved → r ≠ .ra → s.hart.get r = 0) := by
  refine ⟨fun l s₁ es s₂ hs hleft hused hpath hback => ?_, fun hfresh => ?_⟩
  · obtain ⟨tr', hr', hctl⟩ := control_of_others (hr.snoc hs) hused hpath
    cases (trapInv_run hr).moves hs with
    | own _ => exact absurd rfl hleft
    | create _ _ _ => exact absurd rfl hleft
    | @switch m y next ts c hat _ _ _ _ hc =>
        have hslot : Function.update s.control s.current c s.current = c := Function.update_self ..
        rcases hc with rfl | ⟨rfl, _⟩
        · -- the slot still says where the process was, so that is where it is
          have hat₂ : s₂.At (.yield m y (.switched (switchArgs L s.current next s.hart).get)) ts := by
            unfold Machine.At
            rw [hback, hctl]
            exact hslot
          obtain ⟨hpc, hsp, hregs⟩ := (switch_returns hr').2 _ _ _ _ hat₂
          refine ⟨hpc, fun r hor => ?_⟩
          rcases hor with rfl | hr
          · exact hsp
          · rw [Hart.get_eq (by rintro rfl; revert hr; decide)]
            exact hregs r hr
        · exact absurd hslot hused
  · have h := (freshInv_run hr s.current (trapInv_run hr).current_lt hfresh).2 rfl
    exact ⟨h.pc, h.sp, h.regs⟩

end

/-- In a trap out of user mode the stack is used up to the point where the process is. -/
theorem TrapInv.depth {tr : List TrapLabel} {s : Machine} {P : Point} {t : Trapped}
    (h : TrapInv L tr s) (hat : s.At P [t]) (hP : P.isUser = false) (ht : t.point.isUser = true) :
    s.hart.regs .sp + pointSize P + t.frame + 128 = L.high s.current := by
  obtain ⟨_, hlink⟩ := (h.inKernel hat hP).stack.chain
  rw [if_pos ht] at hlink
  exact hlink.2.2

/-- `kernel_main` yields to a new process, which makes a system call and yields back. -/
theorem contexts_preserved_round :
    ∃ tr s l s₁ es s₂, Run (TrapStart sampleStacks) (TrapStep sampleStacks) tr s
      ∧ TrapStep sampleStacks s l s₁ ∧ s₁.current ≠ s.current
      ∧ Path (OtherRuns sampleStacks s.current) s₁ es s₂ ∧ s₂.current = s.current
      ∧ s₂.hart.get .s0 = s.hart.get .s0 ∧ s₂.hart.get .sp = s.hart.get .sp := by
  obtain ⟨tr3, s3, s4, h3, hcur3, t4, hcur4, hnew4, hidle4⟩ := sample_switch
  have h4 := h3.snoc t4
  have hfresh4 : s4.control s4.current = .fresh := by rw [hcur4]; exact hnew4
  -- it enters user mode, traps, and yields
  have t5 := TrapStep.firstEntry hfresh4 ((switch_returns h4).1 hfresh4)
  obtain ⟨s5, hs5⟩ : ∃ s5, s5 = s4.goto (run userEntry none s4.hart) .user [] := ⟨_, rfl⟩
  rw [← hs5] at t5
  have hat5 : s5.At .user [] := by rw [hs5]; exact goto_at ..
  have hcur5 : s5.current = 1 := by rw [hs5]; exact hcur4
  have hscr := ((trapInv_run (h4.snoc t5)).inUser hat5).sscratch
  have t6 := @TrapStep.trap sampleStacks s5 [] 16 .ecall hat5 (by decide) (by rw [hscr, hcur5]; decide)
  obtain ⟨s6, hs6⟩ : ∃ s6, s6 = s5.goto (trapIn 16 s5.hart) (.code 0)
      [⟨16, .ecall, .user, s5.hart.pc, s5.hart.get⟩] := ⟨_, rfl⟩
  rw [← hs6] at t6
  have hat6 : s6.At (.code 0) _ := hs6 ▸ goto_at ..
  have hcur6 : s6.current = 1 := by rw [hs6]; exact hcur5
  have h6 := (h4.snoc t5).snoc t6
  have hd6 := (trapInv_run h6).depth hat6 rfl rfl
  have hhigh : sampleStacks.low 1 + 8192 = sampleStacks.high 1 := by decide
  have hmay : MayWait [⟨16, .ecall, .user, s5.hart.pc, s5.hart.get⟩] := by
    rintro t ⟨⟩
    rfl
  have t7 := @TrapStep.yieldCall sampleStacks s6 0 16 _ hat6 hmay (by decide)
    (by rw [hcur6] at hd6 ⊢; simp only [pointSize] at hd6; omega)
  obtain ⟨s7, hs7⟩ : ∃ s7, s7 = s6.goto (yieldBegin 16 s6.hart) (.yield 0 16 .called)
      [⟨16, .ecall, .user, s5.hart.pc, s5.hart.get⟩] := ⟨_, rfl⟩
  rw [← hs7] at t7
  have hat7 : s7.At (.yield 0 16 .called) _ := hs7 ▸ goto_at ..
  have hcur7 : s7.current = 1 := by rw [hs7]; exact hcur6
  have t8 := @TrapStep.yieldMask sampleStacks s7 0 16 _ hat7
  obtain ⟨s8, hs8⟩ : ∃ s8, s8 = s7.goto
      (s7.hart.setCsr .sstatus (disabled (.ofWord (s7.hart.mem (s7.hart.regs .sp)))).word)
      (.yield 0 16 .masked) [⟨16, .ecall, .user, s5.hart.pc, s5.hart.get⟩] := ⟨_, rfl⟩
  rw [← hs8] at t8
  have hat8 : s8.At (.yield 0 16 .masked) _ := hs8 ▸ goto_at ..
  have hcur8 : s8.current = 1 := by rw [hs8]; exact hcur7
  have h8 := (h6.snoc t7).snoc t8
  have hd8 := (trapInv_run h8).depth hat8 rfl rfl
  have hother : ∀ {s l s'}, TrapStep sampleStacks s l s' → s.current = 1 →
      OtherRuns sampleStacks 0 s l s' := fun t hc => ⟨by rw [hc]; decide, t⟩
  -- slot 0 is as it was left, so it can be switched back to
  have hidle8 : s8.control 0 = s4.control 0 := by
    obtain ⟨_, _, he⟩ := control_of_others h4 (p := 0) (by rw [hidle4]; simp)
      (.cons (hother t5 hcur4) (.cons (hother t6 hcur5) (.cons (hother t7 hcur6)
        (.cons (hother t8 hcur7) .nil))))
    exact he
  obtain ⟨s9, t9, hcur9⟩ : ∃ s', TrapStep sampleStacks s8 .quiet s' ∧ s'.current = 0 :=
    ⟨_, @TrapStep.yieldSwitch sampleStacks s8 0 16 0 _ _ hat8 (by decide)
      (by rw [hcur8]; decide) (by rw [hidle8, hidle4]; trivial)
      (by rw [hcur8] at hd8 ⊢; simp only [pointSize] at hd8; omega) (Or.inl rfl), rfl⟩
  have hpath := Path.cons (hother t5 hcur4) (.cons (hother t6 hcur5) (.cons (hother t7 hcur6)
    (.cons (hother t8 hcur7) (.cons (hother t9 hcur8) .nil))))
  rw [← hcur3] at hpath
  have hleft : s4.current ≠ s3.current := by rw [hcur3, hcur4]; decide
  have hback : s9.current = s3.current := hcur9.trans hcur3.symm
  obtain ⟨_, hregs⟩ := (contexts_preserved h3).1 _ _ _ _ t4 hleft
    (by rw [hcur3, hidle4]; simp) hpath hback
  exact ⟨tr3, s3, _, s4, _, s9, h3, t4, hleft, hpath, hback,
    hregs .s0 (Or.inr (by decide)), hregs .sp (Or.inl rfl)⟩

end Os1000.Proof
