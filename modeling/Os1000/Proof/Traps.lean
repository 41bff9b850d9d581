import Os1000.Proof.KernelStack

/-!
# Traps are transparent

The invariant of the machine says that the process that runs is where its control says
(`Running`), and that every other one can be continued (`Suspended`). It is kept because
nobody writes to a stack but the process that runs on it, and `create_process` to that of
a process that does not exist yet. What a process had in its registers when it was last
trapped is read off from the labels of the run (`lastTrap`).
-/

namespace Os1000.Proof

open Os1000 Lib

variable {L : StackLayout}

/-! ## The last trap of a process -/

/-- The last trap of process `p` out of user mode. -/
def lastTrap (p : Nat) (tr : List TrapLabel) : Option (Cause × Nat × (Reg → Nat)) :=
  tr.foldl (fun last l =>
    match l with
    | .trap q cause pc regs => if q = p then some (cause, pc, regs) else last
    | _ => last) none

theorem lastTrap_quiet (p : Nat) (tr : List TrapLabel) :
    lastTrap p (tr ++ [.quiet]) = lastTrap p tr := by
  unfold lastTrap
  rw [List.foldl_append]
  rfl

theorem lastTrap_ret (p q pc : Nat) (regs : Reg → Nat) (tr : List TrapLabel) :
    lastTrap p (tr ++ [.ret q pc regs]) = lastTrap p tr := by
  unfold lastTrap
  rw [List.foldl_append]
  rfl

theorem lastTrap_trap (p q pc : Nat) (cause : Cause) (regs : Reg → Nat) (tr : List TrapLabel) :
    lastTrap p (tr ++ [.trap q cause pc regs])
      = if q = p then some (cause, pc, regs) else lastTrap p tr := by
  unfold lastTrap
  rw [List.foldl_append]
  rfl

/-! ## The invariant -/

/-- The traps out of user mode on a stack are the last ones. -/
def LastTraps (p : Nat) (tr : List TrapLabel) (ts : List Trapped) : Prop :=
  ∀ t, t ∈ ts → t.point.isUser = true → lastTrap p tr = some (t.cause, t.pc, t.regs)

/-- The invariant. -/
structure TrapInv (L : StackLayout) (tr : List TrapLabel) (s : Machine) : Prop where
  current_lt : s.current < procsMax
  running : Running L s.current s.hart (s.control s.current)
  others : ∀ p, p < procsMax → p ≠ s.current → Suspended L p s.hart.mem (s.control p)
  recorded : ∀ p P ts, s.control p = .live P ts → LastTraps p tr ts

section

variable {tr : List TrapLabel} {s : Machine} {h' : Hart} {P P' : Point} {ts ts' : List Trapped}
  {l : TrapLabel}

/-- The process that runs goes on, and writes to its own stack only. -/
theorem TrapInv.goto (h : TrapInv L tr s)
    (hrun : Running L s.current h' (.live P' ts'))
    (hmem : ∀ a, a < L.low s.current ∨ L.high s.current ≤ a → h'.mem a = s.hart.mem a)
    (hrec : LastTraps s.current (tr ++ [l]) ts')
    (hlast : ∀ p, p ≠ s.current → lastTrap p (tr ++ [l]) = lastTrap p tr) :
    TrapInv L (tr ++ [l]) (s.goto h' P' ts') := by
  have hself : (s.goto h' P' ts').control s.current = .live P' ts' := Function.update_self ..
  have hother : ∀ p, p ≠ s.current → (s.goto h' P' ts').control p = s.control p :=
    fun p hp => Function.update_of_ne hp ..
  refine ⟨h.current_lt, ?_, fun p hp hne => ?_, fun p P ts hc => ?_⟩
  · show Running L s.current h' ((s.goto h' P' ts').control s.current)
    rw [hself]
    exact hrun
  · rw [hother p hne]
    refine (h.others p hp hne).congr ?_ fun a h1 h2 => ?_
    · exact hmem _ (spField_off hp h.current_lt)
    · exact hmem a (stacks_apart hp h.current_lt hne h1 h2)
  · by_cases hp : p = s.current
    · subst hp
      rw [hself] at hc
      injection hc with _ hts
      exact hts ▸ hrec
    · rw [hother p hp] at hc
      intro t ht hu
      rw [hlast p hp]
      exact h.recorded p P ts hc t ht hu

/-- The same for a step that is not seen and leaves the traps as they are. -/
theorem TrapInv.goto_quiet (h : TrapInv L tr s) (hat : s.At P ts)
    (hrun : Running L s.current h' (.live P' ts))
    (hmem : ∀ a, a < L.low s.current ∨ L.high s.current ≤ a → h'.mem a = s.hart.mem a) :
    TrapInv L (tr ++ [.quiet]) (s.goto h' P' ts) := by
  refine h.goto hrun hmem (fun t ht hu => ?_) fun p _ => lastTrap_quiet p tr
  rw [lastTrap_quiet]
  exact h.recorded _ _ _ hat t ht hu

theorem TrapInv.inKernel (h : TrapInv L tr s) (hat : s.At P ts) (hu : P.isUser = false) :
    InKernel L s.current s.hart P ts := by
  have hrun := h.running
  rw [show s.control s.current = _ from hat] at hrun
  have hrun : (if P.isUser then InUser L s.current s.hart ts
    else InKernel L s.current s.hart P ts) := hrun
  rwa [hu, if_neg (by decide)] at hrun

theorem TrapInv.inUser (h : TrapInv L tr s) (hat : s.At .user ts) : InUser L s.current s.hart ts := by
  have hrun := h.running
  rw [show s.control s.current = _ from hat] at hrun
  exact hrun

end

/-! ## Steps and runs -/

section

variable {tr : List TrapLabel} {s s' : Machine} {l : TrapLabel}

theorem trapInv_start (h : TrapStart L s) : TrapInv L [] s := by
  obtain ⟨hcur, hidle, hunused, hmode, hscr, hlow, hhigh⟩ := h
  refine ⟨by rw [hcur]; decide, ?_, fun p _ hne => ?_, fun p P ts hc => ?_⟩
  · rw [hcur, hidle]
    exact ⟨hmode, ⟨hlow, trivial, rfl, hhigh⟩, hscr, nofun, nofun⟩
  · rw [hcur] at hne
    rw [hunused p hne]
    exact hne
  · by_cases hp : p = idleSlot
    · rw [hp, hidle] at hc
      injection hc with _ hts
      rw [← hts]
      nofun
    · rw [hunused p hp] at hc
      cases hc

/-- `switch_context` keeps the invariant. -/
theorem TrapInv.yieldSwitch (h : TrapInv L tr s) {m y next : Nat} {ts : List Trapped} {c : Control}
    (hat : s.At (.yield m y .masked) ts) (hnext : next < procsMax) (hne : next ≠ s.current)
    (hsw : Switchable (s.control next)) (hroom : L.low s.current + 13 * 4 ≤ s.hart.regs .sp)
    (hc : Leaves (.yield m y (.switched (switchArgs L s.current next s.hart).get)) ts c) :
    TrapInv L (tr ++ [.quiet])
      { hart := run switchContext none (switchArgs L s.current next s.hart), current := next,
        control := Function.update s.control s.current c } := by
  have hk := h.inKernel hat rfl
  have hcur := h.current_lt
  have hsusp := h.others next hnext hne
  have hspec := hk.switched hcur hnext hne hroom hsusp hsw
  have htop : s.hart.regs .sp + (m + y) ≤ L.high s.current := hk.stack.chain.le_high
  obtain ⟨h', hh'⟩ : ∃ h', h' = run switchContext none (switchArgs L s.current next s.hart) :=
    ⟨_, rfl⟩
  rw [← hh'] at hspec ⊢
  -- the other stacks are as they were
  have hmem : ∀ p a, p < procsMax → p ≠ s.current → L.low p ≤ a → a < L.high p →
      h'.mem a = s.hart.mem a := by
    intro p a hp hpne h1 h2
    have hapart := stacks_apart hp hcur hpne h1 h2
    have hoff := spField_off (L := L) hcur hp
    exact hspec.outside a (by show a ≠ spField L.toLayout s.current; omega) (by omega)
  have hfield : ∀ p, p < procsMax → p ≠ s.current →
      h'.mem (spField L.toLayout p) = s.hart.mem (spField L.toLayout p) := by
    intro p hp hpne
    have hoff := spField_off (L := L) hp hcur
    exact hspec.outside _ (spField_ne hpne) (by omega)
  refine ⟨hnext, ?_, fun p hp hpne => ?_, fun p P ts' hp => ?_⟩
  · show Running L next h' (Function.update s.control s.current c next)
    rw [Function.update_of_ne hne]
    exact hsusp.resume hsw hspec (fun a => hmem next a hnext hne) hk.mode hk.csrs.2.2
  · show Suspended L p h'.mem (Function.update s.control s.current c p)
    by_cases hpc : p = s.current
    · rw [hpc, Function.update_self]
      exact hk.suspend hcur hroom hspec hc
    · rw [Function.update_of_ne hpc]
      exact (h.others p hp hpc).congr (hfield p hp hpc) fun a => hmem p a hp hpc
  · have hp : Function.update s.control s.current c p = .live P ts' := hp
    by_cases hpc : p = s.current
    · rw [hpc, Function.update_self] at hp
      rcases hc with rfl | ⟨rfl, _⟩
      · injection hp with _ hts
        intro t ht hu
        rw [lastTrap_quiet, hpc]
        exact h.recorded _ _ _ hat t (hts ▸ ht) hu
      · cases hp
    · rw [Function.update_of_ne hpc] at hp
      intro t ht hu
      rw [lastTrap_quiet]
      exact h.recorded p P ts' hp t ht hu

/-- `create_process` keeps the invariant. -/
theorem TrapInv.create (h : TrapInv L tr s) {m p : Nat} {ts : List Trapped}
    (hat : s.At (.code m) ts) (hp : p < procsMax) (hunused : s.control p = .unused) :
    TrapInv L (tr ++ [.quiet])
      { s with
        hart := { s.hart with mem := stackContext L p s.hart.mem },
        control := Function.update s.control p .fresh } := by
  have hk := h.inKernel hat rfl
  have hcur := h.current_lt
  have hne : p ≠ s.current := by
    rintro rfl
    rw [show s.control s.current = _ from hat] at hunused
    cases hunused
  have h0 : p ≠ idleSlot := by
    have := h.others p hp hne
    rw [hunused] at this
    exact this
  obtain ⟨hsp, hentry, hout⟩ := stackContext_spec (L := L) s.hart.mem hp h0
  have hroom := low_le_high (L := L) (p := p)
  -- the other stacks are as they were
  have hmem : ∀ q a, q < procsMax → q ≠ p → L.low q ≤ a → a < L.high q →
      stackContext L p s.hart.mem a = s.hart.mem a := by
    intro q a hq hqp h1 h2
    have hapart := stacks_apart hq hp hqp h1 h2
    have hoff := spField_off (L := L) hp hq
    exact hout a (by omega) hapart
  refine ⟨hcur, ?_, fun q hq hqne => ?_, fun q P ts' hc => ?_⟩
  · show Running L s.current _ (Function.update s.control p .fresh s.current)
    rw [Function.update_of_ne hne.symm, show s.control s.current = _ from hat]
    refine ⟨hk.mode, ?_, hk.csrs⟩
    exact hk.stack.congr fun a h1 h2 =>
      hmem s.current a hcur hne.symm (Nat.le_trans hk.stack.low h1) h2
  · show Suspended L q _ (Function.update s.control p .fresh q)
    by_cases hqp : q = p
    · subst hqp
      rw [Function.update_self]
      exact ⟨h0, L.high q - 52, hsp, by omega, by omega, hentry⟩
    · rw [Function.update_of_ne hqp]
      refine (h.others q hq hqne).congr ?_ fun a => hmem q a hq hqp
      exact hout (spField L.toLayout q) (spField_ne hqp) (spField_off hq hp)
  · have hc : Function.update s.control p .fresh q = .live P ts' := hc
    by_cases hqp : q = p
    · rw [hqp, Function.update_self] at hc
      cases hc
    · rw [Function.update_of_ne hqp] at hc
      intro t ht hu
      rw [lastTrap_quiet]
      exact h.recorded q P ts' hc t ht hu

/-- A return from a trap keeps the invariant. -/
theorem TrapInv.ret (h : TrapInv L tr s) {t : Trapped} {ts : List Trapped}
    (hat : s.At (.code 0) (t :: ts)) (hl : ∀ p, lastTrap p (tr ++ [l]) = lastTrap p tr) :
    TrapInv L (tr ++ [l]) (s.goto (trapOut t.frame t.cause s.hart) t.point ts) := by
  have hk := h.inKernel hat rfl
  have hrec : LastTraps s.current (tr ++ [l]) ts := by
    intro t' ht hu
    rw [hl]
    exact h.recorded _ _ _ hat t' (List.mem_cons_of_mem _ ht) hu
  by_cases hu : t.point.isUser = true
  · obtain ⟨h1, _, h3⟩ := hk.ret_user h.current_lt hu
    refine h.goto ?_ (fun a _ => by rw [h3]) hrec fun p _ => hl p
    show if t.point.isUser then _ else _
    rw [if_pos hu]
    exact h1
  · obtain ⟨h1, _, h3⟩ := hk.ret_kernel h.current_lt (Bool.eq_false_iff.mpr hu)
    refine h.goto ?_ (fun a _ => by rw [h3]) hrec fun p _ => hl p
    show if t.point.isUser then _ else _
    rw [if_neg hu]
    exact h1

/-- **Every step keeps the invariant.** -/
theorem trapInv_step (h : TrapInv L tr s) (hs : TrapStep L s l s') : TrapInv L (tr ++ [l]) s' := by
  have hcur := h.current_lt
  cases hs with
  | user hat =>
      have hu := h.inUser hat
      exact h.goto_quiet hat ⟨hu.traps, hu.slot, hu.mode, hu.sscratch⟩ fun _ _ => rfl
  | @trap ts n cause hat hn hroom =>
      have hu := h.inUser hat
      obtain ⟨h1, h2⟩ := hu.trap cause hcur hn hroom
      refine h.goto h1 h2 (fun t ht _ => ?_) fun p hp => ?_
      · rw [hu.traps, List.mem_singleton] at ht
        rw [lastTrap_trap, if_pos rfl, ht]
      · rw [lastTrap_trap, if_neg (Ne.symm hp)]
  | @interrupt P ts n hat hu hsie hn hroom =>
      obtain ⟨h1, h2⟩ := (h.inKernel hat hu).interrupt hu hcur hsie hn hroom
      refine h.goto h1 h2 (fun t ht htu => ?_) fun p _ => lastTrap_quiet p tr
      rw [List.mem_cons] at ht
      rcases ht with rfl | ht
      · rw [hu] at htu
        cases htu
      · rw [lastTrap_quiet]
        exact h.recorded _ _ _ hat t ht htu
  | @work P ts regs pc hat hP hsp =>
      have hu : P.isUser = false := by cases P <;> first | rfl | cases hP
      refine h.goto_quiet hat ?_ fun _ _ => rfl
      show if P.isUser then _ else _
      rw [hu, if_neg (by decide)]
      exact (h.inKernel hat hu).work hP hsp
  | @stack m m' ts regs mem hat hsp hlow hmem =>
      have hk := h.inKernel hat rfl
      have htop : s.hart.regs .sp + m ≤ L.high s.current := hk.stack.chain.le_high
      exact h.goto_quiet hat (hk.stack_move hsp hlow hmem) fun a ha => hmem a (by omega)
  | @result m v t ts hat hc =>
      obtain ⟨h1, h2⟩ := (h.inKernel hat rfl).result hc v
      exact h.goto_quiet hat h1 h2
  | waitCall hat hw hsize hroom =>
      obtain ⟨h1, h2⟩ := (h.inKernel hat rfl).waitCall hw hsize hroom
      exact h.goto_quiet hat h1 h2
  | waitOff hat =>
      rcases hat with hat | hat
      · have hk := h.inKernel hat rfl
        exact h.goto_quiet hat ⟨hk.mode, ⟨hk.stack.low, hk.stack.locals, hk.stack.chain⟩, hk.csrs⟩
          fun _ _ => rfl
      · have hk := h.inKernel hat rfl
        exact h.goto_quiet hat ⟨hk.mode, ⟨hk.stack.low, hk.stack.locals, hk.stack.chain⟩, hk.csrs⟩
          fun _ _ => rfl
  | waitOn hat =>
      have hk := h.inKernel hat rfl
      exact h.goto_quiet hat ⟨hk.mode, ⟨hk.stack.low, hk.stack.locals, hk.stack.chain⟩, hk.csrs⟩
        fun _ _ => rfl
  | waitRestore hat =>
      have hk := h.inKernel hat rfl
      obtain ⟨hw, hscr⟩ := hk.csrs
      obtain ⟨hsize, st, hsaved, hdis, hst⟩ := hk.stack.locals
      refine h.goto_quiet hat ⟨hk.mode, ⟨hk.stack.low, hk.stack.locals, hk.stack.chain⟩, hw, hscr, ?_⟩
        fun _ _ => rfl
      show StatusOk _ (Sstatus.ofWord _)
      rw [hsaved, Sstatus.ofWord_word]
      exact hst
  | waitRet hat =>
      have hk := h.inKernel hat rfl
      obtain ⟨hw, hscr, hst⟩ := hk.csrs
      exact h.goto_quiet hat ⟨hk.mode, hk.stack.ret rfl, hscr, hst, mayWait_epcOk hw⟩ fun _ _ => rfl
  | yieldCall hat hw hsize hroom =>
      obtain ⟨h1, h2⟩ := (h.inKernel hat rfl).yieldCall hw hsize hroom
      exact h.goto_quiet hat h1 h2
  | yieldMask hat =>
      have hk := h.inKernel hat rfl
      obtain ⟨hw, hscr⟩ := hk.csrs
      refine h.goto_quiet hat ⟨hk.mode, ⟨hk.stack.low, hk.stack.locals, hk.stack.chain⟩, hw, hscr, ?_⟩
        fun _ _ => rfl
      show (Sstatus.ofWord (Sstatus.word _)).sie = false
      rw [Sstatus.ofWord_word]
      rfl
  | yieldSwitch hat hnext hne hsw hroom hc => exact h.yieldSwitch hat hnext hne hsw hroom hc
  | firstEntry hfresh hpc =>
      have hrun := h.running
      rw [hfresh] at hrun
      obtain ⟨h0, _, _, hscr, _⟩ := hrun
      obtain ⟨h1, h2, h3⟩ := userEntry_spec s.hart
      exact h.goto ⟨rfl, h0, h1, h2.trans hscr⟩ (fun a _ => by rw [h3]) nofun
        fun p _ => lastTrap_quiet p tr
  | yieldBack hat hpc =>
      have hk := h.inKernel hat rfl
      obtain ⟨hw, hsie, _⟩ := hk.csrs
      exact h.goto_quiet hat
        ⟨hk.mode, ⟨hk.stack.low, hk.stack.locals, hk.stack.chain⟩, hw, rfl, hsie⟩ fun _ _ => rfl
  | @yieldRestore m y ts hat =>
      -- whether `switch_context` was called or not
      have hboth : ∃ stage, s.At (.yield m y stage) ts ∧ MayWait ts ∧ s.hart.sscratch = 0 := by
        rcases hat with hat | hat
        · exact ⟨_, hat, (h.inKernel hat rfl).csrs.1, (h.inKernel hat rfl).csrs.2.1⟩
        · exact ⟨_, hat, (h.inKernel hat rfl).csrs.1, (h.inKernel hat rfl).csrs.2.1⟩
      obtain ⟨stage, hat, hw, hscr⟩ := hboth
      have hk := h.inKernel hat rfl
      obtain ⟨hsize, st, hsaved, hst⟩ := hk.stack.locals
      refine h.goto_quiet hat
        ⟨hk.mode, ⟨hk.stack.low, hk.stack.locals, hk.stack.chain⟩, hw, hscr, ?_⟩ fun _ _ => rfl
      show StatusOk _ (Sstatus.ofWord _)
      rw [hsaved, Sstatus.ofWord_word]
      exact hst
  | yieldRet hat =>
      have hk := h.inKernel hat rfl
      obtain ⟨hw, hscr, hst⟩ := hk.csrs
      exact h.goto_quiet hat ⟨hk.mode, hk.stack.ret rfl, hscr, hst, mayWait_epcOk hw⟩ fun _ _ => rfl
  | @ret t ts hat =>
      refine h.ret hat fun p => ?_
      split
      · exact lastTrap_ret ..
      · exact lastTrap_quiet ..
  | create hat _ hp hunused => exact h.create hat hp hunused

theorem trapInv_run (h : Run (TrapStart L) (TrapStep L) tr s) : TrapInv L tr s :=
  h.invariant_trace (fun _ h => trapInv_start h) fun _ _ _ _ _ h hs => trapInv_step h hs

/-! ## What holds in every run -/

theorem goto_at (s : Machine) (h : Hart) (P : Point) (ts : List Trapped) : (s.goto h P ts).At P ts :=
  Function.update_self ..

/-- In user mode a process runs its program. -/
theorem TrapInv.at_user (h : TrapInv L tr s) (hmode : s.hart.mode = .user) :
    ∃ ts, s.At .user ts := by
  have hrun := h.running
  have hne : ∀ P ts, InKernel L s.current s.hart P ts → False := by
    intro P ts hk
    have := hk.mode
    rw [hmode] at this
    cases this
  unfold Machine.At
  cases hc : s.control s.current with
  | unused => rw [hc] at hrun; cases hrun
  | fresh =>
      rw [hc] at hrun
      have := hrun.2.1
      rw [hmode] at this
      cases this
  | live P ts =>
      rw [hc] at hrun
      cases P with
      | user => exact ⟨ts, rfl⟩
      | code m => exact (hne _ _ hrun).elim
      | wait m w stage => exact (hne _ _ hrun).elim
      | yield m y stage => exact (hne _ _ hrun).elim

/-- User mode is entered by `user_entry` or by the return from a trap out of user mode. -/
theorem TrapInv.to_user (h : TrapInv L tr s) (hs : TrapStep L s l s')
    (hmode : s.hart.mode = .supervisor) (hmode' : s'.hart.mode = .user) :
    s.control s.current = .fresh
      ∨ ∃ t ts, s.At (.code 0) (t :: ts) ∧ t.point.isUser = true
        ∧ s' = s.goto (trapOut t.frame t.cause s.hart) t.point ts := by
  obtain ⟨ts', hat'⟩ := (trapInv_step h hs).at_user hmode'
  -- a step that leaves the process in the kernel is not one of them
  have hnot : ∀ h' P ts, s' = s.goto h' P ts → P ≠ .user → False := by
    intro h' P ts he hP
    rw [he] at hat'
    have := (goto_at s h' P ts).symm.trans hat'
    injection this with h1
    exact hP h1
  have huser : ∀ ts, ¬ s.At .user ts := by
    intro ts hat
    have := (h.inUser hat).mode
    rw [hmode] at this
    cases this
  cases hs with
  | firstEntry hfresh _ => exact Or.inl hfresh
  | @ret t ts hat =>
      have hP : t.point = .user := by
        by_contra hP
        exact hnot _ _ _ rfl hP
      exact Or.inr ⟨t, ts, hat, by rw [hP]; rfl, rfl⟩
  | user hat => exact (huser _ hat).elim
  | trap hat _ _ => exact (huser _ hat).elim
  | @work P ts regs pc hat hP _ =>
      exact (hnot _ _ _ rfl (by rintro rfl; exact hP)).elim
  | @yieldSwitch m y next ts c hat _ hne hsw _ _ =>
      have hat' : Function.update s.control s.current c next = .live .user ts' := hat'
      rw [Function.update_of_ne hne] at hat'
      rw [hat'] at hsw
      cases hsw
  | @create m p ts hat _ _ hunused =>
      have hne : s.current ≠ p := by
        rintro rfl
        rw [show s.control s.current = _ from hat] at hunused
        cases hunused
      have hat' : Function.update s.control p .fresh s.current = .live .user ts' := hat'
      rw [Function.update_of_ne hne, show s.control s.current = _ from hat] at hat'
      injection hat' with h1
      cases h1
  | _ => exact (hnot _ _ _ rfl nofun).elim

/-- The process continues where its last trap interrupted it. -/
structure Continues (last : Option (Cause × Nat × (Reg → Nat))) (h : Hart) : Prop where
  mode : h.mode = .user
  context : ∃ cause pc regs, last = some (cause, pc, regs)
    ∧ h.pc = (if cause = .ecall then u32 (pc + 4) else pc)
    ∧ (∀ r, r ≠ .a0 → h.get r = regs r) ∧ (cause = .external → h.get .a0 = regs .a0)

theorem TrapInv.continues (h : TrapInv L tr s) {t : Trapped} {ts : List Trapped}
    (hat : s.At (.code 0) (t :: ts)) (hu : t.point.isUser = true) :
    Continues (lastTrap s.current tr) (trapOut t.frame t.cause s.hart) := by
  obtain ⟨h1, ⟨hpc, hregs⟩, _⟩ := (h.inKernel hat rfl).ret_user h.current_lt hu
  refine ⟨h1.mode, t.cause, t.pc, t.regs, ?_, ?_, fun r hr => ?_, fun hc => ?_⟩
  · exact h.recorded _ _ _ hat t List.mem_cons_self hu
  · rw [hpc, resumePc]
    cases t.cause <;> rfl
  · exact hregs r fun hc => hr hc.2
  · refine hregs .a0 fun hec => ?_
    rw [hc] at hec
    cases hec.1

/-- **Code of the kernel that is interrupted does not notice.** -/
theorem interrupt_unnoticed (hr : Run (TrapStart L) (TrapStep L) tr s) {t : Trapped}
    {ts : List Trapped} (hat : s.At (.code 0) (t :: ts)) (hu : t.point.isUser = false) :
    (trapOut t.frame t.cause s.hart).mode = .supervisor
      ∧ (trapOut t.frame t.cause s.hart).pc = t.pc
      ∧ ∀ r, (trapOut t.frame t.cause s.hart).get r = t.regs r := by
  have h := trapInv_run hr
  have hk := h.inKernel hat rfl
  have hc : t.cause = .external := by
    obtain ⟨_, hlink⟩ := hk.stack.chain
    rw [if_neg (by rw [hu]; decide)] at hlink
    exact hlink.1
  obtain ⟨h1, ⟨hpc, hregs⟩, _⟩ := hk.ret_kernel h.current_lt hu
  refine ⟨h1.mode, ?_, fun r => hregs r fun hec => ?_⟩
  · rw [hpc, resumePc, hc]
  · rw [hc] at hec
    cases hec.1

/-- **`switch_context` returns to where it was called from**, or to `user_entry`. -/
theorem switch_returns (hr : Run (TrapStart L) (TrapStep L) tr s) :
    (s.control s.current = .fresh → s.hart.pc = L.userEntry)
      ∧ ∀ m y regs ts, s.At (.yield m y (.switched regs)) ts →
        s.hart.pc = L.yieldReturn ∧ s.hart.get .sp = regs .sp
          ∧ ∀ r, r ∈ calleeSaved → s.hart.regs r = regs r := by
  have h := trapInv_run hr
  refine ⟨fun hfresh => ?_, fun m y regs ts hat => ?_⟩
  · have hrun := h.running
    rw [hfresh] at hrun
    exact hrun.2.2.2.2
  · exact (h.inKernel hat rfl).csrs.2.2

/-- **Traps are transparent.** In every run:

* in user mode `sscratch` is the top of the kernel stack of the process that runs;
* in supervisor mode it is 0 wherever an interrupt can be taken;
* a process that was trapped out of user mode returns to user mode, with the program
  counter and the registers of its last trap, but for `a0` and the `ecall` itself after
  a system call;
* and there is no other way into user mode than the first entry of a process. -/
theorem trap_transparent (hr : Run (TrapStart L) (TrapStep L) tr s) :
    (s.hart.mode = .user → s.hart.sscratch = stackTop L.toLayout s.current)
    ∧ (s.hart.mode = .supervisor → s.hart.sstatus.sie = true → s.hart.sscratch = 0)
    ∧ (∀ p pc regs s', TrapStep L s (.ret p pc regs) s' →
      s'.current = p ∧ Continues (lastTrap p tr) s'.hart)
    ∧ (∀ l s', TrapStep L s l s' → s.hart.mode = .supervisor → s'.hart.mode = .user →
      s.control s.current = .fresh
        ∨ s'.current = s.current ∧ Continues (lastTrap s.current tr) s'.hart) := by
  have h := trapInv_run hr
  refine ⟨fun hmode => ?_, fun hmode hsie => ?_, fun p pc regs s' hs => ?_, fun l s' hs hm hm' => ?_⟩
  · obtain ⟨ts, hat⟩ := h.at_user hmode
    exact (h.inUser hat).sscratch
  · have hrun := h.running
    cases hc : s.control s.current with
    | unused => rw [hc] at hrun; cases hrun
    | fresh =>
        rw [hc] at hrun
        have := hrun.2.2.1
        rw [hsie] at this
        cases this
    | live P ts =>
        cases hu : P.isUser with
        | true =>
            cases P with
            | user =>
                have := (h.inUser hc).mode
                rw [hmode] at this
                cases this
            | _ => cases hu
        | false => exact ((h.inKernel hc hu).csrs.interrupted hsie).1
  · -- the label says that the trap was out of user mode
    obtain ⟨t, ts, hat, hu, rfl, rfl⟩ : ∃ t ts, s.At (.code 0) (t :: ts) ∧ t.point.isUser = true
        ∧ s.current = p ∧ s' = s.goto (trapOut t.frame t.cause s.hart) t.point ts := by
      generalize hl : TrapLabel.ret p pc regs = l at hs
      cases hs with
      | @ret t ts hat =>
          by_cases hu : t.point.isUser = true
          · rw [if_pos hu] at hl
            injection hl with h1
            exact ⟨t, ts, hat, hu, h1.symm, rfl⟩
          · rw [if_neg hu] at hl
            cases hl
      | _ => cases hl
    exact ⟨rfl, h.continues hat hu⟩
  · rcases h.to_user hs hm hm' with hfresh | ⟨t, ts, hat, hu, rfl⟩
    · exact Or.inl hfresh
    · exact Or.inr ⟨rfl, h.continues hat hu⟩

end

/-- `kernel_main` creates a process and yields to it. -/
theorem sample_switch :
    ∃ tr s s', Run (TrapStart sampleStacks) (TrapStep sampleStacks) tr s ∧ s.current = 0
      ∧ TrapStep sampleStacks s .quiet s' ∧ s'.current = 1 ∧ s'.control 1 = .fresh
      ∧ s'.control 0
        = .live (.yield 0 16 (.switched (switchArgs sampleStacks 0 1 s.hart).get)) [] := by
  have h0 : Run (TrapStart sampleStacks) (TrapStep sampleStacks) []
      ⟨⟨fun _ => 0x80260000, fun _ => 0, 0, .supervisor, 0, 0, 0, ⟨true, false, false, true⟩⟩, 0,
        fun p => if p = 0 then .live (.code 0) [] else .unused⟩ :=
    .start ⟨rfl, rfl, fun p hp => if_neg hp, rfl, rfl, by decide, by decide⟩
  have h1 := h0.snoc (.create (p := 1) (m := 0) rfl nofun (by decide) rfl)
  have h2 := h1.snoc (.yieldCall (m := 0) (y := 16) rfl nofun (by decide) (by decide))
  obtain ⟨tr, s, hr, hcur, hat, hsp, hnew⟩ : ∃ tr s,
      Run (TrapStart sampleStacks) (TrapStep sampleStacks) tr s ∧ s.current = 0
      ∧ s.At (.yield 0 16 .masked) [] ∧ s.hart.regs .sp = 0x80260000 - 16
      ∧ s.control 1 = .fresh :=
    ⟨_, _, h2.snoc (.yieldMask rfl), rfl, rfl, rfl, rfl⟩
  refine ⟨tr, s, _, hr, hcur, @TrapStep.yieldSwitch _ _ 0 16 1 [] _ hat (by decide)
    (by rw [hcur]; decide) (by rw [hnew]; trivial) (by rw [hcur, hsp]; decide) (Or.inl rfl),
    rfl, ?_, ?_⟩
  · show Function.update s.control s.current _ 1 = _
    rw [hcur, Function.update_of_ne (by decide)]
    exact hnew
  · show Function.update s.control s.current _ 0 = _
    rw [hcur, Function.update_self]

/-- `kernel_main` starts a process, which makes a system call. -/
theorem trap_transparent_ecall : ∃ tr s p pc regs s', Run (TrapStart sampleStacks)
    (TrapStep sampleStacks) tr s ∧ TrapStep sampleStacks s (.ret p pc regs) s'
    ∧ s'.hart.mode = .user := by
  obtain ⟨tr, _, s, h0, _, hs, hcur, hnew, _⟩ := sample_switch
  have hr := h0.snoc hs
  have hfresh : s.control s.current = .fresh := by rw [hcur]; exact hnew
  -- from here on the invariant says what the next step needs
  have h5 := hr.snoc (.firstEntry hfresh ((switch_returns hr).1 hfresh))
  obtain ⟨s5, hs5⟩ : ∃ s5, s5 = s.goto (run userEntry none s.hart) .user [] := ⟨_, rfl⟩
  rw [← hs5] at h5
  have hat5 : s5.At .user [] := by rw [hs5]; exact goto_at ..
  have hcur5 : s5.current = 1 := by rw [hs5]; exact hcur
  have hscr := ((trapInv_run h5).inUser hat5).sscratch
  have h6 := h5.snoc (@TrapStep.trap _ _ _ 16 .ecall hat5 (by decide)
    (by rw [hscr, hcur5]; decide))
  have hret := @TrapStep.ret sampleStacks _ _ _ (goto_at s5 (trapIn 16 s5.hart) (.code 0)
    [⟨16, .ecall, .user, s5.hart.pc, s5.hart.get⟩])
  exact ⟨_, _, _, _, _, _, h6, hret, ((trap_transparent h6).2.2.1 _ _ _ _ hret).2.mode⟩

end Os1000.Proof
