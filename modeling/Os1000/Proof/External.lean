import Os1000.Proof.Request
import Os1000.Virtio.External

/-!
# Claiming and completing

Between a trap and its return exactly one source is claimed, the one whose handler runs, and
otherwise none is. A handler runs only there, so the handlers exclude each other although
nothing in them says so; and since only the two sources of the devices are enabled, no claim
comes back empty and none is of an unexpected source.

What `Os1000.Proof.Request` says of the drivers and `Os1000.Proof.Completion` of lost
completions is carried over to this machine, where handlers are called by the controller.
-/

namespace Os1000.Proof

open Os1000 Lib

/-- The source that a device is wired to. -/
def irqOf : VirtioDev → Nat
  | .blk => virtioBlkIrq
  | .net => virtioNetIrq

theorem irqOf_inj {d d' : VirtioDev} (h : irqOf d = irqOf d') : d = d' := by
  cases d <;> cases d' <;> first | rfl | cases h

theorem irqOf_range (d : VirtioDev) : 0 < irqOf d ∧ irqOf d ≤ plicSources := by
  cases d <;> decide

theorem line_irqOf (s : Core) (d : VirtioDev) : s.line (irqOf d) = (s.dev d).status.any := by
  cases d <;> rfl

/-! ## The registers -/

section

variable {p : Plic plicSources}

theorem plicStore_threshold (p : Plic plicSources) (v : Nat) :
    plicStore p plicSthreshold v = { p with threshold := v } := rfl

theorem plicClaim_eq (p : Plic plicSources) : plicClaim p = p.claim := rfl

theorem plicComplete_eq (p : Plic plicSources) (irq : Nat) : plicComplete p irq = p.complete irq := rfl

/-- The devices' sources, and no others, are enabled and have a priority. -/
structure Programmed (p : Plic plicSources) : Prop where
  threshold : p.threshold = 0
  enabled : ∀ i, p.enabled i = true ↔ ∃ d, i = irqOf d
  priority : ∀ i, 0 < p.priority i ↔ ∃ d, i = irqOf d

theorem exists_irqOf {i : Nat} : (∃ d, i = irqOf d) ↔ i = 1 ∨ i = 2 := by
  constructor
  · rintro ⟨d, rfl⟩
    cases d with
    | blk => exact Or.inl rfl
    | net => exact Or.inr rfl
  · rintro (rfl | rfl)
    · exact ⟨.blk, rfl⟩
    · exact ⟨.net, rfl⟩

/-- **`plic_enable`** gives one source a priority and its bit. -/
theorem plicEnable_eq (p : Plic plicSources) {irq : Nat} (h : irq < 1024) :
    plicEnable p irq = { p with
      priority := Function.update p.priority irq 1
      enable := Function.update p.enable (irq / 32)
        (p.enable (irq / 32) ||| 1 <<< (irq % 32)) } := by
  have hprio : ∀ (p : Plic plicSources) v, plicStore p (plicBase + irq * 4) v
      = { p with priority := Function.update p.priority irq v } := by
    intro p v
    unfold plicStore Plic.write
    rw [Nat.add_sub_cancel_left, if_pos (by omega), Nat.mul_div_cancel _ (by decide)]
  -- the word of the bit
  have hoff : plicSenable + irq / 32 * 4 - plicBase = 0x2080 + irq / 32 * 4 := by
    unfold plicSenable
    omega
  have hword : (0x2080 + irq / 32 * 4 - Plic.enableOffset plicContext) / 4 = irq / 32 := by
    show (0x2080 + irq / 32 * 4 - 0x2080) / 4 = _
    omega
  have hin : Plic.enableOffset plicContext ≤ 0x2080 + irq / 32 * 4
      ∧ 0x2080 + irq / 32 * 4 < Plic.enableOffset plicContext + 0x80 := by
    show 0x2080 ≤ _ ∧ _ < 0x2080 + 0x80
    omega
  have hload : ∀ p : Plic plicSources, plicLoad p (plicSenable + irq / 32 * 4)
      = (p.enable (irq / 32), p) := by
    intro p
    unfold plicLoad Plic.read
    rw [hoff, if_neg (by omega), if_pos hin, hword]
  have hstore : ∀ (p : Plic plicSources) v, plicStore p (plicSenable + irq / 32 * 4) v
      = { p with enable := Function.update p.enable (irq / 32) v } := by
    intro p v
    unfold plicStore Plic.write
    rw [hoff, if_neg (by omega), if_pos hin, hword]
  unfold plicEnable
  dsimp only
  rw [hload, hstore, hprio]

theorem enabled_plicEnable (p : Plic plicSources) {irq : Nat} (h : irq < 1024) (i : Nat) :
    (plicEnable p irq).enabled i = true ↔ p.enabled i = true ∨ i = irq := by
  rw [plicEnable_eq p h]
  unfold Plic.enabled
  dsimp only
  by_cases hw : i / 32 = irq / 32
  · rw [hw, Function.update_self, Nat.testBit_or, Bool.or_eq_true, Nat.one_shiftLeft,
      Nat.testBit_two_pow, decide_eq_true_iff]
    have hbit : irq % 32 = i % 32 ↔ i = irq := by omega
    rw [hbit]
  · rw [Function.update_of_ne hw]
    have hne : i ≠ irq := by
      rintro rfl
      exact hw rfl
    exact (or_iff_left hne).symm

theorem priority_plicEnable (p : Plic plicSources) {irq : Nat} (h : irq < 1024) (i : Nat) :
    0 < (plicEnable p irq).priority i ↔ 0 < p.priority i ∨ i = irq := by
  rw [plicEnable_eq p h]
  dsimp only
  by_cases hi : i = irq
  · rw [hi, Function.update_self]
    exact ⟨fun _ => Or.inr rfl, fun _ => Nat.one_pos⟩
  · rw [Function.update_of_ne hi]
    exact (or_iff_left hi).symm

/-- **`plic_init`** after a reset. -/
theorem programmed_plicInit (pending : Nat → Bool) :
    Programmed (plicInit (Plic.reset pending)) := by
  have hblk : virtioBlkIrq < 1024 := by decide
  have hnet : virtioNetIrq < 1024 := by decide
  refine ⟨?_, fun i => ?_, fun i => ?_⟩
  · unfold plicInit
    rw [plicEnable_eq _ hnet, plicEnable_eq _ hblk, plicStore_threshold]
  · have h0 : ((Plic.reset pending : Plic plicSources).enabled i = true) ↔ False := by
      unfold Plic.enabled Plic.reset
      rw [Nat.zero_testBit]
      simp
    unfold plicInit
    rw [enabled_plicEnable _ hnet, enabled_plicEnable _ hblk, plicStore_threshold, exists_irqOf]
    show ((Plic.reset pending : Plic plicSources).enabled i = true ∨ _) ∨ _ ↔ _
    rw [h0, false_or]
    rfl
  · unfold plicInit
    rw [priority_plicEnable _ hnet, priority_plicEnable _ hblk, plicStore_threshold, exists_irqOf]
    show (0 < 0 ∨ i = 1) ∨ i = 2 ↔ _
    omega

theorem Programmed.congr {p' : Plic plicSources} (h : Programmed p)
    (ht : p'.threshold = p.threshold) (he : p'.enable = p.enable) (hp : p'.priority = p.priority) :
    Programmed p' := by
  refine ⟨ht.trans h.threshold, fun i => ?_, fun i => by rw [hp]; exact h.priority i⟩
  rw [← h.enabled i]
  unfold Plic.enabled
  rw [he]

theorem Programmed.ready_iff (h : Programmed p) {i : Nat} :
    p.ready i = true ↔ (∃ d, i = irqOf d) ∧ p.pending i = true := by
  rw [Plic.ready_iff, h.enabled, h.priority]
  constructor
  · rintro ⟨_, hp, hd, _⟩
    exact ⟨hd, hp⟩
  · rintro ⟨⟨d, rfl⟩, hp⟩
    exact ⟨irqOf_range d, hp, ⟨d, rfl⟩, ⟨d, rfl⟩⟩

theorem Programmed.eip_iff (h : Programmed p) :
    p.eip = true ↔ ∃ d, p.pending (irqOf d) = true := by
  rw [Plic.eip_iff]
  constructor
  · rintro ⟨i, hr, _⟩
    obtain ⟨⟨d, rfl⟩, hp⟩ := h.ready_iff.mp hr
    exact ⟨d, hp⟩
  · rintro ⟨d, hp⟩
    refine ⟨irqOf d, h.ready_iff.mpr ⟨⟨d, rfl⟩, hp⟩, ?_⟩
    rw [h.threshold]
    exact (h.priority _).mpr ⟨d, rfl⟩

/-- **A claim** while the hart is interrupted is of the source of a device. -/
theorem Programmed.claim (h : Programmed p) (he : p.eip = true) :
    ∃ d, p.pending (irqOf d) = true ∧ plicClaim p = (irqOf d, { p with
      pending := Function.update p.pending (irqOf d) false,
      claimed := Function.update p.claimed (irqOf d) true }) := by
  have hne := Plic.best_ne_zero_of_eip he
  obtain ⟨⟨d, hd⟩, hp⟩ := h.ready_iff.mp (p.best_spec.1 hne)
  refine ⟨d, hd ▸ hp, ?_⟩
  rw [plicClaim_eq, Plic.claim_of_ne_zero hne, hd]

theorem Programmed.complete (h : Programmed p) (d : VirtioDev) :
    plicComplete p (irqOf d) = { p with claimed := Function.update p.claimed (irqOf d) false } := by
  rw [plicComplete_eq]
  exact if_pos ((h.enabled _).mpr ⟨d, rfl⟩)

theorem Programmed.eip_complete (h : Programmed p) (d : VirtioDev) :
    (plicComplete p (irqOf d)).eip = p.eip := by
  have h' : Programmed (plicComplete p (irqOf d)) := by
    rw [h.complete]
    exact h.congr rfl rfl rfl
  rw [Bool.eq_iff_iff, h'.eip_iff, h.eip_iff, h.complete]

/-- What was pending stays pending. -/
theorem Programmed.eip_forward (h : Programmed p) (he : p.eip = true) (i : Nat) :
    (p.forward i).eip = true := by
  obtain ⟨d, hd⟩ := h.eip_iff.mp he
  refine (h.congr rfl rfl rfl : Programmed (p.forward i)).eip_iff.mpr ⟨d, ?_⟩
  show Function.update p.pending i true (irqOf d) = true
  by_cases hdi : irqOf d = i
  · rw [hdi, Function.update_self]
  · rw [Function.update_of_ne hdi]
    exact hd

end

/-! ## Who has claimed what -/

/-- The source that is being handled. -/
def trapIrq : TrapPc → Option Nat
  | .idle => none
  | .claim => none
  | .call _ irq => some irq
  | .run _ irq => some irq
  | .complete irq => some irq

/-- The device whose handler is running. -/
def trapDev : TrapPc → Option VirtioDev
  | .run d _ => some d
  | _ => none

/-- A handler is called for the source of its device. -/
def TrapFits : TrapPc → Prop
  | .idle => True
  | .claim => True
  | .call d irq => irq = irqOf d
  | .run d irq => irq = irqOf d
  | .complete irq => ∃ d, irq = irqOf d

/-- How traps, handlers and the controller belong together. -/
structure Claims (s : Core) : Prop where
  programmed : Programmed s.plic
  claimed : ∀ i, s.plic.claimed i = true ↔ trapIrq s.trap = some i
  /-- The gateway of a claimed source is closed. -/
  closed : ∀ i, s.plic.claimed i = true → s.plic.pending i = false
  fits : TrapFits s.trap
  running : ∀ d, (s.dev d).pc ≠ .idle ↔ trapDev s.trap = some d
  /-- A trap is taken with interrupts on, and the call stays where it is. -/
  on : s.trap ≠ .idle → InterruptsOn s.sie s.call
  /-- A trap has a reason until it has been claimed. -/
  reason : s.trap = .claim → s.plic.eip = true

section

variable {s s' : Core} {l : CallLabel}

theorem switchIrq_irqOf (d : VirtioDev) : switchIrq (irqOf d) = .call d (irqOf d) := by
  cases d <;> rfl

theorem Claims.noHandler (h : Claims s) (ht : trapDev s.trap = none) : NoHandler s.toDrivers := by
  intro d
  by_contra hne
  have hd := (h.running d).mp hne
  rw [ht] at hd
  cases hd

/-- Only the handler of the device of the trap is running. -/
theorem Claims.others (h : Claims s) {d d' : VirtioDev} (ht : trapDev s.trap = some d)
    (hne : d' ≠ d) : (s.dev d').pc = .idle := by
  by_contra hp
  have hd := (h.running d').mp hp
  rw [ht] at hd
  injection hd with hd
  exact hne hd.symm

/-- A step that leaves the controller, the trap and the handlers alone. -/
theorem Claims.keep (h : Claims s) (hplic : s'.plic = s.plic) (htrap : s'.trap = s.trap)
    (hpc : ∀ d, (s'.dev d).pc = (s.dev d).pc)
    (hon : s.trap ≠ .idle → InterruptsOn s'.sie s'.call) : Claims s' := by
  obtain ⟨h1, h2, h3, h4, h5, h6, h7⟩ := h
  refine ⟨?_, ?_, ?_, ?_, fun d => ?_, ?_, ?_⟩
  · rw [hplic]; exact h1
  · rw [hplic, htrap]; exact h2
  · rw [hplic]; exact h3
  · rw [htrap]; exact h4
  · rw [hpc d, htrap]; exact h5 d
  · rw [htrap]; exact hon
  · rw [htrap, hplic]; exact h7

theorem setDev_pc {u : Drivers} {d : VirtioDev} {t : DevState} (h : t.pc = (u.dev d).pc)
    (d' : VirtioDev) : ((u.setDev d t).dev d').pc = (u.dev d').pc := by
  by_cases hd : d' = d
  · rw [hd, setDev_self, h]
  · rw [setDev_other hd]

theorem setDev_call (u : Drivers) (d : VirtioDev) (t : DevState) : (u.setDev d t).call = u.call := rfl

/-- What a step of a call leaves alone in a device. -/
structure CallFrame (d : VirtioDev) (t t' : DevState) : Prop where
  pc : t'.pc = t.pc
  status : t'.status = t.status
  owed : t'.owed = t.owed
  used : ∀ q, (t'.queue q).vq.usedIndex = (t.queue q).vq.usedIndex
  consumed : ∀ q, (t'.queue q).vq.consumedUsedIndex = (t.queue q).vq.consumedUsedIndex
  other : ∀ q, q ≠ reqQueue d → t'.queue q = t.queue q

theorem CallFrame.refl (d : VirtioDev) (t : DevState) : CallFrame d t t :=
  ⟨rfl, rfl, rfl, fun _ => rfl, fun _ => rfl, fun _ _ => rfl⟩

theorem CallFrame.setVq (d : VirtioDev) (t : DevState) {vq : Virtq}
    (hu : vq.usedIndex = (t.queue (reqQueue d)).vq.usedIndex)
    (hc : vq.consumedUsedIndex = (t.queue (reqQueue d)).vq.consumedUsedIndex) :
    CallFrame d t (t.setVq (reqQueue d) vq) := by
  refine ⟨rfl, rfl, rfl, fun q => ?_, fun q => ?_, fun q hq => setVq_other hq vq⟩
  · by_cases hq : q = reqQueue d
    · rw [hq, setVq_self, hu]
    · rw [setVq_other hq]
  · by_cases hq : q = reqQueue d
    · rw [hq, setVq_self, hc]
    · rw [setVq_other hq]

/-- **A step of a call** changes of the devices only the request queue and the flag. -/
theorem callStep_frame {u t : Drivers} (hs : DriversStep u l t) (hmove : t.call ≠ u.call)
    (d : VirtioDev) : CallFrame d (u.dev d) (t.dev d) := by
  -- a step that changes the device of its call
  have hset : ∀ (v : Drivers) (c : Call) (t' : DevState), v.dev = u.dev →
      CallFrame c.dev (u.dev c.dev) t' → CallFrame d (u.dev d) ((v.setDev c.dev t').dev d) := by
    intro v c t' hv hf
    by_cases hd : d = c.dev
    · rw [hd, setDev_self]
      exact hf
    · rw [setDev_other hd, hv]
      exact .refl d _
  cases hs with
  | reject _ _ _ => exact absurd rfl hmove
  | start _ _ _ _ => exact .refl d _
  | @fill c _ _ => cases c <;> exact .refl d _
  | descs _ _ => exact hset _ _ _ rfl (.setVq _ _ rfl rfl)
  | @reset c _ _ =>
      refine hset _ c _ rfl ?_
      exact ⟨rfl, rfl, rfl, fun _ => rfl, fun _ => rfl, fun _ _ => rfl⟩
  | ring _ _ => exact hset _ _ _ rfl (.setVq _ _ rfl rfl)
  | index _ _ => exact hset _ _ _ rfl (.setVq _ _ rfl rfl)
  | submit _ _ => exact hset _ _ _ rfl (.setVq _ _ rfl rfl)
  | notify _ _ => exact .refl d _
  | wait _ _ _ => exact .refl d _
  | close _ _ => exact .refl d _
  | restore _ _ _ => exact .refl d _
  | ret _ _ => exact .refl d _
  | handler _ _ _ => exact absurd rfl hmove
  | device _ _ => exact absurd rfl hmove
  | status => exact absurd rfl hmove

theorem claims_start (h : CoreStart s) : Claims s := by
  obtain ⟨⟨_, hdev⟩, _, ⟨pending, hplic⟩, htrap⟩ := h
  refine ⟨?_, fun i => ?_, fun i hi => ?_, ?_, fun d => ?_, fun hne => absurd htrap hne, fun ht => ?_⟩
  · rw [hplic]
    exact programmed_plicInit pending
  · rw [hplic, htrap]
    constructor
    · intro hc
      cases hc
    · intro hc
      cases hc
  · rw [hplic] at hi
    cases hi
  · rw [htrap]
    trivial
  · rw [htrap, (hdev d).2.1]
    constructor
    · intro hne
      exact absurd rfl hne
    · intro hr
      cases hr
  · rw [htrap] at ht
    cases ht

/-- **The hart and the controller.** -/
theorem claims_cpu (h : Claims s) (hs : CpuStep s l s') : Claims s' := by
  cases hs with
  | @call _ t htrap hcall hstep hmove _ _ =>
      exact h.keep rfl rfl (fun d => (callStep_frame hstep hmove d).pc) fun hne => absurd htrap hne
  | take htrap hon he =>
      have hnone : ∀ i, s.plic.claimed i = true ↔ (none : Option Nat) = some i := by
        intro i
        rw [h.claimed i, htrap]
        rfl
      refine ⟨h.programmed, hnone, h.closed, trivial, fun d => ?_, fun _ => hon, fun _ => he⟩
      rw [h.running d, htrap]
      rfl
  | claim htrap =>
      obtain ⟨d, _, hclaim⟩ := h.programmed.claim (h.reason htrap)
      have hnone : ∀ i, s.plic.claimed i = false := by
        intro i
        rw [← Bool.not_eq_true, h.claimed i, htrap]
        intro hi
        cases hi
      rw [hclaim]
      dsimp only
      rw [switchIrq_irqOf]
      refine ⟨h.programmed.congr rfl rfl rfl, fun i => ?_, fun i hi => ?_, rfl, fun d' => ?_,
        fun _ => h.on (by rw [htrap]; exact fun h0 => by cases h0), fun h0 => by cases h0⟩
      · show Function.update s.plic.claimed (irqOf d) true i = true ↔ some (irqOf d) = some i
        by_cases hi : i = irqOf d
        · rw [hi, Function.update_self]
          exact ⟨fun _ => rfl, fun _ => rfl⟩
        · rw [Function.update_of_ne hi, hnone i]
          constructor
          · intro h0
            cases h0
          · intro h0
            injection h0 with h0
            exact absurd h0.symm hi
      · show Function.update s.plic.pending (irqOf d) false i = false
        by_cases hid : i = irqOf d
        · rw [hid, Function.update_self]
        · have hi : Function.update s.plic.claimed (irqOf d) true i = true := hi
          rw [Function.update_of_ne hid, hnone i] at hi
          cases hi
      · rw [h.running d', htrap]
        rfl
  | @enter d irq htrap =>
      have hfits : irq = irqOf d := by
        have := h.fits
        rw [htrap] at this
        exact this
      refine ⟨h.programmed, fun i => ?_, h.closed, hfits, fun d' => ?_,
        fun _ => h.on (by rw [htrap]; exact fun h0 => by cases h0), fun h0 => by cases h0⟩
      · rw [h.claimed i, htrap]
        rfl
      · show ((s.setDev d _).dev d').pc ≠ .idle ↔ some d = some d'
        by_cases hd : d' = d
        · rw [hd, setDev_self]
          exact ⟨fun _ => rfl, fun _ h0 => by cases h0⟩
        · rw [setDev_other hd, h.running d', htrap]
          constructor
          · intro h0
            cases h0
          · intro h0
            injection h0 with h0
            exact absurd h0.symm hd
  | @handler d irq t htrap hpc hstep =>
      have hfits : irq = irqOf d := by
        have := h.fits
        rw [htrap] at this
        exact this
      have hon := h.on (by rw [htrap]; exact fun h0 => by cases h0)
      have hirq : trapIrq (if t.pc = .idle then TrapPc.complete irq else .run d irq) = some irq := by
        split <;> rfl
      refine ⟨h.programmed, fun i => ?_, h.closed, ?_, fun d' => ?_, fun _ => hon, ?_⟩
      · show _ ↔ trapIrq (if t.pc = .idle then TrapPc.complete irq else .run d irq) = some i
        rw [hirq, h.claimed i, htrap]
        rfl
      · show TrapFits (if t.pc = .idle then TrapPc.complete irq else .run d irq)
        split
        · exact ⟨d, hfits⟩
        · exact hfits
      · show ((s.setDev d t).dev d').pc ≠ .idle
          ↔ trapDev (if t.pc = .idle then TrapPc.complete irq else .run d irq) = some d'
        by_cases hd : d' = d
        · rw [hd, setDev_self]
          by_cases ht : t.pc = .idle
          · rw [if_pos ht]
            exact ⟨fun h0 => absurd ht h0, fun h0 => by cases h0⟩
          · rw [if_neg ht]
            exact ⟨fun _ => rfl, fun _ => ht⟩
        · rw [setDev_other hd, h.others (by rw [htrap]; rfl) hd]
          constructor
          · intro h0
            exact absurd rfl h0
          · intro h0
            split at h0
            · cases h0
            · injection h0 with h0
              exact absurd h0.symm hd
      · show (if t.pc = .idle then TrapPc.complete irq else .run d irq) = .claim → _
        split <;> (intro h0; cases h0)
  | @complete irq htrap =>
      have hfits := h.fits
      rw [htrap] at hfits
      obtain ⟨d, rfl⟩ := hfits
      rw [h.programmed.complete d]
      -- it was the only one
      have hnone : ∀ i, Function.update s.plic.claimed (irqOf d) false i = false := by
        intro i
        by_cases hi : i = irqOf d
        · rw [hi, Function.update_self]
        · rw [Function.update_of_ne hi, ← Bool.not_eq_true, h.claimed i, htrap]
          intro h0
          injection h0 with h0
          exact hi h0.symm
      refine ⟨h.programmed.congr rfl rfl rfl, fun i => ?_, fun i hi => ?_, trivial, fun d' => ?_,
        fun h0 => absurd rfl h0, fun h0 => by cases h0⟩
      · show Function.update s.plic.claimed (irqOf d) false i = true ↔ none = some i
        rw [hnone i]
        simp
      · have hi : Function.update s.plic.claimed (irqOf d) false i = true := hi
        rw [hnone i] at hi
        cases hi
      · rw [h.running d', htrap]
        rfl
  | @forward i _ _ _ _ hopen =>
      refine ⟨h.programmed.congr rfl rfl rfl, h.claimed, fun j hj => ?_, h.fits, h.running, h.on,
        fun ht => ?_⟩
      · have hji : j ≠ i := by
          rintro rfl
          have hj : s.plic.claimed j = true := hj
          rw [hopen] at hj
          cases hj
        exact (Function.update_of_ne hji ..).trans (h.closed j hj)
      · exact h.programmed.eip_forward (h.reason ht) i

theorem claims_outside (h : Claims s) (hs : OutsideStep s l s') : Claims s' := by
  cases hs with
  | start _ htrap _ _ => exact h.keep rfl rfl (fun _ => rfl) fun hne => absurd htrap hne
  | reject _ _ _ => exact h
  | device _ _ => exact h.keep rfl rfl (setDev_pc rfl) h.on
  | raise _ => exact h.keep rfl rfl (setDev_pc rfl) h.on
  | config => exact h.keep rfl rfl (setDev_pc rfl) h.on
  | lines => exact h.keep rfl rfl (fun _ => rfl) h.on

theorem claims_step (h : Claims s) (hs : CoreStep s l s') : Claims s' := by
  cases hs with
  | cpu hs => exact claims_cpu h hs
  | outside hs => exact claims_outside h hs

theorem claims_run {tr : List CallLabel} (h : Run CoreStart CoreStep tr s) : Claims s :=
  h.invariant (fun _ h => claims_start h) fun _ _ _ h hs => claims_step h hs

/-- **Claiming and completing.** In every run:

* a source is claimed exactly while an interrupt is being handled for it, and it is the
  source of the device whose handler is called;
* a handler runs only between the claim and the completion of its own source, so that the
  handlers exclude each other, and only with interrupts on in whatever was interrupted;
* no claim comes back empty or with an unexpected source, and no completion is ignored. -/
theorem external_irq_discipline {tr : List CallLabel} (h : Run CoreStart CoreStep tr s) :
    (∀ i, s.plic.claimed i = true ↔ trapIrq s.trap = some i)
    ∧ (∀ i, trapIrq s.trap = some i → ∃ d, i = irqOf d)
    ∧ (∀ d, (s.dev d).pc ≠ .idle → s.trap = .run d (irqOf d) ∧ InterruptsOn s.sie s.call
      ∧ ∀ d', d' ≠ d → (s.dev d').pc = .idle)
    ∧ (s.trap = .claim → ∃ d, (plicClaim s.plic).1 = irqOf d
      ∧ switchIrq (plicClaim s.plic).1 = .call d (irqOf d))
    ∧ (∀ i, s.trap = .complete i → s.plic.claimed i = true
      ∧ ∀ j, (plicComplete s.plic i).claimed j = false) := by
  have hc := claims_run h
  refine ⟨hc.claimed, fun i hi => ?_, fun d hd => ?_, fun ht => ?_, fun i ht => ?_⟩
  · have hfits := hc.fits
    cases ht : s.trap with
    | idle => rw [ht] at hi; cases hi
    | claim => rw [ht] at hi; cases hi
    | call d irq =>
        rw [ht] at hi hfits
        injection hi with hi
        exact ⟨d, hi ▸ hfits⟩
    | run d irq =>
        rw [ht] at hi hfits
        injection hi with hi
        exact ⟨d, hi ▸ hfits⟩
    | complete irq =>
        rw [ht] at hi hfits
        injection hi with hi
        exact hi ▸ hfits
  · have hr := (hc.running d).mp hd
    have hfits := hc.fits
    cases ht : s.trap with
    | run d' irq =>
        rw [ht] at hr hfits
        injection hr with hr
        subst hr
        have hfits : irq = irqOf d' := hfits
        refine ⟨by rw [hfits], hc.on (by rw [ht]; exact fun h0 => by cases h0), fun d'' hne => ?_⟩
        exact hc.others (by rw [ht]; rfl) hne
    | _ => rw [ht] at hr; cases hr
  · obtain ⟨d, _, hclaim⟩ := hc.programmed.claim (hc.reason ht)
    refine ⟨d, by rw [hclaim], ?_⟩
    rw [hclaim]
    exact switchIrq_irqOf d
  · refine ⟨(hc.claimed i).mpr (by rw [ht]; rfl), fun j => ?_⟩
    have hdone := claims_cpu hc (.complete ht)
    rw [← Bool.not_eq_true]
    intro hj
    cases (hdone.claimed j).mp hj

end

/-- Both devices after their initialisation. -/
def sampleCore : Core where
  dev
    | .blk => ⟨fun _ => Queue.fresh, ⟨false, false⟩, 0, false, false, .idle, 0⟩
    | .net => ⟨fun q => if q = netRxQueue then netRxReady 0 else Queue.fresh, ⟨false, false⟩, 0, false,
        false, .idle, 0⟩
  call := .idle
  sie := false
  blkReq := ⟨0, 0, fun _ => 0, 0⟩
  netTxBuf _ := 0
  netPendingTxLen := 0
  blkReqPaddr := 0
  netTxPaddr := 0
  sectors := 1
  plic := plicInit (Plic.reset fun _ => false)
  trap := .idle
  lines _ := false

theorem sampleCore_start : CoreStart sampleCore := by
  refine ⟨⟨rfl, fun d => ?_⟩, rfl, ⟨_, rfl⟩, rfl⟩
  cases d with
  | blk => exact ⟨fun _ _ => rfl, rfl, rfl⟩
  | net =>
      refine ⟨?_, rfl, rfl⟩
      rintro q rfl
      rfl

/-- The configuration of the disk has changed, and the trap is about to claim its source. -/
theorem external_irq_discipline_config : ∃ tr s, Run CoreStart CoreStep tr s ∧ s.trap = .claim
    ∧ ∃ d, switchIrq (plicClaim s.plic).1 = .call d (irqOf d) := by
  have h0 : Run CoreStart CoreStep [] sampleCore := .start sampleCore_start
  have h1 := h0.snoc (.outside (.config (d := .blk)))
  have h2 := h1.snoc (.cpu (.forward (i := 1) (by decide) (by decide) rfl rfl rfl))
  have h3 := h2.snoc (.cpu (.take rfl trivial (by decide +kernel)))
  obtain ⟨d, _, hd⟩ := (external_irq_discipline h3).2.2.2.1 rfl
  exact ⟨_, _, h3, rfl, d, hd⟩

end Os1000.Proof
