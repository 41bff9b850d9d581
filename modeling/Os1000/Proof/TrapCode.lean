import Os1000.Trap.Machine

/-!
# What the assembler does

One lemma for each piece: `kernel_entry` before and after `handle_trap`, for a trap out
of user mode and for one inside the kernel, and `switch_context`. The two entries differ
in where the frame is and agree in everything else, and so do the two exits.
-/

namespace Os1000.Proof

open Os1000 Lib

theorem length_trapRegs : trapRegs.length = 30 := rfl

theorem length_calleeSaved : calleeSaved.length = 13 := rfl

/-- Every register but the stack pointer is in the frame. -/
theorem mem_trapRegs (r : Reg) (hz : r ≠ .zero) (hsp : r ≠ .sp) : ∃ i : Nat, trapRegs[i]? = some r := by
  have hmem : r ∈ trapRegs := by
    cases r <;> first | contradiction | decide
  obtain ⟨i, hi, he⟩ := List.getElem_of_mem hmem
  exact ⟨i, by rw [List.getElem?_eq_getElem hi, he]⟩

theorem lt_of_trapRegs {i : Nat} {r : Reg} (h : trapRegs[i]? = some r) : i < 30 := by
  obtain ⟨hi, _⟩ := List.getElem?_eq_some_iff.mp h
  exact hi

theorem lt_of_calleeSaved {i : Nat} {r : Reg} (h : calleeSaved[i]? = some r) : i < 13 := by
  obtain ⟨hi, _⟩ := List.getElem?_eq_some_iff.mp h
  exact hi

/-! ## Entering the kernel -/

/-- What `kernel_entry` has done when it calls `handle_trap`, with its frame at `F`. -/
structure Entered (h h' : Hart) (F : Nat) : Prop where
  sp : h'.regs .sp = F
  a0 : h'.regs .a0 = F
  saved : ∀ i r, trapRegs[i]? = some r → h'.mem (F + 4 * i) = h.get r
  savedSp : h'.mem (F + 4 * 30) = h.get .sp
  outside : ∀ a, a < F ∨ F + 128 ≤ a → h'.mem a = h.mem a
  sscratch : h'.sscratch = 0
  sepc : h'.sepc = h.sepc
  sstatus : h'.sstatus = h.sstatus
  mode : h'.mode = h.mode

/-- The interrupted stack pointer is taken from `sscratch`. -/
theorem entrySp_user (h : Hart) (hspp : h.sstatus.spp = false)
    (hlt : h.get .sp + 4 * 30 < 2 ^ 32) :
    run entrySp none h = (((((h.set .t0 h.sstatus.word).set .t0 0).set .a0 h.sscratch).store
      (h.get .sp + 4 * 30) h.sscratch).setCsr .sscratch 0).set .a0 (h.get .sp) := by
  have hw : h.sstatus.word &&& sstatusSpp = 0 := by
    rw [sstatusSpp, Sstatus.word_and_spp, hspp]
    rfl
  have hat : (h.get .sp + 4 * 30) % 2 ^ 32 = h.get .sp + 4 * 30 := Nat.mod_eq_of_lt hlt
  have hbr : ∀ is, run (.csrr .t0 .sstatus :: .andi .t0 .t0 sstatusSpp :: .bnez .t0 2 :: is) none h
      = run is none ((h.set .t0 h.sstatus.word).set .t0 0) := by
    intro is
    show run is (if h.sstatus.word &&& sstatusSpp = 0 then none else some 2)
      ((h.set .t0 h.sstatus.word).set .t0 (h.sstatus.word &&& sstatusSpp)) = _
    rw [hw, if_pos rfl]
  unfold entrySp
  rw [hbr, ← hat]
  rfl

/-- The interrupted stack pointer is computed. -/
theorem entrySp_kernel (h : Hart) (hspp : h.sstatus.spp = true)
    (hlt : h.get .sp + 4 * 32 < 2 ^ 32) :
    run entrySp none h = ((((h.set .t0 h.sstatus.word).set .t0 (2 ^ 8)).set .a0
      (h.get .sp + 4 * 32)).store (h.get .sp + 4 * 30) (h.get .sp + 4 * 32)).set .a0 (h.get .sp) := by
  have hw : h.sstatus.word &&& sstatusSpp = 2 ^ 8 := by
    rw [sstatusSpp, Sstatus.word_and_spp, hspp]
    rfl
  have hat : (h.get .sp + 4 * 30) % 2 ^ 32 = h.get .sp + 4 * 30 := Nat.mod_eq_of_lt (by omega)
  have hadd : (((h.get .sp : Int) + (4 * 32 : Int)) % 2 ^ 32).toNat = h.get .sp + 4 * 32 :=
    addi_pos hlt
  have hbr : ∀ is, run (.csrr .t0 .sstatus :: .andi .t0 .t0 sstatusSpp :: .bnez .t0 2 :: is) none h
      = run is (some 2) ((h.set .t0 h.sstatus.word).set .t0 (2 ^ 8)) := by
    intro is
    show run is (if h.sstatus.word &&& sstatusSpp = 0 then none else some 2)
      ((h.set .t0 h.sstatus.word).set .t0 (h.sstatus.word &&& sstatusSpp)) = _
    rw [hw, if_neg (by decide)]
  unfold entrySp
  rw [hbr, ← hat, ← hadd]
  rfl

/-- The frame is stored once the stack pointer is that of the kernel. -/
theorem entered_saves {h h1 : Hart} {F : Nat} (hget : ∀ r, r ≠ .sp → h1.get r = h.get r)
    (hF : h1.get .sp = F) (hlt : F + 128 < 2 ^ 32) (hmem : h1.mem = h.mem)
    (hsepc : h1.sepc = h.sepc) (hst : h1.sstatus = h.sstatus) (hmode : h1.mode = h.mode)
    (hkind : h.sstatus.spp = false ∧ h1.sscratch = h.get .sp
      ∨ h.sstatus.spp = true ∧ h1.sscratch = 0 ∧ h.get .sp = F + 128) :
    Entered h (run (saves .sp trapRegs 0 ++ entrySp) none h1) F := by
  obtain ⟨mem, hrun, hin, hout⟩ := exists_saves .sp trapRegs 0 entrySp h1
    (by rw [hF, length_trapRegs]; omega)
  rw [hF, length_trapRegs] at hout
  -- a word of the frame survives the store of the stack pointer
  have hword : ∀ i r v, trapRegs[i]? = some r →
      Function.update mem (F + 4 * 30) v (F + 4 * i) = h.get r := by
    intro i r v hi
    have hlt := lt_of_trapRegs hi
    rw [Function.update_of_ne (by omega)]
    have hr : r ≠ .sp := by
      rintro rfl
      exact absurd (List.mem_of_getElem? hi) (by decide)
    rw [← hget r hr, ← hin i r hi, hF, Nat.zero_add]
  have hrest : ∀ a v, a < F ∨ F + 128 ≤ a → Function.update mem (F + 4 * 30) v a = h.mem a := by
    intro a v ha
    rw [Function.update_of_ne (by omega), hout a (by omega), hmem]
  rw [hrun]
  rcases hkind with ⟨hspp, hs⟩ | ⟨hspp, hs, hsp⟩
  · rw [entrySp_user _ (by rw [← hspp]; exact congrArg Sstatus.spp hst)
      (by show h1.get .sp + _ < _; omega)]
    refine ⟨hF, hF, ?_, ?_, ?_, rfl, hsepc, hst, hmode⟩
    · intro i r hi
      rw [← hword i r h1.sscratch hi, ← hF]
      rfl
    · rw [← hs, ← hF]
      exact Function.update_self ..
    · intro a ha
      rw [← hrest a h1.sscratch ha, ← hF]
      rfl
  · rw [entrySp_kernel _ (by rw [← hspp]; exact congrArg Sstatus.spp hst)
      (by show h1.get .sp + _ < _; omega)]
    refine ⟨hF, hF, ?_, ?_, ?_, hs, hsepc, hst, hmode⟩
    · intro i r hi
      rw [← hword i r (h1.get .sp + 4 * 32) hi, ← hF]
      rfl
    · rw [hsp, ← hF]
      exact Function.update_self ..
    · intro a ha
      rw [← hrest a (h1.get .sp + 4 * 32) ha, ← hF]
      rfl

/-- **Entry from user mode**: the frame is at the top of the stack `sscratch` names. -/
theorem kernelEntry_user (h : Hart) (hspp : h.sstatus.spp = false) (hge : 128 ≤ h.sscratch)
    (hlt : h.sscratch < 2 ^ 32) : Entered h (run kernelEntry none h) (h.sscratch - 128) := by
  have hne : h.sscratch ≠ 0 := by omega
  have hadd : (((h.sscratch : Int) + -(4 * 32 : Int)) % 2 ^ 32).toNat = h.sscratch - 128 :=
    addi_neg (n := 128) hge hlt
  have hbr : run kernelEntry none h = run (saves .sp trapRegs 0 ++ entrySp) none
      (((h.setCsr .sscratch (h.get .sp)).set .sp h.sscratch).set .sp (h.sscratch - 128)) := by
    show run _ (if h.sscratch = 0 then none else some 1)
      ((h.setCsr .sscratch (h.get .sp)).set .sp h.sscratch) = _
    rw [if_neg hne, ← hadd]
    rfl
  rw [hbr]
  refine entered_saves (fun r hr => ?_) rfl (by omega) rfl rfl rfl rfl (Or.inl ⟨hspp, rfl⟩)
  rw [Hart.set_get_other hr, Hart.set_get_other hr]
  rfl

/-- **Entry from the kernel**: the frame is below what was on the stack. -/
theorem kernelEntry_kernel (h : Hart) (hspp : h.sstatus.spp = true) (hs : h.sscratch = 0)
    (hge : 128 ≤ h.regs .sp) (hlt : h.regs .sp < 2 ^ 32) :
    Entered h (run kernelEntry none h) (h.regs .sp - 128) := by
  have hadd : (((h.regs .sp : Int) + -(4 * 32 : Int)) % 2 ^ 32).toNat = h.regs .sp - 128 :=
    addi_neg (n := 128) hge hlt
  obtain ⟨h0, hh0⟩ : ∃ h0, h0 = (h.setCsr .sscratch (h.get .sp)).set .sp h.sscratch := ⟨_, rfl⟩
  have hbr : run kernelEntry none h = run (saves .sp trapRegs 0 ++ entrySp) none
      (((h0.setCsr .sscratch (h0.get .sp)).set .sp (h.regs .sp)).set .sp (h.regs .sp - 128)) := by
    show run _ (if h.sscratch = 0 then none else some 1)
      ((h.setCsr .sscratch (h.get .sp)).set .sp h.sscratch) = _
    rw [if_pos hs, ← hadd, hh0]
    rfl
  rw [hbr]
  refine entered_saves (fun r hr => ?_) rfl (by omega) ?_ ?_ ?_ ?_ (Or.inr ⟨hspp, ?_, ?_⟩)
  · rw [Hart.set_get_other hr, Hart.set_get_other hr]
    show h0.get r = _
    rw [hh0, Hart.set_get_other hr]
    rfl
  · rw [hh0]; rfl
  · rw [hh0]; rfl
  · rw [hh0]; rfl
  · rw [hh0]; rfl
  · rw [hh0]; exact hs
  · show h.regs .sp = _
    omega

/-! ## Leaving the kernel -/

/-- What `kernel_entry` has done when it has left the kernel, with its frame at `F`. -/
structure Exited (h h' : Hart) (F : Nat) : Prop where
  restored : ∀ i r, trapRegs[i]? = some r → h'.get r = h.mem (F + 4 * i)
  mem : h'.mem = h.mem
  pc : h'.pc = h.sepc
  sie : h'.sstatus.sie = h.sstatus.spie

/-- **Return to user mode**: `sscratch` is the end of the frame. -/
theorem kernelExit_user (h : Hart) {F : Nat} (hF : h.regs .sp = F) (hspp : h.sstatus.spp = false)
    (hlt : F + 128 < 2 ^ 32) :
    Exited h (run kernelExit none h) F ∧ (run kernelExit none h).get .sp = h.mem (F + 4 * 30)
      ∧ (run kernelExit none h).sscratch = F + 128 ∧ (run kernelExit none h).mode = .user := by
  have hw : h.sstatus.word &&& sstatusSpp = 0 := by
    rw [sstatusSpp, Sstatus.word_and_spp, hspp]
    rfl
  have hadd : (((F : Int) + (4 * 32 : Int)) % 2 ^ 32).toNat = F + 128 := addi_pos (n := 128) hlt
  obtain ⟨h1, hh1⟩ : ∃ h1, h1 = (((h.set .t0 h.sstatus.word).set .t0 0).set .t0 (F + 128)).setCsr
      .sscratch (F + 128) := ⟨_, rfl⟩
  have hbr : run kernelExit none h
      = run (loads .sp trapRegs 0 ++ [.lw .sp (4 * 30) .sp, .sret]) none h1 := by
    show run (loads .sp trapRegs 0 ++ _) (if h.sstatus.word &&& sstatusSpp = 0 then some 4 else none)
      ((h.set .t0 h.sstatus.word).set .t0 (h.sstatus.word &&& sstatusSpp)) = _
    rw [hw, if_pos rfl, run_skip _ _ _ (label_not_mem_loads _ _ _), hh1, ← hadd, ← hF]
    rfl
  have hsp1 : h1.get .sp = F := by rw [hh1, ← hF]; rfl
  obtain ⟨regs, hrun, hin, hout⟩ := exists_loads .sp trapRegs 0
    [.lw .sp (4 * 30) .sp, .sret] h1 (by rw [hsp1, length_trapRegs]; omega) (by decide) (by decide)
  have hmem1 : h1.mem = h.mem := by rw [hh1]; rfl
  have hst1 : h1.sstatus = h.sstatus := by rw [hh1]; rfl
  rw [hsp1, hmem1] at hin
  have hspr : regs .sp = F := (hout .sp (by decide)).trans hsp1
  have hat : (F + 4 * 30) % 2 ^ 32 = F + 4 * 30 := Nat.mod_eq_of_lt (by omega)
  have hend : run kernelExit none h
      = Hart.sret ({ h1 with regs := regs }.set .sp (h.mem (F + 4 * 30))) := by
    rw [hbr, hrun, ← hmem1, ← hat, ← hspr]
    rfl
  rw [hend]
  refine ⟨⟨?_, hmem1, by rw [hh1]; rfl, by rw [hh1]; rfl⟩, rfl, by rw [hh1]; rfl, ?_⟩
  · intro i r hi
    have hmem := List.mem_of_getElem? hi
    have hr : r ≠ .sp := by rintro rfl; exact absurd hmem (by decide)
    have hz : r ≠ .zero := by rintro rfl; exact absurd hmem (by decide)
    show Hart.get ({ h1 with regs := regs }.set .sp _) r = _
    rw [Hart.set_get_other hr, Hart.get_eq hz]
    show regs r = _
    rw [hin i r hi, Nat.zero_add]
  · show (if h1.sstatus.spp then Priv.supervisor else .user) = .user
    rw [hst1, hspp]
    rfl

/-- **Return into the kernel**: `sscratch` stays as it is. -/
theorem kernelExit_kernel (h : Hart) {F : Nat} (hF : h.regs .sp = F) (hspp : h.sstatus.spp = true)
    (hlt : F + 128 < 2 ^ 32) :
    Exited h (run kernelExit none h) F ∧ (run kernelExit none h).regs .sp = F + 128
      ∧ (run kernelExit none h).sscratch = h.sscratch
      ∧ (run kernelExit none h).mode = .supervisor := by
  have hw : h.sstatus.word &&& sstatusSpp = 2 ^ 8 := by
    rw [sstatusSpp, Sstatus.word_and_spp, hspp]
    rfl
  have hadd : (((F : Int) + (4 * 32 : Int)) % 2 ^ 32).toNat = F + 128 := addi_pos (n := 128) hlt
  obtain ⟨h1, hh1⟩ : ∃ h1, h1 = (h.set .t0 h.sstatus.word).set .t0 (2 ^ 8) := ⟨_, rfl⟩
  have hbr : run kernelExit none h
      = run (loads .sp trapRegs 0 ++ (.addi .sp .sp (4 * 32) :: .sret :: exitUser)) none h1 := by
    show run (loads .sp trapRegs 0 ++ _) (if h.sstatus.word &&& sstatusSpp = 0 then some 4 else none)
      ((h.set .t0 h.sstatus.word).set .t0 (h.sstatus.word &&& sstatusSpp)) = _
    rw [hw, if_neg (by decide), hh1]
    rfl
  have hsp1 : h1.get .sp = F := by rw [hh1, ← hF]; rfl
  obtain ⟨regs, hrun, hin, hout⟩ := exists_loads .sp trapRegs 0
    (.addi .sp .sp (4 * 32) :: .sret :: exitUser) h1 (by rw [hsp1, length_trapRegs]; omega) (by decide)
    (by decide)
  have hmem1 : h1.mem = h.mem := by rw [hh1]; rfl
  have hst1 : h1.sstatus = h.sstatus := by rw [hh1]; rfl
  rw [hsp1, hmem1] at hin
  have hspr : regs .sp = F := (hout .sp (by decide)).trans hsp1
  have hend : run kernelExit none h = Hart.sret ({ h1 with regs := regs }.set .sp (F + 128)) := by
    rw [hbr, hrun, ← hadd, ← hspr]
    rfl
  rw [hend]
  refine ⟨⟨?_, hmem1, by rw [hh1]; rfl, by rw [hh1]; rfl⟩, rfl, by rw [hh1]; rfl, ?_⟩
  · intro i r hi
    have hmem := List.mem_of_getElem? hi
    have hr : r ≠ .sp := by rintro rfl; exact absurd hmem (by decide)
    have hz : r ≠ .zero := by rintro rfl; exact absurd hmem (by decide)
    show Hart.get ({ h1 with regs := regs }.set .sp _) r = _
    rw [Hart.set_get_other hr, Hart.get_eq hz]
    show regs r = _
    rw [hin i r hi, Nat.zero_add]
  · show (if h1.sstatus.spp then Priv.supervisor else .user) = .supervisor
    rw [hst1, hspp]
    rfl

/-! ## Switching stacks -/

/-- What `switch_context` has done: `prev` is saved at `P`, and `N` is where `next` was. -/
structure Switched (h h' : Hart) (P N : Nat) : Prop where
  saved : ∀ i r, calleeSaved[i]? = some r → h'.mem (P + 4 * i) = h.get r
  savedSp : h'.mem (h.regs .a0) = P
  outside : ∀ a, a ≠ h.regs .a0 → a < P ∨ P + 52 ≤ a → h'.mem a = h.mem a
  sp : h'.regs .sp = N + 52
  restored : ∀ i r, calleeSaved[i]? = some r → h'.regs r = h'.mem (N + 4 * i)
  pc : h'.pc = h'.mem N
  sscratch : h'.sscratch = h.sscratch
  sstatus : h'.sstatus = h.sstatus
  mode : h'.mode = h.mode

/-- **`switch_context`** -/
theorem switchContext_spec (h : Hart) {P N : Nat} (hP : h.regs .sp = P + 52)
    (hlt : P + 52 < 2 ^ 32) (ha0 : h.regs .a0 < 2 ^ 32) (ha1 : h.regs .a1 < 2 ^ 32)
    (hout0 : h.regs .a0 < P ∨ P + 52 ≤ h.regs .a0) (hout1 : h.regs .a1 < P ∨ P + 52 ≤ h.regs .a1)
    (hne : h.regs .a1 ≠ h.regs .a0) (hN : h.mem (h.regs .a1) = N) (hNlt : N + 52 < 2 ^ 32) :
    Switched h (run switchContext none h) P N := by
  have hsub : (((h.regs .sp : Int) + -(13 * 4 : Int)) % 2 ^ 32).toNat = P := by
    have := addi_neg (n := 52) (v := h.regs .sp) (by omega) (by omega)
    rw [show (-(13 * 4 : Int)) = -((52 : Nat) : Int) by rfl, this]
    omega
  have hadd : (((N : Int) + (13 * 4 : Int)) % 2 ^ 32).toNat = N + 52 := addi_pos (n := 52) hNlt
  obtain ⟨h1, hh1⟩ : ∃ h1, h1 = h.set .sp P := ⟨_, rfl⟩
  have hget1 : ∀ r, r ≠ .sp → h1.get r = h.get r := fun r hr => by
    rw [hh1]; exact Hart.set_get_other hr
  have hsp1 : h1.get .sp = P := by rw [hh1]; rfl
  have hmem1 : h1.mem = h.mem := by rw [hh1]; rfl
  -- the registers are stored
  obtain ⟨mem, hrun, hin, hout⟩ := exists_saves .sp calleeSaved 0
    (.sw .sp 0 .a0 :: .lw .sp 0 .a1 :: (loads .sp calleeSaved 0 ++ [.addi .sp .sp (13 * 4), .ret]))
    h1 (by rw [hsp1, length_calleeSaved]; omega)
  rw [hsp1] at hin
  rw [hsp1, length_calleeSaved, hmem1] at hout
  -- the stack pointers are exchanged
  obtain ⟨m2, hm2⟩ : ∃ m2, m2 = Function.update mem (h.regs .a0) P := ⟨_, rfl⟩
  have hN2 : m2 (h.regs .a1) = N := by
    rw [hm2, Function.update_of_ne hne, hout _ (by omega), hN]
  obtain ⟨h2, hh2⟩ : ∃ h2, h2 = ({ h1 with mem := m2 }.set .sp N) := ⟨_, rfl⟩
  have hex : run switchContext none h
      = run (loads .sp calleeSaved 0 ++ [.addi .sp .sp (13 * 4), .ret]) none h2 := by
    have h0 : run switchContext none h = run (saves .sp calleeSaved 0 ++ (.sw .sp 0 .a0
        :: .lw .sp 0 .a1 :: (loads .sp calleeSaved 0 ++ [.addi .sp .sp (13 * 4), .ret]))) none h1 := by
      rw [hh1, ← hsub]
      rfl
    have ha0' : ({ h1 with mem := mem } : Hart).get .a0 = h.regs .a0 := hget1 .a0 (by decide)
    have hs : ({ h1 with mem := mem } : Hart).get .sp = P := hsp1
    rw [h0, hrun]
    show run _ none (Instr.exec (Instr.exec { h1 with mem := mem } (.sw .sp 0 .a0)) (.lw .sp 0 .a1))
      = _
    have hsw : Instr.exec { h1 with mem := mem } (.sw .sp 0 .a0) = { h1 with mem := m2 } := by
      show Hart.store _ _ _ = _
      rw [ha0', hs, Nat.add_zero, Nat.mod_eq_of_lt ha0, hm2]
      rfl
    have ha1' : ({ h1 with mem := m2 } : Hart).get .a1 = h.regs .a1 := hget1 .a1 (by decide)
    rw [hsw]
    show run _ none (Hart.set _ _ (m2 _)) = _
    rw [ha1', Nat.add_zero, Nat.mod_eq_of_lt ha1, hN2, hh2]
  -- the registers of the other process are loaded
  have hsp2 : h2.get .sp = N := by rw [hh2]; rfl
  have hmem2 : h2.mem = m2 := by rw [hh2]; rfl
  obtain ⟨regs, hrun2, hin2, hout2⟩ := exists_loads .sp calleeSaved 0
    [.addi .sp .sp (13 * 4), .ret] h2 (by rw [hsp2, length_calleeSaved]; omega) (by decide) (by decide)
  rw [hsp2, hmem2] at hin2
  have hspr : regs .sp = N := (hout2 .sp (by decide)).trans hsp2
  have hend : run switchContext none h
      = { ({ h2 with regs := regs }.set .sp (N + 52)) with pc := regs .ra } := by
    rw [hex, hrun2, ← hadd, ← hspr]
    rfl
  rw [hend]
  refine ⟨?_, ?_, ?_, rfl, ?_, ?_, by rw [hh2, hh1]; rfl, by rw [hh2, hh1]; rfl,
    by rw [hh2, hh1]; rfl⟩
  · intro i r hi
    have hi' := lt_of_calleeSaved hi
    have hr : r ≠ .sp := by
      rintro rfl
      exact absurd (List.mem_of_getElem? hi) (by decide)
    show h2.mem (P + 4 * i) = _
    rw [hmem2, hm2, Function.update_of_ne (by omega), ← hget1 r hr, ← hin i r hi, Nat.zero_add]
  · show h2.mem (h.regs .a0) = P
    rw [hmem2, hm2]
    exact Function.update_self ..
  · intro a ha hrange
    show h2.mem a = _
    rw [hmem2, hm2, Function.update_of_ne ha, hout a (by omega)]
  · intro i r hi
    have hr : r ≠ .sp := by
      rintro rfl
      exact absurd (List.mem_of_getElem? hi) (by decide)
    show Function.update regs .sp (N + 52) r = h2.mem (N + 4 * i)
    rw [Function.update_of_ne hr, hin2 i r hi, hmem2, Nat.zero_add]
  · show regs .ra = h2.mem N
    rw [hin2 0 .ra rfl, hmem2]
    rfl

end Os1000.Proof
