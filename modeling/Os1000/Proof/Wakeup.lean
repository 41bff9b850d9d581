import Os1000.Proof.CoreInvariant
import Mathlib.Data.Finset.Card

/-!
# No wake-up is lost

`wait_for_interrupt` tests the flag and sleeps with interrupts off. Once the device has
published the request and raised its interrupt, the call returns, whatever interrupts of
either device come in between: as long as the flag is clear the hart has something to do
(`progress`), and everything it does lowers a number (`cost`). The devices may be as slow as
they like; only what they do not do is not waited for here.

The number counts what there is to handle: the traps that are due, the elements that are not
popped, how far the handler, the trap and the call have come.
-/

namespace Os1000.Proof

open Os1000 Lib

/-! ## What is left to do -/

/-- The elements of queue `q` that were not popped. -/
def unpopped (t : DevState) (q : Nat) : Nat :=
  gap (t.queue q).vq.usedIndex (t.queue q).vq.consumedUsedIndex

/-- How much of a handler is left, but for the elements it pops. -/
def handlerCost : IrqPc → Nat
  | .idle => 0
  | .status => 25
  | .ack _ => 24
  | .check q => 10 * (2 - q) + 3
  | .read q => 10 * (2 - q) + 2
  | .consume q _ => 10 * (2 - q) + 1
  | .body q _ => 10 * (2 - q) + 4

/-- The elements of a device, and its handler. -/
def deviceCost (t : DevState) : Nat := 5 * (unpopped t 0 + unpopped t 1) + handlerCost t.pc

/-- What the handler of a device leaves of `InterruptStatus` from where it is. -/
def afterHandler (t : DevState) : IrqStatus :=
  match t.pc with
  | .status => ⟨false, false⟩
  | .ack st => t.status.ack st
  | _ => t.status

/-- What a trap leaves of the `InterruptStatus` of device `d`. -/
def leftover (trap : TrapPc) (d : VirtioDev) (t : DevState) : IrqStatus :=
  match trap with
  | .call d' _ => if d' = d then ⟨false, false⟩ else t.status
  | .run d' _ => if d' = d then afterHandler t else t.status
  | _ => t.status

/-- Whether there is going to be another trap for device `d`. -/
def due (s : Core) (d : VirtioDev) : Nat :=
  if s.plic.pending (irqOf d) = true ∨ (leftover s.trap d (s.dev d)).any = true then 1 else 0

/-- The sources that may still become pending. -/
def notPending (p : Plic plicSources) : Nat :=
  ((Finset.range (plicSources + 1)).filter fun i => p.pending i = false).card

/-- How much of a trap is left. -/
def trapCost : TrapPc → Nat
  | .idle => 2
  | .claim => 1
  | .call _ _ => 40
  | .run _ _ => 10
  | .complete _ => 5

/-- How much of a call is left. `wfi` ends while the hart is interrupted, and the window closes
while it is not. -/
def callCost (eip : Bool) : CallPc → Nat
  | .idle => 0
  | .fill _ => 20
  | .descs _ => 19
  | .reset _ => 18
  | .ring _ => 17
  | .index _ => 16
  | .submit _ => 15
  | .notify _ => 14
  | .loop _ => 2
  | .window _ => if eip then 1 else 3
  | .finish _ => 1

/-- What is left to do for the hart and the controller. -/
def cost (s : Core) : Nat :=
  200 * (due s .blk + due s .net) + (deviceCost (s.dev .blk) + deviceCost (s.dev .net))
    + trapCost s.trap + notPending s.plic + callCost s.plic.eip s.call

section

variable {s s' : Core} {l : CallLabel}

theorem notPending_le (p : Plic plicSources) : notPending p ≤ plicSources + 1 :=
  (Finset.card_filter_le _ _).trans_eq (Finset.card_range _)

/-- A source that becomes pending. -/
theorem notPending_forward {p : Plic plicSources} {i : Nat} (hi : i ≤ plicSources)
    (hp : p.pending i = false) : notPending (p.forward i) < notPending p := by
  refine Finset.card_lt_card (Finset.ssubset_iff_subset_ne.mpr ⟨fun j hj => ?_, fun heq => ?_⟩)
  · obtain ⟨hr, hj⟩ := Finset.mem_filter.mp hj
    have hj : Function.update p.pending i true j = false := hj
    refine Finset.mem_filter.mpr ⟨hr, ?_⟩
    by_cases hji : j = i
    · rw [hji]
      exact hp
    · rwa [Function.update_of_ne hji] at hj
  · have hmem : i ∈ (Finset.range (plicSources + 1)).filter fun j => p.pending j = false :=
      Finset.mem_filter.mpr ⟨Finset.mem_range.mpr (Nat.lt_succ_of_le hi), hp⟩
    rw [← heq] at hmem
    have hi : Function.update p.pending i true i = false := (Finset.mem_filter.mp hmem).2
    rw [Function.update_self] at hi
    cases hi

/-- What calling a handler costs. -/
theorem deviceCost_status {t : DevState} (h : t.pc = .idle) :
    deviceCost { t with pc := .status } = deviceCost t + 25 := by
  have h0 : handlerCost t.pc = 0 := by rw [h]; rfl
  have h1 : handlerCost .status = 25 := rfl
  have hu : ∀ q, unpopped { t with pc := .status } q = unpopped t q := fun _ => rfl
  unfold deviceCost
  rw [hu 0, hu 1, h0, h1, Nat.add_zero]

/-- **A step of a handler** lowers what is left to do for its device. -/
theorem handlerStep_cost {d : VirtioDev} {t t' : DevState} (hs : HandlerStep d t t')
    (hne : t.pc ≠ .idle) (hr : InRange d t.pc)
    (hpop : ∀ q e, t.pc = .consume q e → (t.queue q).vq.usedIndex < 2 ^ 16
      ∧ (t.queue q).vq.consumedUsedIndex < 2 ^ 16
      ∧ (t.queue q).vq.usedIndex ≠ (t.queue q).vq.consumedUsedIndex) :
    deviceCost t' < deviceCost t := by
  have htwo : d.queues ≤ 2 := by cases d <;> decide
  -- a step that pops nothing
  have hmove : (∀ q, unpopped t' q = unpopped t q) → handlerCost t'.pc < handlerCost t.pc →
      deviceCost t' < deviceCost t := by
    intro hu hc
    unfold deviceCost
    rw [hu 0, hu 1]
    omega
  cases hs with
  | enter hpc => exact absurd hpc hne
  | nothing hpc _ => exact hmove (fun _ => rfl) (by rw [hpc]; exact Nat.succ_pos _)
  | status hpc _ => exact hmove (fun _ => rfl) (by rw [hpc]; exact Nat.lt_succ_self 24)
  | @ack st hpc =>
      refine hmove (fun _ => rfl) ?_
      rw [hpc]
      show handlerCost (if st.usedBuffer then .check 0 else .idle) < 24
      split <;> decide
  | @more q hpc _ => exact hmove (fun _ => rfl) (by rw [hpc]; exact Nat.lt_succ_self _)
  | @next q hpc _ hlt =>
      refine hmove (fun _ => rfl) ?_
      rw [hpc]
      show 10 * (2 - (q + 1)) + 3 < 10 * (2 - q) + 3
      omega
  | leave hpc _ _ =>
      cases d with
      | blk => exact hmove (fun _ => rfl) (by rw [hpc]; exact Nat.succ_pos _)
      | net => exact hmove (fun _ => rfl) (by rw [hpc]; exact Nat.succ_pos _)
  | @read q hpc => exact hmove (fun _ => rfl) (by rw [hpc]; exact Nat.lt_succ_self _)
  | @consume q e hpc =>
      obtain ⟨h1, h2, h3⟩ := hpop q e hpc
      rw [hpc] at hr
      have hr : q < d.queues := hr
      have hself : unpopped ({ t with pc := .body q e }.setVq q (virtqConsume (t.queue q).vq)) q + 1
          = unpopped t q := by
        unfold unpopped
        rw [setVq_self]
        show gap (t.queue q).vq.usedIndex (u16 ((t.queue q).vq.consumedUsedIndex + 1)) + 1 = _
        unfold gap u16
        omega
      have hother : ∀ q', q' ≠ q →
          unpopped ({ t with pc := .body q e }.setVq q (virtqConsume (t.queue q).vq)) q'
          = unpopped t q' := by
        intro q' hq'
        unfold unpopped
        rw [setVq_other hq']
      unfold deviceCost
      rw [hpc]
      show _ + (10 * (2 - q) + 4) < _ + (10 * (2 - q) + 1)
      have hcases : q = 0 ∨ q = 1 := by omega
      rcases hcases with rfl | rfl
      · rw [hother 1 (by decide)]
        omega
      · rw [hother 0 (by decide)]
        omega
  | @body q e hpc =>
      have hcost : handlerCost (.check q) < handlerCost t.pc := by
        rw [hpc]
        exact Nat.lt_succ_self _
      cases d with
      | blk => exact hmove (fun _ => rfl) hcost
      | net =>
          by_cases hq : q = netRxQueue
          · refine hmove (fun q' => ?_) ?_
            · unfold drainBody
              dsimp only
              rw [if_pos hq]
              unfold unpopped
              by_cases hq' : q' = q
              · rw [hq', setVq_self]
                rfl
              · rw [setVq_other hq']
            · unfold drainBody
              dsimp only
              rw [if_pos hq]
              exact hcost
          · refine hmove (fun q' => ?_) ?_
            · unfold drainBody
              dsimp only
              rw [if_neg hq]
              rfl
            · unfold drainBody
              dsimp only
              rw [if_neg hq]
              exact hcost

/-- Nor does a handler leave more of `InterruptStatus` than it was going to. -/
theorem afterHandler_step {d : VirtioDev} {t t' : DevState} (hs : HandlerStep d t t')
    (hne : t.pc ≠ .idle) : (afterHandler t').any = (afterHandler t).any := by
  have hst : ∀ {u : DevState} {pc : IrqPc}, u.pc = pc → pc ≠ .status → (∀ st, pc ≠ .ack st) →
      afterHandler u = u.status := by
    intro u pc hpc h1 h2
    unfold afterHandler
    rw [hpc]
    cases pc with
    | status => exact absurd rfl h1
    | ack st => exact absurd rfl (h2 st)
    | _ => rfl
  -- a step that neither reads the register nor writes it
  have hkeep : t'.status = t.status → t.pc ≠ .status → (∀ st, t.pc ≠ .ack st) →
      t'.pc ≠ .status → (∀ st, t'.pc ≠ .ack st) → (afterHandler t').any = (afterHandler t).any := by
    intro h1 h2 h3 h4 h5
    rw [hst rfl h2 h3, hst rfl h4 h5, h1]
  cases hs with
  | enter hpc => exact absurd hpc hne
  | nothing hpc hany =>
      unfold afterHandler
      rw [hpc]
      exact hany
  | status hpc _ =>
      unfold afterHandler
      rw [hpc]
      show (t.status.ack t.status).any = false
      unfold IrqStatus.ack IrqStatus.any
      cases t.status.usedBuffer <;> cases t.status.configChange <;> rfl
  | @ack st hpc =>
      have h1 : afterHandler t = t.status.ack st := by
        unfold afterHandler
        rw [hpc]
      rw [h1]
      unfold afterHandler
      dsimp only
      cases st.usedBuffer <;> rfl
  | more hpc _ => exact hkeep rfl (by rw [hpc]; simp) (by rw [hpc]; simp) (by simp) (by simp)
  | next hpc _ _ => exact hkeep rfl (by rw [hpc]; simp) (by rw [hpc]; simp) (by simp) (by simp)
  | leave hpc _ _ =>
      cases d with
      | blk => exact hkeep rfl (by rw [hpc]; simp) (by rw [hpc]; simp) (by simp [drainEnd]) (by simp [drainEnd])
      | net => exact hkeep rfl (by rw [hpc]; simp) (by rw [hpc]; simp) (by simp [drainEnd]) (by simp [drainEnd])
  | read hpc => exact hkeep rfl (by rw [hpc]; simp) (by rw [hpc]; simp) (by simp) (by simp)
  | consume hpc =>
      exact hkeep rfl (by rw [hpc]; simp) (by rw [hpc]; simp) (by simp [DevState.setVq])
        (by simp [DevState.setVq])
  | @body q e hpc =>
      cases d with
      | blk => exact hkeep rfl (by rw [hpc]; simp) (by rw [hpc]; simp) (by simp [drainBody]) (by simp [drainBody])
      | net =>
          by_cases hq : q = netRxQueue
          · exact hkeep (by simp [drainBody, hq, DevState.setVq]) (by rw [hpc]; simp) (by rw [hpc]; simp)
              (by simp [drainBody, hq, DevState.setVq]) (by simp [drainBody, hq, DevState.setVq])
          · exact hkeep (by simp [drainBody, hq]) (by rw [hpc]; simp) (by rw [hpc]; simp)
              (by simp [drainBody, hq]) (by simp [drainBody, hq])

/-- **A step of a call** lowers what is left of it. -/
theorem callStep_cost {u t : Drivers} {e : Bool} (hs : DriversStep u l t) (hbusy : u.call ≠ .idle)
    (hmove : t.call ≠ u.call) (hin : ∀ c, t.call = .window c → e = true)
    (hout : ∀ c, u.call = .window c → e = false) : callCost e t.call < callCost e u.call := by
  cases hs with
  | reject hcall _ _ => exact absurd hcall hbusy
  | start _ hcall _ _ => exact absurd hcall hbusy
  | @fill c hcall _ => rw [hcall]; cases c <;> exact Nat.lt_succ_self 19
  | descs hcall _ => rw [hcall]; exact Nat.lt_succ_self 18
  | reset hcall _ => rw [hcall]; exact Nat.lt_succ_self 17
  | ring hcall _ => rw [hcall]; exact Nat.lt_succ_self 16
  | index hcall _ => rw [hcall]; exact Nat.lt_succ_self 15
  | submit hcall _ => rw [hcall]; exact Nat.lt_succ_self 14
  | notify hcall _ => rw [hcall]; exact Nat.lt_of_sub_eq_succ (rfl : 14 - 2 = Nat.succ 11)
  | @wait c hcall _ _ =>
      rw [hcall, hin c rfl]
      exact Nat.lt_succ_self 1
  | @close c hcall _ =>
      have he := hout c hcall
      rw [hcall, he]
      exact Nat.lt_succ_self 2
  | restore hcall _ _ => rw [hcall]; exact Nat.lt_succ_self 1
  | ret hcall _ => rw [hcall]; exact Nat.succ_pos 0
  | handler _ _ _ => exact absurd rfl hmove
  | device _ _ => exact absurd rfl hmove
  | status => exact absurd rfl hmove

theorem CallFrame.deviceCost_eq {d : VirtioDev} {t t' : DevState} (h : CallFrame d t t') :
    deviceCost t' = deviceCost t := by
  unfold deviceCost unpopped
  rw [h.pc, h.used 0, h.used 1, h.consumed 0, h.consumed 1]

theorem due_congr {d : VirtioDev} (hp : s'.plic.pending (irqOf d) = s.plic.pending (irqOf d))
    (hl : (leftover s'.trap d (s'.dev d)).any = (leftover s.trap d (s.dev d)).any) :
    due s' d = due s d := by
  unfold due
  rw [hp, hl]

/-- A function of one device, summed over both, after one was replaced. -/
theorem sum_setDev {f : DevState → Nat} {u : Drivers} {d : VirtioDev} {t : DevState} {k : Nat}
    (h : f t + k ≤ f (u.dev d)) :
    f ((u.setDev d t).dev .blk) + f ((u.setDev d t).dev .net) + k
      ≤ f (u.dev .blk) + f (u.dev .net) := by
  cases d with
  | blk =>
      rw [setDev_self, setDev_other (by decide)]
      omega
  | net =>
      rw [setDev_self, setDev_other (by decide)]
      omega

/-- The call is charged at most two for what the controller does. -/
theorem callCost_le (e e' : Bool) (pc : CallPc) : callCost e pc ≤ callCost e' pc + 2 := by
  cases pc with
  | window c =>
      show (if e then 1 else 3) ≤ (if e' then 1 else 3) + 2
      cases e <;> cases e' <;> decide
  | _ => exact Nat.le_add_right _ 2

/-- A trap that is claimed is no longer due. -/
theorem due_claim (h : Claims s) (ht : s.trap = .claim) :
    due { s with plic := (plicClaim s.plic).2, trap := switchIrq (plicClaim s.plic).1 } .blk
      + due { s with plic := (plicClaim s.plic).2, trap := switchIrq (plicClaim s.plic).1 } .net + 1
      ≤ due s .blk + due s .net := by
  obtain ⟨d, hp, hclaim⟩ := h.programmed.claim (h.reason ht)
  rw [hclaim]
  dsimp only
  rw [switchIrq_irqOf]
  have hold : due s d = 1 := by
    unfold due
    rw [hp]
    exact if_pos (Or.inl rfl)
  -- the one that was claimed
  have hself : due { s with
      plic := { s.plic with
        pending := Function.update s.plic.pending (irqOf d) false
        claimed := Function.update s.plic.claimed (irqOf d) true }
      trap := .call d (irqOf d) } d = 0 := by
    refine if_neg ?_
    rintro (h0 | h0)
    · have h0 : Function.update s.plic.pending (irqOf d) false (irqOf d) = true := h0
      rw [Function.update_self] at h0
      cases h0
    · have h0 : (if d = d then (⟨false, false⟩ : IrqStatus) else (s.dev d).status).any = true := h0
      rw [if_pos rfl] at h0
      cases h0
  have hother : ∀ d', d' ≠ d → due { s with
      plic := { s.plic with
        pending := Function.update s.plic.pending (irqOf d) false
        claimed := Function.update s.plic.claimed (irqOf d) true }
      trap := .call d (irqOf d) } d' = due s d' := by
    intro d' hd'
    refine due_congr ?_ ?_
    · exact Function.update_of_ne (fun he => hd' (irqOf_inj he)) ..
    · unfold leftover
      rw [ht]
      dsimp only
      rw [if_neg (Ne.symm hd')]
  cases d with
  | blk =>
      rw [hself, hother .net (by decide), hold]
      omega
  | net =>
      rw [hself, hother .blk (by decide), hold]

/-- A step that makes no trap due. -/
theorem cost_lt_of_due (hdue : ∀ d, due s' d = due s d)
    (h : (deviceCost (s'.dev .blk) + deviceCost (s'.dev .net)) + trapCost s'.trap
        + notPending s'.plic + callCost s'.plic.eip s'.call
      < (deviceCost (s.dev .blk) + deviceCost (s.dev .net)) + trapCost s.trap
        + notPending s.plic + callCost s.plic.eip s.call) : cost s' < cost s := by
  unfold cost
  rw [hdue, hdue]
  omega

/-- Outside of the handler of a device its register is left as it is. -/
theorem Claims.leftover_of_open (h : Claims s) {d : VirtioDev}
    (hopen : s.plic.claimed (irqOf d) = false) :
    leftover s.trap d (s.dev d) = (s.dev d).status := by
  have hfits := h.fits
  have hno : trapIrq s.trap ≠ some (irqOf d) := by
    intro he
    rw [(h.claimed _).mpr he] at hopen
    cases hopen
  unfold leftover
  cases ht : s.trap with
  | call d' irq =>
      rw [ht] at hno hfits
      refine if_neg fun he => hno ?_
      rw [← he]
      exact congrArg some hfits
  | run d' irq =>
      rw [ht] at hno hfits
      refine if_neg fun he => hno ?_
      rw [← he]
      exact congrArg some hfits
  | _ => rfl

/-- A source becomes pending whose line was high. -/
theorem due_forward (h : Claims s) {i : Nat} (hline : s.line i = true)
    (hopen : s.plic.claimed i = false) (d : VirtioDev) :
    due { s with plic := s.plic.forward i } d = due s d := by
  by_cases hd : irqOf d = i
  · -- no handler is going to lower the line
    subst hd
    rw [line_irqOf] at hline
    unfold due
    dsimp only
    rw [h.leftover_of_open hopen, if_pos (Or.inr hline), if_pos (Or.inr hline)]
  · exact due_congr (Function.update_of_ne hd ..) rfl

/-- A handler is called, and is going to clear what it finds. -/
theorem due_enter {d : VirtioDev} {irq : Nat} (ht : s.trap = .call d irq) (d' : VirtioDev) :
    due { s with toDrivers := s.setDev d { s.dev d with pc := .status }, trap := .run d irq } d'
      = due s d' := by
  refine due_congr rfl ?_
  unfold leftover
  rw [ht]
  dsimp only
  by_cases hd : d = d'
  · subst hd
    rw [if_pos rfl, if_pos rfl, setDev_self]
    rfl
  · rw [if_neg hd, if_neg hd, setDev_other (Ne.symm hd)]

/-- A handler goes on, or returns. -/
theorem due_handler {d : VirtioDev} {irq : Nat} {t : DevState} (ht : s.trap = .run d irq)
    (hpc : (s.dev d).pc ≠ .idle) (hstep : HandlerStep d (s.dev d) t) (d' : VirtioDev) :
    due { s with
      toDrivers := s.setDev d t
      trap := if t.pc = .idle then .complete irq else .run d irq } d' = due s d' := by
  have hafter := afterHandler_step hstep hpc
  refine due_congr rfl ?_
  unfold leftover
  rw [ht]
  dsimp only
  by_cases hd : d = d'
  · subst hd
    rw [if_pos rfl, setDev_self]
    by_cases hidle : t.pc = .idle
    · rw [if_pos hidle]
      dsimp only
      rw [← hafter]
      unfold afterHandler
      rw [hidle]
    · rw [if_neg hidle]
      dsimp only
      rw [if_pos rfl]
      exact hafter
  · rw [if_neg hd, setDev_other (Ne.symm hd)]
    by_cases hidle : t.pc = .idle
    · rw [if_pos hidle]
    · rw [if_neg hidle]
      dsimp only
      rw [if_neg hd]

/-- Nothing that is forwarded costs the call anything. -/
theorem callCost_forward {p : Plic plicSources} (h : Programmed p) (i : Nat) (pc : CallPc) :
    callCost (p.forward i).eip pc ≤ callCost p.eip pc := by
  cases pc with
  | window c =>
      cases he : p.eip with
      | false =>
          show (if (p.forward i).eip then 1 else 3) ≤ 3
          split <;> decide
      | true => rw [h.eip_forward he i]
  | _ => exact Nat.le_refl _

theorem trapCost_le (pc : TrapPc) : trapCost pc ≤ 40 := by
  cases pc <;> simp [trapCost]

/-- **Whatever the hart and the controller do, less is left.** -/
theorem cpuStep_cost (h : CoreInv s) (hs : CpuStep s l s') : cost s' < cost s := by
  have hprog := h.claims.programmed
  cases hs with
  | @call _ t ht hbusy hstep hmove hin hout =>
      have hf := callStep_frame hstep hmove
      have hcall := callStep_cost hstep hbusy hmove hin hout
      refine cost_lt_of_due (fun d => due_congr rfl ?_) ?_
      · unfold leftover
        rw [ht]
        dsimp only
        rw [(hf d).status]
      · dsimp only
        rw [(hf .blk).deviceCost_eq, (hf .net).deviceCost_eq]
        omega
  | take ht _ _ =>
      refine cost_lt_of_due (fun d => due_congr rfl ?_) ?_
      · unfold leftover
        rw [ht]
      · have hold : trapCost s.trap = 2 := by rw [ht]; rfl
        have hnew : trapCost .claim = 1 := rfl
        rw [hold]
        dsimp only
        rw [hnew]
        omega
  | claim ht =>
      -- one trap fewer is due, which pays for everything else
      have hdue := due_claim h.claims ht
      have hpend := notPending_le (plicClaim s.plic).2
      have hcall := callCost_le (plicClaim s.plic).2.eip s.plic.eip s.call
      have htrap := trapCost_le (switchIrq (plicClaim s.plic).1)
      have hsources : plicSources = 53 := rfl
      unfold cost
      dsimp only
      omega
  | @enter d irq ht =>
      have hidle : (s.dev d).pc = .idle := h.claims.noHandler (by rw [ht]; rfl) d
      have hdev := deviceCost_status hidle
      have hold : trapCost s.trap = 40 := by rw [ht]; rfl
      have hnew : trapCost (.run d irq) = 10 := rfl
      refine cost_lt_of_due (due_enter ht) ?_
      rw [hold]
      dsimp only
      rw [hnew, setDev_call]
      cases d with
      | blk =>
          rw [setDev_self, setDev_other (by decide), hdev]
          omega
      | net =>
          rw [setDev_self, setDev_other (by decide), hdev]
          omega
  | @handler d irq t ht hpc hstep =>
      have hdev := handlerStep_cost hstep hpc (h.drivers.range d) fun q e he => h.consumes he
      have hsum := sum_setDev (f := deviceCost) (u := s.toDrivers) (d := d) (t := t) (k := 1) hdev
      have hold : trapCost s.trap = 10 := by rw [ht]; rfl
      have hnew : trapCost (if t.pc = .idle then .complete irq else .run d irq) ≤ 10 := by
        split <;> simp [trapCost]
      refine cost_lt_of_due (due_handler ht hpc hstep) ?_
      rw [hold]
      dsimp only
      rw [setDev_call]
      omega
  | @complete irq ht =>
      have hfits := h.claims.fits
      rw [ht] at hfits
      obtain ⟨d, rfl⟩ := hfits
      have hold : trapCost s.trap = 5 := by rw [ht]; rfl
      have hnew : trapCost .idle = 2 := rfl
      have hpend : notPending (plicComplete s.plic (irqOf d)) = notPending s.plic := by
        rw [hprog.complete]
        rfl
      refine cost_lt_of_due (fun d' => due_congr ?_ ?_) ?_
      · dsimp only
        rw [hprog.complete]
      · unfold leftover
        rw [ht]
      · rw [hold]
        dsimp only
        rw [hnew, hpend, hprog.eip_complete]
        omega
  | @forward i _ hle hline hpend hopen =>
      have hlt := notPending_forward hle hpend
      have hcall := callCost_forward hprog i s.call
      refine cost_lt_of_due (due_forward h.claims hline hopen) ?_
      dsimp only
      omega

/-! ## There is something to do -/

/-- A handler that is running goes on. -/
theorem handlerStep_exists (d : VirtioDev) {t : DevState} (hne : t.pc ≠ .idle) :
    ∃ t', HandlerStep d t t' := by
  cases hpc : t.pc with
  | idle => exact absurd hpc hne
  | status =>
      cases hany : t.status.any with
      | false => exact ⟨_, .nothing hpc hany⟩
      | true => exact ⟨_, .status hpc hany⟩
  | ack st => exact ⟨_, .ack hpc⟩
  | check q =>
      cases hused : virtqHasUsed (t.queue q).vq with
      | true => exact ⟨_, .more hpc hused⟩
      | false =>
          by_cases hlast : q + 1 < d.queues
          · exact ⟨_, .next hpc hused hlast⟩
          · exact ⟨_, .leave hpc hused hlast⟩
  | read q => exact ⟨_, .read hpc⟩
  | consume q e => exact ⟨_, .consume hpc⟩
  | body q e => exact ⟨_, .body hpc⟩

/-- A step of a call away from its window. -/
theorem cpuStep_plain {s : Core} {l : CallLabel} {t : Drivers} (ht : s.trap = .idle)
    (hbusy : s.call ≠ .idle) (hs : DriversStep s.toDrivers l t) (hmove : t.call ≠ s.call)
    (hin : ∀ c, t.call ≠ .window c) (hout : ∀ c, s.call ≠ .window c) :
    CpuStep s l { s with toDrivers := t } :=
  .call ht hbusy hs hmove (fun c hc => absurd hc (hin c)) fun c hc => absurd hc (hout c)

/-- A request that the device has published and raised an interrupt for, and whose flag is clear,
has the line of the device high. -/
theorem CoreInv.line_high (h : CoreInv s) {c : Call} (hc : AfterPush c s.call)
    (hno : NoHandler s.toDrivers) (hdone : (s.dev c.dev).done = false)
    (hused : (s.requests c.dev).vq.usedIndex = (s.requests c.dev).vq.availIndex)
    (howed : (s.dev c.dev).owed = 0) : s.line (irqOf c.dev) = true := by
  obtain ⟨n, hf⟩ := h.drivers.afterPush hc
  have hidle := hno c.dev
  have hne : ∀ {m}, m < 2 ^ 16 → m ≠ u16 (m + 1) := by
    intro m hm
    unfold u16
    omega
  cases hf with
  | offered hq _ _ _ =>
      exact absurd (hq.used.symm.trans (hused.trans hq.avail)) (hne hq.lt)
  | inDevice hq _ _ _ =>
      exact absurd (hq.used.symm.trans (hused.trans hq.avail)) (hne hq.lt)
  | published hq _ _ _ =>
      have hpop : virtqHasUsed ((s.dev c.dev).queue (reqQueue c.dev)).vq = true := by
        unfold virtqHasUsed
        rw [hq.used, hq.consumed]
        exact decide_eq_true (hne hq.lt)
      have hrange : reqQueue c.dev < c.dev.queues := by
        cases c.dev <;> decide
      rw [line_irqOf]
      unfold IrqStatus.any
      rcases h.announced c.dev _ hrange (by rw [hidle]; trivial) hpop with hbit | ho
      · rw [hbit, Bool.true_or]
      · omega
  | popped _ _ _ hpc => rw [hidle] at hpc; cases hpc
  | noted _ _ _ hpc => rw [hidle] at hpc; cases hpc
  | done _ hd _ _ => rw [hdone] at hd; cases hd

/-- **Something can be done**, unless the call waits for the device. -/
theorem progress (h : CoreInv s) (hbusy : s.call ≠ .idle) :
    (∃ l s', CpuStep s l s') ∨ ∃ c, s.call = .loop c
      ∧ ((s.requests c.dev).vq.usedIndex ≠ (s.requests c.dev).vq.availIndex
        ∨ 0 < (s.dev c.dev).owed) := by
  cases ht : s.trap with
  | claim => exact Or.inl ⟨_, _, .claim ht⟩
  | call d irq => exact Or.inl ⟨_, _, .enter ht⟩
  | complete irq => exact Or.inl ⟨_, _, .complete ht⟩
  | run d irq =>
      have hpc : (s.dev d).pc ≠ .idle := (h.claims.running d).mpr (by rw [ht]; rfl)
      obtain ⟨t, hstep⟩ := handlerStep_exists d hpc
      exact Or.inl ⟨_, _, .handler ht hpc hstep⟩
  | idle =>
      have hno : NoHandler s.toDrivers := h.claims.noHandler (by rw [ht]; rfl)
      -- a step of the call that has nothing to do with interrupts
      have hplain : ∀ {l : CallLabel} {t : Drivers}, DriversStep s.toDrivers l t →
          t.call ≠ s.call → (∀ c, t.call ≠ .window c) → (∀ c, s.call ≠ .window c) →
          ∃ l s', CpuStep s l s' := fun hstep hmove hin hout =>
        ⟨_, _, cpuStep_plain ht hbusy hstep hmove hin hout⟩
      cases hcall : s.call with
      | idle => exact absurd hcall hbusy
      | fill c =>
          refine Or.inl (hplain (.fill hcall hno) ?_ ?_ ?_)
          · rw [hcall]
            cases c <;> simp [fillRequest]
          · intro c'
            cases c <;> simp [fillRequest]
          · simp [hcall]
      | descs c =>
          exact Or.inl (hplain (.descs hcall hno) (by simp [hcall, Drivers.setCallVq, Drivers.setDev])
            (by simp [Drivers.setCallVq, Drivers.setDev]) (by simp [hcall]))
      | reset c =>
          exact Or.inl (hplain (.reset hcall hno) (by simp [hcall, Drivers.setDev])
            (by simp [Drivers.setDev]) (by simp [hcall]))
      | ring c =>
          exact Or.inl (hplain (.ring hcall hno) (by simp [hcall, Drivers.setCallVq, Drivers.setDev])
            (by simp [Drivers.setCallVq, Drivers.setDev]) (by simp [hcall]))
      | index c =>
          exact Or.inl (hplain (.index hcall hno) (by simp [hcall, Drivers.setCallVq, Drivers.setDev])
            (by simp [Drivers.setCallVq, Drivers.setDev]) (by simp [hcall]))
      | submit c =>
          exact Or.inl (hplain (.submit hcall hno) (by simp [hcall, Drivers.setCallVq, Drivers.setDev])
            (by simp [Drivers.setCallVq, Drivers.setDev]) (by simp [hcall]))
      | notify c => exact Or.inl (hplain (.notify hcall hno) (by simp [hcall]) (by simp) (by simp [hcall]))
      | finish c => exact Or.inl (hplain (.ret hcall hno) (by simp [hcall]) (by simp) (by simp [hcall]))
      | window c =>
          cases he : s.plic.eip with
          | true => exact Or.inl ⟨_, _, .take ht (by rw [hcall]; trivial) he⟩
          | false =>
              exact Or.inl ⟨_, _, .call ht hbusy (.close hcall hno) (by simp [hcall])
                (fun c' hc' => by cases hc') fun _ _ => he⟩
      | loop c =>
          cases hdone : (s.dev c.dev).done with
          | true =>
              exact Or.inl (hplain (.restore hcall hno hdone) (by simp [hcall]) (by simp) (by simp [hcall]))
          | false =>
              cases he : s.plic.eip with
              | true =>
                  exact Or.inl ⟨_, _, .call ht hbusy (.wait hcall hno hdone) (by simp [hcall])
                    (fun _ _ => he) fun c' hc' => by rw [hcall] at hc'; cases hc'⟩
              | false =>
                  by_cases hdev : (s.requests c.dev).vq.usedIndex
                      = (s.requests c.dev).vq.availIndex ∧ (s.dev c.dev).owed = 0
                  · -- the source is not pending yet, and its gateway is open
                    have hline := h.line_high (Or.inr (Or.inr (Or.inl hcall))) hno hdone hdev.1 hdev.2
                    have hpend : s.plic.pending (irqOf c.dev) = false := by
                      rw [← Bool.not_eq_true]
                      intro hp
                      rw [h.claims.programmed.eip_iff.mpr ⟨c.dev, hp⟩] at he
                      cases he
                    have hopen : s.plic.claimed (irqOf c.dev) = false := by
                      rw [← Bool.not_eq_true, h.claims.claimed, ht]
                      exact fun h0 => by cases h0
                    exact Or.inl ⟨_, _, .forward (irqOf_range _).1 (irqOf_range _).2 hline hpend hopen⟩
                  · refine Or.inr ⟨c, rfl, ?_⟩
                    by_contra hcon
                    rw [not_or, not_not] at hcon
                    exact hdev ⟨hcon.1, by omega⟩

/-! ## The call returns -/

/-- The call that has pushed its request and not returned yet. -/
def pendingCall : CallPc → Option Call
  | .submit c => some c
  | .notify c => some c
  | .loop c => some c
  | .window c => some c
  | .finish c => some c
  | _ => none

theorem AfterPush.pending {c : Call} {pc : CallPc} (h : AfterPush c pc) : pendingCall pc = some c := by
  rcases h with rfl | rfl | rfl | rfl <;> rfl

/-- A call that has pushed its request, which the device has published and raised its interrupt for. -/
structure Served (c : Call) (s : Core) : Prop where
  pushed : pendingCall s.call = some c
  used : (s.requests c.dev).vq.usedIndex = (s.requests c.dev).vq.availIndex
  owed : (s.dev c.dev).owed = 0

/-- What a handler leaves alone of the queue of requests. -/
theorem handlerStep_used {d : VirtioDev} {t t' : DevState} (hs : HandlerStep d t t') :
    (t'.queue (reqQueue d)).vq.usedIndex = (t.queue (reqQueue d)).vq.usedIndex
      ∧ t'.owed = t.owed := by
  cases hs with
  | @consume q e _ =>
      refine ⟨?_, rfl⟩
      by_cases hq : reqQueue d = q
      · rw [← hq, setVq_self]
        rfl
      · rw [setVq_other hq]
  | @body q e _ =>
      cases d with
      | blk => exact ⟨rfl, rfl⟩
      | net =>
          unfold drainBody
          dsimp only
          split
          · next hq =>
              refine ⟨?_, rfl⟩
              rw [setVq_other (show reqQueue .net ≠ q by rw [hq]; decide)]
          · exact ⟨rfl, rfl⟩
  | leave _ _ _ => cases d <;> exact ⟨rfl, rfl⟩
  | _ => exact ⟨rfl, rfl⟩

/-- A handler does not take a request back. -/
theorem Served.handler {c : Call} {d : VirtioDev} {t : DevState} {trap : TrapPc}
    (h : Served c s) (hs : HandlerStep d (s.dev d) t) :
    Served c { s with toDrivers := s.setDev d t, trap } := by
  refine ⟨h.pushed, ?_, ?_⟩
  · unfold Drivers.requests
    dsimp only
    by_cases hd : c.dev = d
    · subst hd
      rw [setDev_self, (handlerStep_used hs).1, (handlerStep_keeps hs).2.2]
      exact h.used
    · rw [setDev_other hd]
      exact h.used
  · dsimp only
    by_cases hd : c.dev = d
    · subst hd
      rw [setDev_self, (handlerStep_used hs).2]
      exact h.owed
    · rw [setDev_other hd]
      exact h.owed

/-- The call goes on to wait, or returns. -/
theorem callStep_pending {c : Call} {u t : Drivers} (hs : DriversStep u l t)
    (hmove : t.call ≠ u.call) (h : pendingCall u.call = some c) (hl : l ≠ .ret c) :
    pendingCall t.call = some c
      ∧ (t.requests c.dev).vq.availIndex = (u.requests c.dev).vq.availIndex := by
  cases hs with
  | start _ hc | fill hc | descs hc | reset hc | ring hc | index hc => rw [hc] at h; cases h
  | submit hc =>
      rw [hc] at h
      cases h
      refine ⟨rfl, ?_⟩
      unfold Drivers.requests Drivers.setCallVq
      rw [setDev_self, setVq_self]
      rfl
  | notify hc | wait hc | close hc | restore hc => rw [hc] at h; exact ⟨h, rfl⟩
  | ret hc =>
      rw [hc] at h
      cases h
      exact absurd rfl hl
  | reject _ _ _ => exact absurd rfl hmove
  | handler _ _ _ => exact absurd rfl hmove
  | device _ _ => exact absurd rfl hmove
  | status => exact absurd rfl hmove

theorem Served.call {c : Call} {t : Drivers} (h : Served c s) (hs : DriversStep s.toDrivers l t)
    (hmove : t.call ≠ s.call) (hl : l ≠ .ret c) : Served c { s with toDrivers := t } := by
  have hf := callStep_frame hs hmove c.dev
  obtain ⟨hpushed, havail⟩ := callStep_pending hs hmove h.pushed hl
  refine ⟨hpushed, ?_, hf.owed.trans h.owed⟩
  show (t.requests c.dev).vq.usedIndex = (t.requests c.dev).vq.availIndex
  rw [havail, ← h.used]
  exact hf.used _

/-- Until it returns, a call stays served. -/
theorem Served.step {c : Call} (hinv : CoreInv s) (h : Served c s) (hs : CpuStep s l s')
    (hl : l ≠ .ret c) : Served c s' := by
  cases hs with
  | call _ _ hstep hmove _ _ => exact h.call hstep hmove hl
  | take _ _ _ => exact ⟨h.pushed, h.used, h.owed⟩
  | claim _ => exact ⟨h.pushed, h.used, h.owed⟩
  | enter ht => exact h.handler (hinv.claims.enter_step ht)
  | handler _ _ hstep => exact h.handler hstep
  | complete _ => exact ⟨h.pushed, h.used, h.owed⟩
  | forward _ _ _ _ _ => exact ⟨h.pushed, h.used, h.owed⟩

theorem Served.busy {c : Call} (h : Served c s) : s.call ≠ .idle := by
  intro hcall
  have hp := h.pushed
  rw [hcall] at hp
  cases hp

/-- **No wake-up is lost.** In every run, when a call has pushed its request, and the device has
published it and raised its interrupt: however the hart and the controller go on by themselves,
they go on until the call has returned, and that is after finitely many steps. -/
theorem wait_for_interrupt_returns {tr : List CallLabel} {c : Call}
    (hr : Run CoreStart CoreStep tr s) (hc : AfterPush c s.call)
    (hused : (s.requests c.dev).vq.usedIndex = (s.requests c.dev).vq.availIndex)
    (howed : (s.dev c.dev).owed = 0) :
    (∃ n, ∀ es s', Path CpuStep s es s' → es.length ≤ n)
    ∧ ∀ es s', Path CpuStep s es s' → (∀ x, x ∈ es → x.1 ≠ .ret c) → ∃ l s'', CpuStep s' l s'' := by
  have hinv := coreInv_run hr
  have hserved : Served c s := ⟨hc.pending, hused, howed⟩
  refine ⟨⟨cost s, fun es s' hp => ?_⟩, fun es s' hp hes => ?_⟩
  · have h := hp.length_le (P := CoreInv) (m := cost)
      (fun _ _ _ h hs => ⟨coreInv_step h (.cpu hs), cpuStep_cost h hs⟩) hinv
    omega
  · obtain ⟨⟨hinv', hs'⟩, _⟩ := hp.invariant_labels (P := fun t => CoreInv t ∧ Served c t)
      (C := fun l => l ≠ .ret c) (Q := fun _ => True)
      (fun _ _ _ h hl hs => ⟨⟨coreInv_step h.1 (.cpu hs), h.2.step h.1 hs hl⟩, trivial⟩)
      ⟨hinv, hserved⟩ hes
    rcases progress hinv' hs'.busy with h | ⟨c', hcall, hwait⟩
    · exact h
    · -- the call that waits is this one, and its device has nothing left to do
      have hcc := hs'.pushed
      rw [hcall] at hcc
      cases hcc
      rcases hwait with h | h
      · exact absurd hs'.used h
      · have := hs'.owed
        omega

end

/-- In a call that was made with interrupts on, the disk has written the sector and raised its
interrupt before the call has counted it. -/
theorem wait_for_interrupt_returns_disk : ∃ tr s, Run CoreStart CoreStep tr s
    ∧ s.sie = true ∧ s.call = .submit sampleCall
    ∧ ∀ es s', Path CpuStep s es s' → (∀ x, x ∈ es → x.1 ≠ .ret sampleCall) →
      ∃ l s'', CpuStep s' l s'' := by
  have h0 : Run CoreStart CoreStep [] sampleCore := .start sampleCore_start
  have h1 := h0.snoc (.outside (.start (c := sampleCall) true rfl rfl Nat.one_pos))
  have h2 := h1.snoc (.cpu (cpuStep_plain rfl (fun h => by cases h)
    (.fill (c := sampleCall) rfl fun d => by cases d <;> rfl) (fun h => by cases h)
    (fun _ h => by cases h) fun _ h => by cases h))
  have h3 := h2.snoc (.cpu (cpuStep_plain rfl (fun h => by cases h)
    (.descs (c := sampleCall) rfl fun d => by cases d <;> rfl) (fun h => by cases h)
    (fun _ h => by cases h) fun _ h => by cases h))
  have h4 := h3.snoc (.cpu (cpuStep_plain rfl (fun h => by cases h)
    (.reset (c := sampleCall) rfl fun d => by cases d <;> rfl) (fun h => by cases h)
    (fun _ h => by cases h) fun _ h => by cases h))
  have h5 := h4.snoc (.cpu (cpuStep_plain rfl (fun h => by cases h)
    (.ring (c := sampleCall) rfl fun d => by cases d <;> rfl) (fun h => by cases h)
    (fun _ h => by cases h) fun _ h => by cases h))
  have h6 := h5.snoc (.cpu (cpuStep_plain rfl (fun h => by cases h)
    (.index (c := sampleCall) rfl fun d => by cases d <;> rfl) (fun h => by cases h)
    (fun _ h => by cases h) fun _ h => by cases h))
  have h7 := h6.snoc (.outside (.device (d := .blk) (q := 0) (by decide) (.take (by decide))))
  have h8 := h7.snoc (.outside (.device (d := .blk) (q := 0) (by decide)
    (.fill (d := 0) rfl (by decide) (by decide : 1 < 2 ^ 32))))
  have h9 := h8.snoc (.outside (.device (d := .blk) (q := 0) (by decide) (.publish rfl)))
  have h10 := h9.snoc (.outside (.raise (d := .blk) Nat.one_pos))
  exact ⟨_, _, h10, rfl, rfl, (wait_for_interrupt_returns h10 (Or.inl rfl) rfl rfl).2⟩

end Os1000.Proof
