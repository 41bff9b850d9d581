import Os1000.Proof.Disk
import Mathlib.Logic.Relation

/-!
# Calls to the disk return

A call waits for the device and for the handler, so it can only be said of it that it can
return, and this from wherever it is: the device takes the request, executes it and gives
it back, the handler runs and sets the flag. With it, what a run of calls does to the disk is
what it does to an array of sectors.
-/

namespace Os1000.Proof

open Os1000 Lib

/-- Steps in which no call to the disk returns. -/
def Quietly : DiskState → DiskState → Prop := Relation.ReflTransGen fun s s' => DiskStep s .quiet s'

section

variable {sectors n : Nat} {disk a : Nat → Sector} {s s' : DiskState} {drv : Drivers}
  {buf : Bytes} {sector : Nat} {isWrite : Bool}

theorem DiskOk.quietly (h : DiskOk sectors a s) (hs : Quietly s s') : DiskOk sectors a s' := by
  induction hs with
  | refl => exact h
  | tail _ hstep ih => exact ih.quiet hstep

/-! ## The handler -/

theorem handlerStep_dev {t t' : DevState} (hs : HandlerStep .blk t t') :
    (t'.queue 0).dev = (t.queue 0).dev := by
  cases hs with
  | @consume q e _ =>
      by_cases hq : 0 = q
      · rw [← hq, setVq_queue]
      · rw [setVq_other hq]
  | _ => rfl

theorem setDev_dev {t : DevState} : ((drv.setDev .blk t).requests .blk).dev = (t.queue 0).dev := by
  unfold Drivers.requests
  rw [setDev_self]
  rfl

/-- Where interrupts are on, the handler of the block device may run. -/
theorem quietly_handler {t : DevState} (hon : InterruptsOn s.drv.sie s.drv.call)
    (hnofill : ∀ c, s.drv.call ≠ .fill c) (hnet : (s.drv.dev .net).pc = .idle)
    (hs : Relation.ReflTransGen (HandlerStep .blk) (s.drv.dev .blk) t) :
    Quietly s { s with drv := s.drv.setDev .blk t } := by
  induction hs with
  | refl =>
      have hself : s.drv.setDev .blk (s.drv.dev .blk) = s.drv := by
        unfold Drivers.setDev
        rw [Function.update_eq_self]
      rw [hself]
      exact .refl
  | @tail t t' _ hstep ih =>
      refine ih.tail ?_
      have hagain : (s.drv.setDev .blk t).setDev .blk t' = s.drv.setDev .blk t' := by
        unfold Drivers.setDev
        rw [Function.update_idem]
      have hstep' : DriversStep (s.drv.setDev .blk t) .quiet (s.drv.setDev .blk t') := by
        rw [← hagain]
        refine .handler hon (fun d hd => ?_) (by rw [setDev_self]; exact hstep)
        cases d with
        | blk => exact absurd rfl hd
        | net =>
            rw [setDev_other (by decide)]
            exact hnet
      refine .drivers hstep' trivial ?_ fun buf sector isWrite hcall => ?_
      · rw [setDev_dev, setDev_dev]
        exact handlerStep_dev hstep
      · exact absurd hcall (hnofill _)

/-- **A handler that is called after an element was published** pops it and sets the flag. -/
theorem Published.drained {t : DevState} (h : Published n (t.queue 0)) (hpc : t.pc = .idle)
    (hstatus : t.status.usedBuffer = true) :
    ∃ t', Relation.ReflTransGen (HandlerStep .blk) t t' ∧ t'.done = true ∧ t'.pc = .idle := by
  have hused : virtqHasUsed (t.queue 0).vq = true := by
    unfold virtqHasUsed
    rw [h.used, h.consumed]
    refine decide_eq_true ?_
    have := h.lt
    unfold u16
    omega
  have hany : t.status.any = true := by
    unfold IrqStatus.any
    rw [hstatus]
    rfl
  have h0 : HandlerStep .blk t { t with pc := .status } := .enter hpc
  have h1 := (Relation.ReflTransGen.single h0).tail (.status rfl hany)
  have h2 := h1.tail (.ack rfl)
  dsimp only at h2
  rw [if_pos hstatus] at h2
  have h3 := ((h2.tail (.more rfl hused)).tail (.read rfl)).tail (.consume rfl)
  have h4 := h3.tail (.body rfl)
  have h5 := h4.tail (.leave rfl ?_ (by decide))
  · exact ⟨_, h5, Bool.or_true _, rfl⟩
  · show virtqHasUsed (DevState.queue (DevState.setVq _ 0 _) 0).vq = false
    rw [setVq_self]
    show decide (u16 ((t.queue 0).vq.consumedUsedIndex + 1) ≠ (t.queue 0).vq.usedIndex) = false
    rw [h.consumed, h.used]
    exact decide_eq_false (not_not_intro rfl)

/-! ## The device -/

theorem NoHandler.setDev {d : VirtioDev} {t : DevState} (h : NoHandler drv) (ht : t.pc = .idle) :
    NoHandler (drv.setDev d t) := by
  intro d'
  by_cases hd : d' = d
  · rw [hd, setDev_self]
    exact ht
  · rw [setDev_other hd]
    exact h d'

theorem noHandler_setRequests {q : Queue} (h : NoHandler drv) :
    NoHandler (drv.setRequests .blk q) := NoHandler.setDev h (h .blk)

/-- The block device moves, and nobody else. -/
structure DeviceMoved (s s' : DiskState) : Prop where
  steps : Quietly s s'
  call : s'.drv.call = s.drv.call
  sie : s'.drv.sie = s.drv.sie
  idle : NoHandler s.drv → NoHandler s'.drv

theorem DeviceMoved.trans {s'' : DiskState} (h : DeviceMoved s s') (h' : DeviceMoved s' s'') :
    DeviceMoved s s'' :=
  ⟨h.steps.trans h'.steps, h'.call.trans h.call, h'.sie.trans h.sie, fun hi => h'.idle (h.idle hi)⟩

/-- A request that is offered can be taken. -/
theorem Offered.taken (h : Offered n (s.drv.requests .blk)) :
    ∃ s', DeviceMoved s s' ∧ InDevice n (s'.drv.requests .blk) := by
  have hne : (s.drv.requests .blk).dev.lastAvail ≠ (s.drv.requests .blk).vq.availIndex := by
    rw [h.last, h.avail]
    have := h.lt
    unfold u16
    omega
  refine ⟨_, ⟨.single (.take (.take hne)), rfl, rfl, noHandler_setRequests⟩, ?_⟩
  dsimp only
  rw [setRequests_blk]
  exact h.device (.take hne)

/-- A request that was taken can be executed. -/
theorem InDevice.executed (h : InDevice n (s.drv.requests .blk)) (hok : DiskOk sectors a s)
    (hstage : diskStage s.drv.call = .underway buf sector isWrite) :
    ∃ s', DeviceMoved s s' ∧ InDevice n (s'.drv.requests .blk) ∧ s'.todo = [] := by
  have hst := hok.stage
  rw [hstage] at hst
  obtain ⟨hlt, hdesc, hu⟩ := hst
  cases hu with
  | offered hne _ _ _ => exact absurd (h.last.trans h.avail.symm) hne
  | executed _ htodo _ => exact ⟨s, ⟨.refl, rfl, rfl, id⟩, h, htodo⟩
  | taken _ htodo _ _ hdisk hreq =>
      have htodo : s.todo = [0] := htodo
      obtain ⟨mem, disk', hex, _⟩ := executeBlk_ok (a := s.disk) hdesc hreq hlt
      refine ⟨_, ⟨.single (.execute (d := 0) ?_ hex), rfl, rfl, id⟩, h, ?_⟩
      · rw [htodo]
        exact List.mem_singleton_self 0
      · show s.todo.erase 0 = []
        rw [htodo]
        rfl

/-- A request that was executed can be given back. -/
theorem InDevice.givenBack (h : InDevice n (s.drv.requests .blk)) (htodo : s.todo = []) :
    ∃ s', DeviceMoved s s' ∧ Published n (s'.drv.requests .blk) := by
  -- the element is published if it was written
  have hpublish : ∀ (u : DiskState) e, u.todo = [] → InDevice n (u.drv.requests .blk) →
      (u.drv.requests .blk).dev.filled = some e →
      ∃ s', DeviceMoved u s' ∧ Published n (s'.drv.requests .blk) := by
    intro u e _ hi he
    refine ⟨_, ⟨.single (.giveBack (.publish he) (fun _ hd => by cases hd) fun _ hf => by cases hf),
      rfl, rfl, noHandler_setRequests⟩, ?_⟩
    dsimp only
    rw [setRequests_blk]
    exact hi.publish he
  cases he : (s.drv.requests .blk).dev.filled with
  | some e => exact hpublish s e htodo h he
  | none =>
      have hheld : 0 ∈ (s.drv.requests .blk).dev.held := by
        rw [h.held]
        exact List.mem_singleton_self 0
      have hfill := @DeviceStep.fill (s.drv.requests .blk) 0 0 he hheld (by decide)
      obtain ⟨q, hq⟩ : ∃ q, q = Queue.mk (virtqFill (s.drv.requests .blk).vq ⟨0, 0⟩)
          { (s.drv.requests .blk).dev with filled := some ⟨0, 0⟩ } := ⟨_, rfl⟩
      rw [← hq] at hfill
      have hstep : DiskStep s .quiet { s with drv := s.drv.setRequests .blk q } :=
        .giveBack hfill (fun _ hd => by cases hd) fun _ _ => by rw [htodo]; exact List.not_mem_nil
      have hin : InDevice n ((s.drv.setRequests .blk q).requests .blk) := by
        rw [setRequests_blk, hq]
        exact ⟨h.lt, h.avail, h.last, h.used, h.consumed, h.held, fun e he => by cases he; rfl⟩
      obtain ⟨s', hs', hpub⟩ := hpublish { s with drv := s.drv.setRequests .blk q } ⟨0, 0⟩ htodo hin
        (by dsimp only; rw [setRequests_blk, hq])
      exact ⟨s', DeviceMoved.trans ⟨.single hstep, rfl, rfl, noHandler_setRequests⟩ hs', hpub⟩

/-! ## The call -/

/-- A request that was given back is noticed. -/
theorem Published.noticed {c : Call} (h : Published n (s.drv.requests .blk))
    (hcall : s.drv.call = .window c) (hidle : NoHandler s.drv) :
    ∃ s', Quietly s s' ∧ s'.drv.call = .loop c ∧ s'.drv.sie = s.drv.sie
      ∧ (s'.drv.dev .blk).done = true := by
  have hnofill : ∀ c, s.drv.call ≠ .fill c := by
    intro c hf
    rw [hcall] at hf
    cases hf
  -- the device raises its interrupt
  obtain ⟨t, ht⟩ : ∃ t, t = { s.drv.dev .blk with status := ⟨true, false⟩ } := ⟨_, rfl⟩
  have hstatus : DriversStep s.drv .quiet (s.drv.setDev .blk t) := by
    rw [ht]
    exact .status
  have hraise : DiskStep s .quiet { s with drv := s.drv.setDev .blk t } := by
    refine .drivers hstatus trivial ?_ fun b x w hf => absurd hf (hnofill _)
    rw [setDev_dev, ht]
    rfl
  have hnet : ((s.drv.setDev .blk t).dev .net).pc = .idle := by
    rw [setDev_other (by decide)]
    exact hidle .net
  -- the handler runs
  obtain ⟨t', hdrain, hdone, hpc⟩ := Published.drained (n := n) (t := t) (by rw [ht]; exact h)
    (by rw [ht]; exact hidle .blk) (by rw [ht])
  obtain ⟨u, hu⟩ : ∃ u, u = (s.drv.setDev .blk t).setDev .blk t' := ⟨_, rfl⟩
  have hrun : Quietly { s with drv := s.drv.setDev .blk t } { s with drv := u } := by
    rw [hu]
    refine quietly_handler ?_ hnofill hnet (by dsimp only; rw [setDev_self]; exact hdrain)
    show InterruptsOn s.drv.sie s.drv.call
    rw [hcall]
    trivial
  have hself : u.dev .blk = t' := by rw [hu]; exact setDev_self ..
  have hother : (u.dev .net).pc = .idle := by
    rw [hu, setDev_other (by decide)]
    exact hnet
  have hcall' : u.call = .window c := by rw [hu]; exact hcall
  -- and the window is closed
  have hclose : DriversStep u .quiet { u with call := .loop c } := by
    refine .close hcall' fun d => ?_
    cases d with
    | blk => rw [hself]; exact hpc
    | net => exact hother
  have hclose' : DiskStep { s with drv := u } .quiet { s with drv := { u with call := .loop c } } :=
    .drivers hclose trivial rfl fun _ _ _ hf => by cases hf
  refine ⟨_, (hrun.head hraise).tail hclose', rfl, by dsimp only; rw [hu]; rfl, ?_⟩
  show (u.dev .blk).done = true
  rw [hself]
  exact hdone

/-- **From where a call tests the flag, it can come to find it set.** -/
theorem DiskOk.noticed (h : DiskOk sectors a s)
    (hcall : s.drv.call = .loop (.disk buf sector isWrite)) :
    ∃ s', Quietly s s' ∧ s'.drv.call = .loop (.disk buf sector isWrite) ∧ s'.drv.sie = s.drv.sie
      ∧ (s'.drv.dev .blk).done = true := by
  cases hdone : (s.drv.dev .blk).done with
  | true => exact ⟨s, .refl, hcall, rfl, hdone⟩
  | false =>
      have hidle : NoHandler s.drv := h.drv.off (by rw [hcall]; exact id)
      have hok := h.drv.dev .blk
      rw [hcall] at hok
      obtain ⟨n, hf, _⟩ := hok
      -- a window is opened
      have hwait : DiskStep s .quiet
          { s with drv := { s.drv with call := .window (.disk buf sector isWrite) } } :=
        .drivers (.wait hcall hidle hdone) trivial rfl fun _ _ _ hf => by cases hf
      obtain ⟨w, hw⟩ : ∃ w, w
          = { s with drv := { s.drv with call := .window (.disk buf sector isWrite) } } := ⟨_, rfl⟩
      rw [← hw] at hwait
      have hwok : DiskOk sectors a w := h.quiet hwait
      have hwcall : w.drv.call = .window (.disk buf sector isWrite) := by rw [hw]
      have hwidle : NoHandler w.drv := by rw [hw]; exact hidle
      have hwreq : w.drv.requests .blk = (s.drv.dev .blk).queue 0 := by rw [hw]; rfl
      -- and the device does what is left to do
      have hgive : ∀ u, DeviceMoved w u → InDevice n (u.drv.requests .blk) →
          ∃ s', Quietly w s' ∧ s'.drv.call = .loop (.disk buf sector isWrite)
            ∧ s'.drv.sie = w.drv.sie ∧ (s'.drv.dev .blk).done = true := by
        intro u hu hi
        have huok : DiskOk sectors a u := hwok.quietly hu.steps
        obtain ⟨u1, hm1, hi1, htodo⟩ := hi.executed huok (by rw [hu.call, hwcall]; rfl)
        obtain ⟨u2, hm2, hp⟩ := hi1.givenBack htodo
        have hm := (hu.trans hm1).trans hm2
        obtain ⟨s', hs', hc, hi', hd⟩ := hp.noticed (hm.call.trans hwcall) (hm.idle hwidle)
        exact ⟨s', hm.steps.trans hs', hc, hi'.trans hm.sie, hd⟩
      obtain ⟨s', hs', hc, hsie, hd⟩ : ∃ s', Quietly w s'
          ∧ s'.drv.call = .loop (.disk buf sector isWrite) ∧ s'.drv.sie = w.drv.sie
          ∧ (s'.drv.dev .blk).done = true := by
        cases hf with
        | offered ho _ _ _ =>
            obtain ⟨u, hu, hi⟩ := Offered.taken (s := w) (by rw [hwreq]; exact ho)
            exact hgive u hu hi
        | inDevice hi _ _ _ => exact hgive w ⟨.refl, rfl, rfl, id⟩ (by rw [hwreq]; exact hi)
        | published hp _ _ _ => exact Published.noticed (by rw [hwreq]; exact hp) hwcall hwidle
        | popped _ _ _ hpc => rw [hidle .blk] at hpc; cases hpc
        | noted _ _ _ hpc => rw [hidle .blk] at hpc; cases hpc
        | done _ hd _ _ => rw [hdone] at hd; cases hd
      exact ⟨s', Relation.ReflTransGen.head hwait hs', hc, hsie.trans (by rw [hw]), hd⟩

theorem setCallVq_dev {vq : Virtq} :
    ((drv.setCallVq (.disk buf sector isWrite) vq).requests .blk).dev = (drv.requests .blk).dev := by
  show (((drv.setDev .blk ((drv.dev .blk).setVq 0 vq)).dev .blk).queue 0).dev = _
  rw [setDev_self, setVq_queue]
  rfl

/-- A call comes to the test of the flag, whether or not interrupts are on where it is made. -/
theorem disk_waits (sie : Bool) (buf : Bytes) (isWrite : Bool) (hcall : s.drv.call = .idle)
    (hidle : NoHandler s.drv) (hsmall : sector < 2 ^ 32) (hlt : sector < s.drv.sectors) :
    ∃ s', Quietly s s' ∧ s'.drv.call = .loop (.disk buf sector isWrite) ∧ s'.drv.sie = sie := by
  obtain ⟨s1, h1, c1, n1, i1⟩ : ∃ s', DiskStep s .quiet s'
      ∧ s'.drv.call = .fill (.disk buf sector isWrite) ∧ NoHandler s'.drv ∧ s'.drv.sie = sie := by
    refine ⟨_, .drivers (.start (c := .disk buf sector isWrite) sie hcall hidle hlt) trivial
      rfl ?_, rfl, hidle, rfl⟩
    intro b x w hf
    injection hf with hf
    injection hf with _ hx _
    rw [← hx]
    exact hsmall
  obtain ⟨s2, h2, c2, n2, i2⟩ : ∃ s', DiskStep s1 .quiet s'
      ∧ s'.drv.call = .descs (.disk buf sector isWrite) ∧ NoHandler s'.drv ∧ s'.drv.sie = sie := by
    obtain ⟨mem, hmem, _⟩ := fillBlkReq_ok s1.mem s1.drv.blkReqPaddr buf isWrite hsmall
    exact ⟨_, .fill c1 (.fill c1 n1) hmem, rfl, n1, i1⟩
  obtain ⟨s3, h3, c3, n3, i3⟩ : ∃ s', DiskStep s2 .quiet s'
      ∧ s'.drv.call = .reset (.disk buf sector isWrite) ∧ NoHandler s'.drv ∧ s'.drv.sie = sie :=
    ⟨_, .descs c2 (.descs c2 n2), rfl, NoHandler.setDev n2 (n2 .blk), i2⟩
  obtain ⟨s4, h4, c4, n4, i4⟩ : ∃ s', DiskStep s3 .quiet s'
      ∧ s'.drv.call = .ring (.disk buf sector isWrite) ∧ NoHandler s'.drv ∧ s'.drv.sie = sie :=
    ⟨_, .drivers (.reset c3 n3) trivial setDev_dev (fun _ _ _ hf => by cases hf), rfl,
      NoHandler.setDev n3 (n3 .blk), i3⟩
  obtain ⟨s5, h5, c5, n5, i5⟩ : ∃ s', DiskStep s4 .quiet s'
      ∧ s'.drv.call = .index (.disk buf sector isWrite) ∧ NoHandler s'.drv ∧ s'.drv.sie = sie :=
    ⟨_, .drivers (.ring c4 n4) trivial setCallVq_dev (fun _ _ _ hf => by cases hf), rfl,
      NoHandler.setDev n4 (n4 .blk), i4⟩
  obtain ⟨s6, h6, c6, n6, i6⟩ : ∃ s', DiskStep s5 .quiet s'
      ∧ s'.drv.call = .submit (.disk buf sector isWrite) ∧ NoHandler s'.drv ∧ s'.drv.sie = sie :=
    ⟨_, .drivers (.index c5 n5) trivial setCallVq_dev (fun _ _ _ hf => by cases hf), rfl,
      NoHandler.setDev n5 (n5 .blk), i5⟩
  obtain ⟨s7, h7, c7, n7, i7⟩ : ∃ s', DiskStep s6 .quiet s'
      ∧ s'.drv.call = .notify (.disk buf sector isWrite) ∧ NoHandler s'.drv ∧ s'.drv.sie = sie :=
    ⟨_, .drivers (.submit c6 n6) trivial setCallVq_dev (fun _ _ _ hf => by cases hf), rfl,
      NoHandler.setDev n6 (n6 .blk), i6⟩
  obtain ⟨s8, h8, c8, i8⟩ : ∃ s', DiskStep s7 .quiet s'
      ∧ s'.drv.call = .loop (.disk buf sector isWrite) ∧ s'.drv.sie = sie :=
    ⟨_, .drivers (.notify c7 n7) trivial rfl (fun _ _ _ hf => by cases hf), rfl, i7⟩
  have hpath : Quietly s s4 := (((Relation.ReflTransGen.single h1).tail h2).tail h3).tail h4
  exact ⟨s8, (((hpath.tail h5).tail h6).tail h7).tail h8, c8, i8⟩

/-- **A call can be carried through**, and leaves the machine ready for the next one. -/
theorem DiskOk.returns (h : DiskOk sectors a s) (hcall : s.drv.call = .idle)
    (hidle : NoHandler s.drv) (sie : Bool) (buf : Bytes) (isWrite : Bool) (hsmall : sector < 2 ^ 32) :
    ∃ s₁ s₂ buf', Quietly s s₁ ∧ DiskStep s₁ (.done buf sector isWrite buf') s₂
      ∧ (sector < sectors → s₁.drv.sie = sie) ∧ s₂.drv.call = .idle ∧ NoHandler s₂.drv := by
  by_cases hlt : sector < s.drv.sectors
  · obtain ⟨u, hu, hc, hi⟩ := disk_waits sie buf isWrite hcall hidle hsmall hlt
    obtain ⟨v, hv, hc', hi', hdone⟩ := (h.quietly hu).noticed hc
    have hok : DiskOk sectors a v := (h.quietly hu).quietly hv
    have hoff : NoHandler v.drv := hok.drv.off (by rw [hc']; exact id)
    have hrestore : DiskStep v .quiet
        { v with drv := { v.drv with call := .finish (.disk buf sector isWrite) } } :=
      .drivers (.restore hc' hoff hdone) trivial rfl fun _ _ _ hf => by cases hf
    obtain ⟨hr, _, ht⟩ := transferred_of_finish (hok.quiet hrestore).stage rfl
    exact ⟨_, _, _, (hu.trans hv).tail hrestore, .ret rfl (.ret rfl hoff) (ht.finish hr),
      fun _ => hi'.trans hi, rfl, hoff⟩
  · exact ⟨s, _, buf, .refl, .reject hcall (.reject hcall hidle hlt),
      fun h' => absurd (h.sectors ▸ h') hlt, hcall, hidle⟩

/-! ## The array -/

/-- `b` is what the last write to sector `x` wrote, or what was there in the beginning. -/
def LastWritten (sectors : Nat) (disk : Nat → Sector) (tr : List DiskLabel) (x : Nat) (b : Sector) :
    Prop :=
  (∃ k data data', LastAt (WritesTo (sectorWrite sectors) x) tr k
      ∧ tr[k]? = some (.done data x true data') ∧ b = sectorAt data 0)
    ∨ (∀ (k : Nat) e, tr[k]? = some e → ¬ WritesTo (sectorWrite sectors) x e) ∧ b = disk x

/-- Only a write to a sector of the disk writes it. -/
theorem writesTo_iff {x : Nat} {l : DiskLabel} : WritesTo (sectorWrite sectors) x l
    ↔ x < sectors ∧ ∃ data data', l = .done data x true data' := by
  constructor
  · rintro ⟨v, hv⟩
    cases l with
    | quiet => cases hv
    | done data y w data' =>
        cases w with
        | false => cases hv
        | true =>
            have hv : (if y < sectors then some (y, sectorAt data 0) else none) = some (x, v) := hv
            split at hv
            · rename_i hlt
              injection hv with hv
              injection hv with hy _
              subst hy
              exact ⟨hlt, data, data', rfl⟩
            · cases hv
  · rintro ⟨hlt, data, data', rfl⟩
    exact ⟨sectorAt data 0, if_pos hlt⟩

theorem replay_lastWritten {tr : List DiskLabel} (x : Nat) :
    LastWritten sectors disk tr x (replay (sectorWrite sectors) disk tr x) := by
  rcases lastAt_or_none (WritesTo (sectorWrite sectors) x) tr with ⟨k, hk⟩ | hnone
  · obtain ⟨e, he, hw⟩ := hk.1
    obtain ⟨hlt, data, data', rfl⟩ := writesTo_iff.mp hw
    exact Or.inl ⟨k, data, data', hk, he, replay_last hk he (if_pos hlt)⟩
  · exact Or.inr ⟨hnone, replay_untouched hnone⟩

/-- The disk changes where the device executes a write, and there in one sector. -/
theorem DiskOk.changes (h : DiskOk sectors a s) {l : DiskLabel} (hs : DiskStep s l s') {x : Nat}
    (hx : s'.disk x ≠ s.disk x) : ∃ data, diskStage s.drv.call = .underway data x true := by
  cases hs with
  | @execute d mem disk' hd hex =>
      obtain ⟨data, sector, isWrite, hstage, hdisk, ht, _⟩ := execute_transfers h.stage hd hex
      have hx : disk' x ≠ s.disk x := hx
      rw [ht.disk, hdisk] at hx
      cases isWrite with
      | false => exact absurd rfl hx
      | true =>
          by_cases hxs : x = sector
          · rw [hxs]
            exact ⟨data, hstage⟩
          · rw [if_pos rfl, Function.update_of_ne hxs] at hx
            exact absurd rfl hx
  | _ => exact absurd rfl hx

end

/--
**The disk is an array of sectors**, for all calls, in any order, with any buffers, and with
the device, both handlers and the network driver running at any time they can.

* A read of a sector of the disk leaves in the buffer what the last write to that sector
  wrote, or what was there in the beginning.
* A write leaves its buffer alone, and so does a call for a sector that is not on the disk.
* Between calls, every sector holds what the last write to it wrote; and when a sector
  changes, the call under way is a write to it.
* A call that is made, with interrupts on or off, can be carried through.
-/
theorem disk_is_sector_array {sectors : Nat} {disk : Nat → Sector} {tr : List DiskLabel}
    {s : DiskState} (hr : Run (DiskStart sectors disk) DiskStep tr s) :
    (∀ (j : Nat) buf sector buf', tr[j]? = some (.done buf sector false buf') → sector < sectors →
      ∃ b, LastWritten sectors disk (tr.take j) sector b
        ∧ (∀ i : Fin sectorSize, buf' i = b i) ∧ ∀ i, sectorSize ≤ i → buf' i = buf i)
    ∧ (∀ (j : Nat) buf sector isWrite buf', tr[j]? = some (.done buf sector isWrite buf') →
      isWrite = true ∨ sectors ≤ sector → buf' = buf)
    ∧ (s.drv.call = .idle → ∀ x, LastWritten sectors disk tr x (s.disk x))
    ∧ (∀ l s', DiskStep s l s' → ∀ x, s'.disk x ≠ s.disk x →
      ∃ data, diskStage s.drv.call = .underway data x true)
    ∧ (s.drv.call = .idle → NoHandler s.drv → ∀ sie buf sector isWrite, sector < 2 ^ 32 →
      ∃ s₁ s₂ buf', Quietly s s₁ ∧ DiskStep s₁ (.done buf sector isWrite buf') s₂
        ∧ (sector < sectors → s₁.drv.sie = sie) ∧ s₂.drv.call = .idle ∧ NoHandler s₂.drv) := by
  have hinv := diskInv_run hr
  refine ⟨fun j buf sector buf' hj hlt => ?_, fun j buf sector isWrite buf' hj hout => ?_,
    fun hcall x => ?_, fun l s' hs x hx => hinv.ok.changes hs hx,
    fun hcall hidle sie buf sector isWrite hsmall =>
      hinv.ok.returns hcall hidle sie buf isWrite hsmall⟩
  · have hbuf := hinv.answers j buf sector false buf' hj
    unfold sectorAnswer at hbuf
    rw [if_pos ⟨hlt, rfl⟩] at hbuf
    refine ⟨_, replay_lastWritten sector, fun i => ?_, fun i hi => ?_⟩
    · rw [hbuf]
      exact putSector_front i
    · rw [hbuf]
      exact putSector_outside (Or.inr (by omega))
  · have hbuf := hinv.answers j buf sector isWrite buf' hj
    unfold sectorAnswer at hbuf
    rw [hbuf, if_neg]
    rintro ⟨hlt, hread⟩
    rcases hout with hw | hge
    · rw [hread] at hw
      cases hw
    · omega
  · have hst := hinv.ok.stage
    rw [hcall] at hst
    rw [show s.disk = _ from hst.2]
    exact replay_lastWritten x

/-- Steps in which nothing returns prolong a run. -/
theorem Quietly.run {sectors : Nat} {disk : Nat → Sector} {tr : List DiskLabel} {s s' : DiskState}
    (hr : Run (DiskStart sectors disk) DiskStep tr s) (h : Quietly s s') :
    ∃ n, Run (DiskStart sectors disk) DiskStep (tr ++ List.replicate n .quiet) s' := by
  induction h with
  | refl => exact ⟨0, by rw [List.replicate_zero, List.append_nil]; exact hr⟩
  | tail _ hstep ih =>
      obtain ⟨n, hn⟩ := ih
      refine ⟨n + 1, ?_⟩
      rw [List.replicate_succ', ← List.append_assoc]
      exact hn.snoc hstep

/-- A machine whose devices have just been initialised, with these sectors. -/
def initialised (sectors : Nat) (disk : Nat → Sector) : DiskState where
  drv := ⟨fun _ => ⟨fun _ => Queue.fresh, ⟨false, false⟩, 0, false, false, .idle, 0⟩, .idle, false,
    ⟨0, 0, fun _ => 0, 0⟩, fun _ => 0, 0, 0x80300000, 0, sectors⟩
  mem := fun _ => 0
  disk := disk
  todo := []

theorem initialised_start (sectors : Nat) (disk : Nat → Sector) :
    DiskStart sectors disk (initialised sectors disk) :=
  ⟨⟨rfl, fun _ => ⟨fun _ _ => rfl, rfl, rfl⟩⟩, rfl, rfl, rfl⟩

/-- Sector 3 of a new disk of eight is written, and read again with interrupts on. -/
theorem disk_is_sector_array_read : ∃ (tr : List DiskLabel) (s : DiskState) (j : Nat) (buf : Bytes),
    Run (DiskStart 8 fun _ _ => 0) DiskStep tr s ∧ tr[j]? = some (.done (fun _ => 0) 3 false buf)
    ∧ ∀ i : Fin sectorSize, buf i = 7 := by
  have h0 : Run (DiskStart 8 fun _ _ => 0) DiskStep [] (initialised 8 fun _ _ => 0) :=
    .start (initialised_start 8 _)
  obtain ⟨_, _, out, hq, hwrite, _, hcall, hidle⟩ :=
    (disk_is_sector_array h0).2.2.2.2 rfl (fun _ => rfl) false (fun _ => 7) 3 true (by decide)
  obtain ⟨n, hn⟩ := hq.run h0
  have h1 := hn.snoc hwrite
  obtain ⟨_, _, buf, hq', hread, _, _, _⟩ :=
    (disk_is_sector_array h1).2.2.2.2 hcall hidle true (fun _ => 0) 3 false (by decide)
  obtain ⟨m, hm⟩ := hq'.run h1
  have h2 := hm.snoc hread
  refine ⟨_, _, _, buf, h2, getElem?_snoc_iff.mpr (Or.inr ⟨rfl, rfl⟩), fun i => ?_⟩
  obtain ⟨b, hb, hbuf, _⟩ := (disk_is_sector_array h2).1 _ _ 3 buf
    (getElem?_snoc_iff.mpr (Or.inr ⟨rfl, rfl⟩)) (by decide)
  rw [take_snoc (Nat.le_refl _), List.take_length] at hb
  rw [hbuf i]
  rcases hb with ⟨k, data, data', _, hk, hdata⟩ | ⟨hnone, _⟩
  · -- the only call before is the write
    have hmem := List.mem_of_getElem? hk
    simp only [List.nil_append, List.mem_append, List.mem_replicate, List.mem_singleton] at hmem
    rcases hmem with (⟨_, h⟩ | h) | ⟨_, h⟩
    · cases h
    · injection h with h _ _ _
      rw [hdata, h]
      rfl
    · cases h
  · refine absurd (writesTo_iff.mpr ⟨by decide, fun _ => 7, out, rfl⟩) (hnone n _ ?_)
    simp

/-! ## The file system's disk

`fs_init` and `fs_flush` call `read_write_disk` for one sector of `disk[]` after the other. The
model of the file system has a device of bytes instead; it is the same array. -/

/-- The sectors of a device of bytes. -/
def deviceSectors (d : Device) : Nat → Sector := fun x => sectorAt d.bytes (x * sectorSize)

/-- What `fs_init` reads is what the array answers. -/
theorem readSector_answer (fs : Fs) (sector : Nat) (i : Fin sectorSize) :
    (readSector fs sector).disk (sector * sectorSize + i)
      = sectorAnswer fs.device.capacity (deviceSectors fs.device)
          (fun x => fs.disk (sector * sectorSize + x)) sector false i := by
  unfold readSector sectorAnswer
  by_cases hlt : sector < fs.device.capacity
  · rw [if_neg (by omega), if_pos ⟨hlt, rfl⟩]
    dsimp only
    rw [blit_inside i.isLt, putSector_front]
    rfl
  · rw [if_pos (by omega), if_neg fun h => hlt h.1]

/-- What `fs_flush` writes is what the array takes. -/
theorem writeSector_replay (fs : Fs) (sector : Nat) (buf' : Bytes) :
    deviceSectors (writeSector fs sector).device
      = replayStep (sectorWrite fs.device.capacity) (deviceSectors fs.device)
          (.done (fun x => fs.disk (sector * sectorSize + x)) sector true buf') := by
  unfold writeSector
  by_cases hlt : sector < fs.device.capacity
  · rw [if_neg (by omega), replayStep_some (sectorWrite_inside hlt)]
    funext x i
    have hi : (i : Nat) < 512 := i.isLt
    unfold deviceSectors sectorAt
    dsimp only
    by_cases hx : x = sector
    · subst hx
      rw [Function.update_self, blit_inside i.isLt, Nat.zero_add]
    · have hout : x * 512 + i < sector * 512 ∨ sector * 512 + 512 ≤ x * 512 + i := by omega
      rw [Function.update_of_ne hx]
      exact blit_outside hout
  · rw [if_pos (by omega), replayStep_none (sectorWrite_outside hlt)]

end Os1000.Proof
