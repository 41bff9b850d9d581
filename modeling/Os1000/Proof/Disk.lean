import Os1000.Lib.Trace
import Os1000.Proof.BlkReq
import Os1000.Proof.Request

/-!
# The disk is an array of sectors

Every call uses the same `blk_req` and the same three descriptors, and a device with a life
of its own reads and writes them. What keeps one request apart from the next is that the
device has nothing to do while a call writes them (`Os1000.Proof.Request`), and that a call
that finds the flag set finds its request executed: an element is popped only after it was
given back, and given back only after it was executed.

So a call has an effect at one point, where the device executes its chain, and there it is
the effect an array of sectors has. `a` is the array after all calls that have returned.
-/

namespace Os1000.Proof

open Os1000 Lib

/-! ## The driver and its queue -/

/-- Nothing the block device is told has changed. -/
structure SameRequests (s s' : Drivers) : Prop where
  blkReqPaddr : s'.blkReqPaddr = s.blkReqPaddr
  sectors : s'.sectors = s.sectors
  descs : (s'.requests .blk).vq.descs = (s.requests .blk).vq.descs
  avail : (s'.requests .blk).vq.availIndex = (s.requests .blk).vq.availIndex

section

variable {s s' u : Drivers} {l : CallLabel}

/-- The state of one device is replaced. -/
theorem sameRequests_setDev {d : VirtioDev} {t : DevState} (hdev : u.dev = s.dev)
    (hp : u.blkReqPaddr = s.blkReqPaddr) (hn : u.sectors = s.sectors)
    (ht : d = .blk → (t.queue 0).vq.descs = (s.requests .blk).vq.descs
      ∧ (t.queue 0).vq.availIndex = (s.requests .blk).vq.availIndex) :
    SameRequests s (u.setDev d t) := by
  by_cases hd : d = .blk
  · have hreq : (u.setDev d t).requests .blk = t.queue 0 := by
      unfold Drivers.requests
      rw [hd, setDev_self]
      rfl
    exact ⟨hp, hn, by rw [hreq]; exact (ht hd).1, by rw [hreq]; exact (ht hd).2⟩
  · have hreq : (u.setDev d t).requests .blk = s.requests .blk := by
      unfold Drivers.requests
      rw [setDev_other (Ne.symm hd), hdev]
    exact ⟨hp, hn, by rw [hreq], by rw [hreq]⟩

theorem sameRequests_setCallVq {c : Call} {vq : Virtq} (hdev : u.dev = s.dev)
    (hp : u.blkReqPaddr = s.blkReqPaddr) (hn : u.sectors = s.sectors)
    (hvq : c.dev = .blk → vq.descs = (s.vq c).descs ∧ vq.availIndex = (s.vq c).availIndex) :
    SameRequests s (u.setCallVq c vq) := by
  refine sameRequests_setDev hdev hp hn fun hc => ?_
  obtain ⟨h1, h2⟩ := hvq hc
  have hq : reqQueue c.dev = 0 := by rw [hc]; rfl
  rw [hq, setVq_self, h1, h2]
  unfold Drivers.vq Drivers.requests
  rw [hc]
  exact ⟨rfl, rfl⟩

/-- A call to the disk changes its queue. -/
theorem requests_disk {buf : Bytes} {sector : Nat} {isWrite : Bool} {vq : Virtq} :
    ((u.setCallVq (.disk buf sector isWrite) vq).requests .blk).vq = vq := by
  show (((u.setDev .blk ((u.dev .blk).setVq 0 vq)).dev .blk).queue 0).vq = vq
  rw [setDev_self, setVq_self]

/-- How far a call to the disk has come. -/
inductive DiskStage where
  /-- There is none. -/
  | none
  /-- `blk_req` is about to be written. -/
  | filling (buf : Bytes) (sector : Nat) (isWrite : Bool)
  /-- The descriptors are. -/
  | filled (buf : Bytes) (sector : Nat) (isWrite : Bool)
  /-- The request is about to be offered. -/
  | described (buf : Bytes) (sector : Nat) (isWrite : Bool)
  /-- It was offered. -/
  | underway (buf : Bytes) (sector : Nat) (isWrite : Bool)
  /-- It was found done. -/
  | finished (buf : Bytes) (sector : Nat) (isWrite : Bool)

def diskStage : CallPc → DiskStage
  | .fill (.disk buf sector isWrite) => .filling buf sector isWrite
  | .descs (.disk buf sector isWrite) => .filled buf sector isWrite
  | .reset (.disk buf sector isWrite) => .described buf sector isWrite
  | .ring (.disk buf sector isWrite) => .described buf sector isWrite
  | .index (.disk buf sector isWrite) => .described buf sector isWrite
  | .submit (.disk buf sector isWrite) => .underway buf sector isWrite
  | .notify (.disk buf sector isWrite) => .underway buf sector isWrite
  | .loop (.disk buf sector isWrite) => .underway buf sector isWrite
  | .window (.disk buf sector isWrite) => .underway buf sector isWrite
  | .finish (.disk buf sector isWrite) => .finished buf sector isWrite
  | _ => .none

/-- What a step that moves no bytes does to a call to the disk. -/
inductive BlkStep (s s' : Drivers) : Prop where
  | same : SameRequests s s' → diskStage s'.call = diskStage s.call → BlkStep s s'
  | start {buf : Bytes} {sector : Nat} {isWrite : Bool} : SameRequests s s' →
      diskStage s.call = .none → s'.call = .fill (.disk buf sector isWrite) → sector < s.sectors →
      BlkStep s s'
  | offer {buf : Bytes} {sector : Nat} {isWrite : Bool} :
      s.call = .index (.disk buf sector isWrite) → s'.call = .submit (.disk buf sector isWrite) →
      s'.blkReqPaddr = s.blkReqPaddr →
      s'.sectors = s.sectors → (s'.requests .blk).vq.descs = (s.requests .blk).vq.descs →
      (s'.requests .blk).vq.availIndex = u16 ((s.requests .blk).vq.availIndex + 1) → BlkStep s s'
  | finish {buf : Bytes} {sector : Nat} {isWrite : Bool} : SameRequests s s' →
      s.call = .loop (.disk buf sector isWrite) → s'.call = .finish (.disk buf sector isWrite) →
      (s.dev .blk).done = true → BlkStep s s'

theorem blkStep_of_driversStep (hs : DriversStep s l s') (hl : l.notDisk) : BlkStep s s' := by
  have hsame : SameRequests s s := ⟨rfl, rfl, rfl, rfl⟩
  cases hs with
  | reject _ _ _ => exact .same hsame rfl
  | @start c _ hcall _ hacc =>
      cases c with
      | disk buf sector isWrite => exact .start ⟨rfl, rfl, rfl, rfl⟩ (by rw [hcall]; rfl) rfl hacc
      | ethernet => exact .same ⟨rfl, rfl, rfl, rfl⟩ (by rw [hcall]; rfl)
      | testPacket => exact .same ⟨rfl, rfl, rfl, rfl⟩ (by rw [hcall]; rfl)
  | @fill c hcall _ =>
      cases c with
      | disk => exact absurd rfl hl
      | ethernet => exact .same ⟨rfl, rfl, rfl, rfl⟩ (by rw [hcall]; rfl)
      | testPacket => exact .same ⟨rfl, rfl, rfl, rfl⟩ (by rw [hcall]; rfl)
  | @descs c hcall _ =>
      refine .same (sameRequests_setCallVq rfl rfl rfl fun hc => absurd hc hl) ?_
      rw [hcall]
      cases c with
      | disk => exact absurd rfl hl
      | ethernet => rfl
      | testPacket => rfl
  | @reset c hcall _ =>
      refine .same (sameRequests_setDev rfl rfl rfl fun hc => by rw [hc]; exact ⟨rfl, rfl⟩) ?_
      rw [hcall]
      cases c <;> rfl
  | @ring c hcall _ =>
      refine .same (sameRequests_setCallVq rfl rfl rfl fun _ => ⟨rfl, rfl⟩) ?_
      rw [hcall]
      cases c <;> rfl
  | @index c hcall _ =>
      cases c with
      | disk buf sector isWrite =>
          exact .offer hcall rfl rfl rfl (by rw [requests_disk]; rfl) (by rw [requests_disk]; rfl)
      | ethernet =>
          refine .same (sameRequests_setCallVq rfl rfl rfl fun hc => by cases hc) ?_
          rw [hcall]
          rfl
      | testPacket =>
          refine .same (sameRequests_setCallVq rfl rfl rfl fun hc => by cases hc) ?_
          rw [hcall]
          rfl
  | @submit c hcall _ =>
      refine .same (sameRequests_setCallVq rfl rfl rfl fun _ => ⟨rfl, rfl⟩) ?_
      rw [hcall]
      cases c <;> rfl
  | @notify c hcall _ =>
      refine .same ⟨rfl, rfl, rfl, rfl⟩ ?_
      rw [hcall]
      cases c <;> rfl
  | @wait c hcall _ _ =>
      refine .same ⟨rfl, rfl, rfl, rfl⟩ ?_
      rw [hcall]
      cases c <;> rfl
  | @close c hcall _ =>
      refine .same ⟨rfl, rfl, rfl, rfl⟩ ?_
      rw [hcall]
      cases c <;> rfl
  | @restore c hcall _ hdone =>
      cases c with
      | disk => exact .finish ⟨rfl, rfl, rfl, rfl⟩ hcall rfl hdone
      | ethernet => exact .same ⟨rfl, rfl, rfl, rfl⟩ (by rw [hcall]; rfl)
      | testPacket => exact .same ⟨rfl, rfl, rfl, rfl⟩ (by rw [hcall]; rfl)
  | @ret c hcall _ =>
      refine .same ⟨rfl, rfl, rfl, rfl⟩ ?_
      rw [hcall]
      cases c with
      | disk => exact absurd rfl hl
      | ethernet => rfl
      | testPacket => rfl
  | @handler d t _ _ hstep =>
      refine .same (sameRequests_setDev rfl rfl rfl fun hd => ?_) rfl
      subst hd
      exact (handlerStep_keeps hstep).2
  | @device d k ev q' hk hstep =>
      refine .same (sameRequests_setDev rfl rfl rfl fun hd => ?_) rfl
      subst hd
      obtain rfl := Nat.lt_one_iff.mp hk
      dsimp only
      rw [Function.update_self]
      exact (deviceStep_keeps hstep).2
  | @status d st =>
      exact .same (sameRequests_setDev rfl rfl rfl fun hd => by rw [hd]; exact ⟨rfl, rfl⟩) rfl

/-- The device only moves on the queue while a call to the disk is under way. -/
theorem DriversInv.underway_of_device (h : DriversInv s) {ev : DeviceEvent} {q : Queue}
    (hs : DeviceStep (s.requests .blk) ev q) :
    ∃ n buf sector isWrite, Flight .blk n (s.dev .blk)
      ∧ diskStage s.call = .underway buf sector isWrite := by
  have hok := h.dev .blk
  have hrest : ¬ Resting .blk (s.dev .blk) := fun hr => by
    obtain ⟨n, hn, _⟩ := hr.ready
    exact hn.no_device hs
  cases hcall : s.call with
  | idle => rw [hcall] at hok; exact absurd hok hrest
  | fill c => rw [hcall] at hok; exact absurd hok hrest
  | descs c => rw [hcall] at hok; exact absurd hok hrest
  | reset c => rw [hcall] at hok; exact absurd hok hrest
  | finish c => rw [hcall] at hok; exact absurd hok hrest
  | ring c =>
      rw [hcall] at hok
      cases c with
      | disk => exact absurd hok.1 hrest
      | ethernet => exact absurd hok hrest
      | testPacket => exact absurd hok hrest
  | index c =>
      rw [hcall] at hok
      cases c with
      | disk => exact absurd hok.1 hrest
      | ethernet => exact absurd hok hrest
      | testPacket => exact absurd hok hrest
  | submit c | notify c | loop c | window c =>
      rw [hcall] at hok
      cases c with
      | disk buf sector isWrite =>
          obtain ⟨n, hf, _⟩ := hok
          exact ⟨n, buf, sector, isWrite, hf, rfl⟩
      | ethernet => exact absurd hok hrest
      | testPacket => exact absurd hok hrest

end

/-! ## What a call has achieved -/

/-- What the block device sees, and what it has. -/
structure DiskView where
  mem : Mem
  disk : Nat → Sector
  todo : List Nat
  blkReq : Nat
  sectors : Nat
  descs : Nat → VirtqDesc
  avail : Nat
  dev : DeviceSide

def diskView (s : DiskState) : DiskView where
  mem := s.mem
  disk := s.disk
  todo := s.todo
  blkReq := s.drv.blkReqPaddr
  sectors := s.drv.sectors
  descs := (s.drv.requests .blk).vq.descs
  avail := (s.drv.requests .blk).vq.availIndex
  dev := (s.drv.requests .blk).dev

/-- A request that was offered, with `a` on the disk before. -/
inductive Underway (a : Nat → Sector) (v : DiskView) (buf : Bytes) (sector : Nat) (isWrite : Bool) :
    Prop where
  /-- The device has not taken it. -/
  | offered : v.dev.lastAvail ≠ v.avail → v.todo = [] → v.disk = a →
      Requested v.mem v.blkReq buf sector isWrite → Underway a v buf sector isWrite
  /-- It has, and not executed it. -/
  | taken : v.dev.lastAvail = v.avail → v.todo = [0] → v.dev.held = [0] → v.dev.filled = none →
      v.disk = a → Requested v.mem v.blkReq buf sector isWrite → Underway a v buf sector isWrite
  /-- It has executed it. -/
  | executed : v.dev.lastAvail = v.avail → v.todo = [] →
      Transferred v.mem v.blkReq a v.disk buf sector isWrite → Underway a v buf sector isWrite

/-- What holds at each stage of a call, with `a` on the disk before. -/
def AtStage (a : Nat → Sector) (v : DiskView) : DiskStage → Prop
  | .none => v.todo = [] ∧ v.disk = a
  | .filling _ sector _ => (v.todo = [] ∧ v.disk = a) ∧ sector < v.sectors ∧ sector < 2 ^ 32
  | .filled buf sector isWrite => (v.todo = [] ∧ v.disk = a) ∧ sector < v.sectors
      ∧ Requested v.mem v.blkReq buf sector isWrite
  | .described buf sector isWrite => (v.todo = [] ∧ v.disk = a) ∧ sector < v.sectors
      ∧ Requested v.mem v.blkReq buf sector isWrite ∧ Described v.descs v.blkReq isWrite
  | .underway buf sector isWrite => sector < v.sectors ∧ Described v.descs v.blkReq isWrite
      ∧ Underway a v buf sector isWrite
  | .finished buf sector isWrite => sector < v.sectors ∧ v.todo = []
      ∧ Transferred v.mem v.blkReq a v.disk buf sector isWrite

section

variable {s : DiskState} {drv : Drivers} {a : Nat → Sector} {buf buf' : Bytes} {sector : Nat}
  {isWrite : Bool}

theorem diskView_same (h : SameRequests s.drv drv)
    (hdev : (drv.requests .blk).dev = (s.drv.requests .blk).dev) :
    diskView { s with drv } = diskView s := by
  unfold diskView
  dsimp only
  rw [h.blkReqPaddr, h.sectors, h.descs, h.avail, hdev]

/-- **A call that finds the flag set finds its request executed.** -/
theorem transferred_of_done (hinv : DriversInv s.drv)
    (h : AtStage a (diskView s) (diskStage s.drv.call))
    (hcall : s.drv.call = .loop (.disk buf sector isWrite)) (hdone : (s.drv.dev .blk).done = true) :
    sector < s.drv.sectors
      ∧ s.todo = [] ∧ Transferred s.mem s.drv.blkReqPaddr a s.disk buf sector isWrite := by
  have hok := hinv.dev .blk
  rw [hcall] at h hok
  obtain ⟨n, hf, _⟩ := hok
  obtain ⟨m, hready⟩ : ∃ m, Ready m (s.drv.requests .blk) := by
    cases hf with
    | offered _ hd _ _ => rw [hdone] at hd; cases hd
    | inDevice _ hd _ _ => rw [hdone] at hd; cases hd
    | published _ hd _ _ => rw [hdone] at hd; cases hd
    | popped _ hd _ _ => rw [hdone] at hd; cases hd
    | noted hr _ _ _ => exact ⟨_, hr⟩
    | done hr _ _ _ => exact ⟨_, hr⟩
  obtain ⟨hlt, _, hu⟩ := h
  cases hu with
  | offered hne _ _ _ => exact absurd (hready.last.trans hready.avail.symm) hne
  | taken _ _ hheld _ _ _ =>
      rw [show (diskView s).dev.held = [] from hready.held] at hheld
      cases hheld
  | executed _ htodo ht => exact ⟨hlt, htodo, ht⟩

theorem transferred_of_finish (h : AtStage a (diskView s) (diskStage s.drv.call))
    (hcall : s.drv.call = .finish (.disk buf sector isWrite)) : sector < s.drv.sectors
      ∧ s.todo = [] ∧ Transferred s.mem s.drv.blkReqPaddr a s.disk buf sector isWrite := by
  rw [hcall] at h
  exact h

/-- A step that moves no bytes. -/
theorem atStage_drivers {l : CallLabel} (hinv : DriversInv s.drv)
    (h : AtStage a (diskView s) (diskStage s.drv.call)) (hs : DriversStep s.drv l drv)
    (hl : l.notDisk) (hdev : (drv.requests .blk).dev = (s.drv.requests .blk).dev)
    (hsector : ∀ buf sector isWrite, drv.call = .fill (.disk buf sector isWrite) →
      sector < 2 ^ 32) :
    AtStage a (diskView { s with drv }) (diskStage drv.call) := by
  have hinv' := driversInv_step hinv hs
  cases blkStep_of_driversStep hs hl with
  | same hsame hstage =>
      rw [diskView_same hsame hdev, hstage]
      exact h
  | @start buf sector isWrite hsame hnone hcall hlt =>
      rw [diskView_same hsame hdev, hcall]
      rw [hnone] at h
      exact ⟨h, hlt, hsector _ _ _ hcall⟩
  | @offer buf sector isWrite hcall hcall' hp hn hdescs havail =>
      have hok := hinv.dev .blk
      rw [hcall] at h hok
      obtain ⟨⟨htodo, hdisk⟩, hlt, hreq, hdesc⟩ := h
      obtain ⟨⟨⟨n, hready, _⟩, _, _⟩, _⟩ := hok
      have hlast : (s.drv.requests .blk).dev.lastAvail = n := hready.last
      have hbefore : (s.drv.requests .blk).vq.availIndex = n := hready.avail
      have hsmall := hready.lt
      rw [hcall']
      refine ⟨?_, ?_, .offered ?_ htodo hdisk ?_⟩
      · show sector < drv.sectors
        rw [hn]
        exact hlt
      · show Described (drv.requests .blk).vq.descs drv.blkReqPaddr isWrite
        rw [hdescs, hp]
        exact hdesc
      · -- nothing was left to take before the index was raised
        show (drv.requests .blk).dev.lastAvail ≠ (drv.requests .blk).vq.availIndex
        rw [hdev, havail, hlast, hbefore]
        unfold u16
        omega
      · show Requested s.mem drv.blkReqPaddr buf sector isWrite
        rw [hp]
        exact hreq
  | finish hsame hcall hcall' hdone =>
      have ht := transferred_of_done hinv h hcall hdone
      rw [diskView_same hsame hdev, hcall']
      exact ht

/-- `blk_req` is written. -/
theorem atStage_fill {mem : Mem} (h : AtStage a (diskView s) (diskStage s.drv.call))
    (hcall : s.drv.call = .fill (.disk buf sector isWrite))
    (hs : DriversStep s.drv (.write (.disk buf sector isWrite)) drv)
    (hmem : fillBlkReq s.mem s.drv.blkReqPaddr buf sector isWrite = .ok mem) :
    AtStage a (diskView { s with drv, mem }) (diskStage drv.call) := by
  cases hs with
  | descs hcall' _ => rw [hcall] at hcall'; cases hcall'
  | fill _ _ =>
      rw [hcall] at h
      obtain ⟨hidle, hlt, hsmall⟩ := h
      obtain ⟨mem', hmem', hreq⟩ := fillBlkReq_ok s.mem s.drv.blkReqPaddr buf isWrite hsmall
      rw [hmem] at hmem'
      injection hmem' with hmem'
      subst hmem'
      exact ⟨hidle, hlt, hreq⟩

/-- The descriptors are written. -/
theorem atStage_descs (h : AtStage a (diskView s) (diskStage s.drv.call))
    (hcall : s.drv.call = .descs (.disk buf sector isWrite))
    (hs : DriversStep s.drv (.write (.disk buf sector isWrite)) drv) :
    AtStage a (diskView { s with drv }) (diskStage drv.call) := by
  cases hs with
  | fill hcall' _ => rw [hcall] at hcall'; cases hcall'
  | descs _ _ =>
      rw [hcall] at h
      obtain ⟨hidle, hlt, hreq⟩ := h
      refine ⟨hidle, hlt, hreq, ?_⟩
      show Described (Drivers.requests _ .blk).vq.descs s.drv.blkReqPaddr isWrite
      dsimp only
      rw [requests_disk]
      exact described_requestDescs s.drv buf sector

/-! ## What the device does -/

theorem setRequests_blk {q : Queue} : (drv.setRequests .blk q).requests .blk = q := by
  unfold Drivers.requests Drivers.setRequests
  rw [setDev_self]
  exact Function.update_self (reqQueue .blk) q (drv.dev .blk).queue

/-- The view after the device has moved on its queue. -/
theorem diskView_setRequests {q : Queue} {ev : DeviceEvent} {todo : List Nat}
    (hs : DeviceStep (s.drv.requests .blk) ev q) :
    diskView { s with drv := s.drv.setRequests .blk q, todo }
      = { diskView s with dev := q.dev, todo } := by
  unfold diskView
  dsimp only
  rw [setRequests_blk, (deviceStep_keeps hs).2.1, (deviceStep_keeps hs).2.2]
  rfl

/-- A request that is left to take has only been offered. -/
theorem Flight.offered_of_take {n : Nat} {t : DevState} (h : Flight .blk n t)
    (hne : (t.queue 0).dev.lastAvail ≠ (t.queue 0).vq.availIndex) : Offered n (t.queue 0) := by
  cases h with
  | offered ho _ _ _ => exact ho
  | inDevice hq _ _ _ => exact absurd (hq.last.trans hq.avail.symm) hne
  | published hq _ _ _ => exact absurd (hq.last.trans hq.avail.symm) hne
  | popped hq _ _ _ => exact absurd (hq.last.trans hq.avail.symm) hne
  | noted hq _ _ _ => exact absurd (hq.last.trans hq.avail.symm) hne
  | done hq _ _ _ => exact absurd (hq.last.trans hq.avail.symm) hne

/-- **The request is taken.** -/
theorem atStage_take {d : Nat} {q : Queue} (hinv : DriversInv s.drv)
    (h : AtStage a (diskView s) (diskStage s.drv.call))
    (hs : DeviceStep (s.drv.requests .blk) (.take d) q) :
    AtStage a (diskView { s with drv := s.drv.setRequests .blk q, todo := s.todo ++ [d] })
      (diskStage s.drv.call) := by
  obtain ⟨n, buf, sector, isWrite, hf, hstage⟩ := hinv.underway_of_device hs
  rw [diskView_setRequests hs]
  rw [hstage] at h ⊢
  obtain ⟨hlt, hdesc, hu⟩ := h
  refine ⟨hlt, hdesc, ?_⟩
  cases hs with
  | take hne =>
      have ho := hf.offered_of_take hne
      have hi := ho.device (.take hne)
      have hzero : (s.drv.requests .blk).nextAvail = 0 := by
        unfold Queue.nextAvail
        rw [show (s.drv.requests .blk).dev.lastAvail = n from ho.last]
        exact ho.slot
      cases hu with
      | taken heq _ _ _ _ _ => exact absurd heq hne
      | executed heq _ _ => exact absurd heq hne
      | offered _ htodo hdisk hreq =>
          refine .taken (hi.last.trans hi.avail.symm) ?_ hi.held ho.filled hdisk hreq
          show s.todo ++ [_] = [0]
          rw [hzero, show s.todo = [] from htodo]
          rfl

/-- What the device executes is the request it has taken. -/
theorem AtStage.taken_of_todo {v : DiskView} {st : DiskStage} (h : AtStage a v st)
    (hne : v.todo ≠ []) : ∃ buf sector isWrite, st = .underway buf sector isWrite
      ∧ sector < v.sectors ∧ Described v.descs v.blkReq isWrite ∧ v.dev.lastAvail = v.avail
      ∧ v.todo = [0] ∧ v.disk = a ∧ Requested v.mem v.blkReq buf sector isWrite := by
  cases st with
  | none => exact absurd h.1 hne
  | filling => exact absurd h.1.1 hne
  | filled => exact absurd h.1.1 hne
  | described => exact absurd h.1.1 hne
  | underway buf sector isWrite =>
      obtain ⟨hlt, hdesc, hu⟩ := h
      cases hu with
      | offered _ htodo _ _ => exact absurd htodo hne
      | executed _ htodo _ => exact absurd htodo hne
      | taken hlast htodo _ _ hdisk hreq =>
          exact ⟨buf, sector, isWrite, rfl, hlt, hdesc, hlast, htodo, hdisk, hreq⟩
  | finished => exact absurd h.2.1 hne

/-- **The request is executed.** -/
theorem execute_transfers {d : Nat} {mem : Mem} {disk : Nat → Sector}
    (h : AtStage a (diskView s) (diskStage s.drv.call)) (hd : d ∈ s.todo)
    (hex : executeBlk s.drv.sectors (s.drv.requests .blk).vq.descs d s.mem s.disk
      = some (mem, disk)) :
    ∃ buf sector isWrite, diskStage s.drv.call = .underway buf sector isWrite
      ∧ s.disk = a ∧ Transferred mem s.drv.blkReqPaddr a disk buf sector isWrite
      ∧ Underway a (diskView { s with mem, disk, todo := s.todo.erase d }) buf sector isWrite := by
  obtain ⟨buf, sector, isWrite, hstage, hlt, hdesc, hlast, htodo, hdisk, hreq⟩ :=
    h.taken_of_todo (List.ne_nil_of_mem hd)
  have htodo : s.todo = [0] := htodo
  have hdisk : s.disk = a := hdisk
  rw [htodo, List.mem_singleton] at hd
  subst hd
  obtain ⟨mem', disk', hex', ht⟩ := executeBlk_ok (a := a) hdesc hreq hlt
  rw [hdisk] at hex
  have heq := hex.symm.trans hex'
  injection heq with heq
  injection heq with hm hd
  subst hm hd
  refine ⟨buf, sector, isWrite, hstage, hdisk, ht, .executed hlast ?_ ht⟩
  show s.todo.erase 0 = []
  rw [htodo]
  rfl

theorem atStage_execute {d : Nat} {mem : Mem} {disk : Nat → Sector}
    (h : AtStage a (diskView s) (diskStage s.drv.call)) (hd : d ∈ s.todo)
    (hex : executeBlk s.drv.sectors (s.drv.requests .blk).vq.descs d s.mem s.disk
      = some (mem, disk)) :
    AtStage a (diskView { s with mem, disk, todo := s.todo.erase d }) (diskStage s.drv.call) := by
  obtain ⟨buf, sector, isWrite, hstage, _, _, hu⟩ := execute_transfers h hd hex
  rw [hstage] at h ⊢
  exact ⟨h.1, h.2.1, hu⟩

/-- The request is given back. -/
theorem atStage_giveBack {ev : DeviceEvent} {q : Queue} (hinv : DriversInv s.drv)
    (h : AtStage a (diskView s) (diskStage s.drv.call))
    (hs : DeviceStep (s.drv.requests .blk) ev q) (hev : ∀ d, ev ≠ .take d)
    (hdone : ∀ e, q.dev.filled = some e → e.id ∉ s.todo) :
    AtStage a (diskView { s with drv := s.drv.setRequests .blk q }) (diskStage s.drv.call) := by
  obtain ⟨n, buf, sector, isWrite, hf, hstage⟩ := hinv.underway_of_device hs
  rw [diskView_setRequests hs]
  rw [hstage] at h ⊢
  obtain ⟨hlt, hdesc, hu⟩ := h
  refine ⟨hlt, hdesc, ?_⟩
  have hlast : q.dev.lastAvail = (s.drv.requests .blk).dev.lastAvail := by
    cases hs with
    | take _ => exact absurd rfl (hev _)
    | fill _ _ _ => rfl
    | publish _ => rfl
  cases hu with
  | executed heq htodo ht => exact .executed (hlast.trans heq) htodo ht
  | offered hne _ _ _ =>
      have ho := hf.offered_of_take hne
      cases hs with
      | take _ => exact absurd rfl (hev _)
      | fill _ hd _ =>
          rw [show (s.drv.requests .blk).dev.held = [] from ho.held] at hd
          cases hd
      | publish hfill =>
          rw [show (s.drv.requests .blk).dev.filled = none from ho.filled] at hfill
          cases hfill
  | taken _ htodo hheld hfilled _ _ =>
      -- it is not executed yet
      cases hs with
      | take _ => exact absurd rfl (hev _)
      | @fill d len _ hd _ =>
          rw [show (s.drv.requests .blk).dev.held = [0] from hheld, List.mem_singleton] at hd
          refine absurd ?_ (hdone ⟨d, len⟩ rfl)
          rw [show s.todo = [0] from htodo, hd]
          exact List.mem_singleton_self 0
      | publish hfill =>
          rw [show (s.drv.requests .blk).dev.filled = none from hfilled] at hfill
          cases hfill

end

/-! ## Runs -/

/-- A step of the drivers, or none. -/
theorem diskStep_drv {s s' : DiskState} {l : DiskLabel} (hs : DiskStep s l s') :
    s'.drv = s.drv ∨ ∃ l', DriversStep s.drv l' s'.drv := by
  cases hs with
  | drivers h _ _ _ => exact Or.inr ⟨_, h⟩
  | reject _ h => exact Or.inr ⟨_, h⟩
  | fill _ h _ => exact Or.inr ⟨_, h⟩
  | descs _ h => exact Or.inr ⟨_, h⟩
  | ret _ h _ => exact Or.inr ⟨_, h⟩
  | take h => exact Or.inr ⟨_, .device (d := .blk) (q := 0) Nat.one_pos h⟩
  | execute _ _ => exact Or.inl rfl
  | giveBack h _ _ => exact Or.inr ⟨_, .device (d := .blk) (q := 0) Nat.one_pos h⟩

theorem driversStep_sectors {s s' : Drivers} {l : CallLabel} (hs : DriversStep s l s') :
    s'.sectors = s.sectors := by
  cases hs with
  | @fill c _ _ => cases c <;> rfl
  | _ => rfl

/-- What holds in every state, with `a` on the disk after the calls that have returned. -/
structure DiskOk (sectors : Nat) (a : Nat → Sector) (s : DiskState) : Prop where
  drv : DriversInv s.drv
  sectors : s.drv.sectors = sectors
  stage : AtStage a (diskView s) (diskStage s.drv.call)

section

variable {sectors : Nat} {disk a : Nat → Sector} {s s' : DiskState} {tr : List DiskLabel}
  {buf buf' : Bytes} {sector : Nat} {isWrite : Bool}

/-- A write to a sector of the disk. -/
theorem sectorWrite_inside (h : sector < sectors) :
    sectorWrite sectors (.done buf sector true buf') = some (sector, sectorAt buf 0) := if_pos h

/-- A call for any other sector writes none. -/
theorem sectorWrite_outside (h : ¬ sector < sectors) :
    sectorWrite sectors (.done buf sector isWrite buf') = none := by
  cases isWrite with
  | true => exact if_neg h
  | false => rfl

theorem DiskOk.step (h : DiskOk sectors a s) {l : DiskLabel} (hs : DiskStep s l s') :
    DriversInv s'.drv ∧ s'.drv.sectors = sectors := by
  rcases diskStep_drv hs with heq | ⟨l', hstep⟩
  · rw [heq]
    exact ⟨h.drv, h.sectors⟩
  · exact ⟨driversInv_step h.drv hstep, (driversStep_sectors hstep).trans h.sectors⟩

/-- **Until a call returns, the array stays the same.** -/
theorem DiskOk.quiet (h : DiskOk sectors a s) (hs : DiskStep s .quiet s') :
    DiskOk sectors a s' := by
  obtain ⟨hdrv, hsectors⟩ := h.step hs
  refine ⟨hdrv, hsectors, ?_⟩
  cases hs with
  | drivers hstep hl hdev hsector => exact atStage_drivers h.drv h.stage hstep hl hdev hsector
  | fill hcall hstep hmem => exact atStage_fill h.stage hcall hstep hmem
  | descs hcall hstep => exact atStage_descs h.stage hcall hstep
  | take hstep => exact atStage_take h.drv h.stage hstep
  | execute hd hex => exact atStage_execute h.stage hd hex
  | giveBack hstep hev hdone => exact atStage_giveBack h.drv h.stage hstep hev hdone

/-- **A call returns what an array of sectors answers**, and leaves what an array is left with. -/
theorem DiskOk.done (h : DiskOk sectors a s) (hs : DiskStep s (.done buf sector isWrite buf') s') :
    DiskOk sectors (replayStep (sectorWrite sectors) a (.done buf sector isWrite buf')) s'
      ∧ buf' = sectorAnswer sectors a buf sector isWrite := by
  obtain ⟨hdrv, hsectors⟩ := h.step hs
  have hstage := h.stage
  cases hs with
  | reject hcall hstep =>
      cases hstep with
      | ret hcall' _ => rw [hcall] at hcall'; cases hcall'
      | reject _ _ hacc =>
          have hout : ¬ sector < sectors := by
            rw [← h.sectors]
            exact hacc
          rw [replayStep_none (sectorWrite_outside hout)]
          refine ⟨⟨hdrv, hsectors, hstage⟩, ?_⟩
          unfold sectorAnswer
          rw [if_neg fun h => hout h.1]
  | ret hcall hstep hbuf =>
      cases hstep with
      | reject hcall' _ _ => rw [hcall] at hcall'; cases hcall'
      | ret _ _ =>
          obtain ⟨hlt, htodo, ht⟩ := transferred_of_finish hstage hcall
          rw [h.sectors] at hlt
          have hfin := ht.finish hlt
          rw [hbuf] at hfin
          injection hfin with hfin
          refine ⟨⟨hdrv, hsectors, htodo, ?_⟩, hfin⟩
          show s.disk = _
          rw [ht.disk]
          cases isWrite with
          | true => rw [replayStep_some (sectorWrite_inside hlt), if_pos rfl]
          | false => rw [replayStep_none rfl, if_neg fun h => by cases h]

/-- The invariant: the disk is the array, and every answer was that of the array. -/
structure DiskInv (sectors : Nat) (disk : Nat → Sector) (tr : List DiskLabel) (s : DiskState) :
    Prop where
  ok : DiskOk sectors (replay (sectorWrite sectors) disk tr) s
  answers : ∀ (j : Nat) buf sector isWrite buf',
    tr[j]? = some (.done buf sector isWrite buf') →
    buf' = sectorAnswer sectors (replay (sectorWrite sectors) disk (tr.take j)) buf sector isWrite

theorem diskInv_start (h : DiskStart sectors disk s) : DiskInv sectors disk [] s := by
  obtain ⟨hdrv, hsectors, hdisk, htodo⟩ := h
  refine ⟨⟨driversInv_start hdrv, hsectors, ?_⟩, fun j buf sector isWrite buf' hj => ?_⟩
  · rw [hdrv.1]
    exact ⟨htodo, hdisk⟩
  · rw [List.getElem?_nil] at hj
    cases hj

theorem diskInv_step (h : DiskInv sectors disk tr s) {l : DiskLabel} (hs : DiskStep s l s') :
    DiskInv sectors disk (tr ++ [l]) s' := by
  have hold : ∀ (j : Nat) buf sector isWrite buf', tr[j]? = some (.done buf sector isWrite buf') →
      buf' = sectorAnswer sectors
        (replay (sectorWrite sectors) disk ((tr ++ [l]).take j)) buf sector isWrite := by
    intro j buf sector isWrite buf' hj
    have hlt := lt_of_getElem? hj
    rw [take_snoc (by omega)]
    exact h.answers j buf sector isWrite buf' hj
  cases l with
  | quiet =>
      refine ⟨?_, fun j buf sector isWrite buf' hj => hold j buf sector isWrite buf' ?_⟩
      · rw [replay_snoc, replayStep_none rfl]
        exact h.ok.quiet hs
      · exact (getElem?_snoc_iff.mp hj).resolve_right fun h => by cases h.2
  | done buf sector isWrite buf' =>
      obtain ⟨hok, hbuf⟩ := h.ok.done hs
      refine ⟨by rw [replay_snoc]; exact hok, fun j b x w b' hj => ?_⟩
      rcases getElem?_snoc_iff.mp hj with hj | ⟨rfl, heq⟩
      · exact hold j b x w b' hj
      · injection heq with h1 h2 h3 h4
        subst h1 h2 h3 h4
        rw [take_snoc (Nat.le_refl _), List.take_length]
        exact hbuf

theorem diskInv_run (h : Run (DiskStart sectors disk) DiskStep tr s) : DiskInv sectors disk tr s :=
  h.invariant_trace (fun _ h => diskInv_start h) fun _ _ _ _ _ h hs => diskInv_step h hs

end

end Os1000.Proof
