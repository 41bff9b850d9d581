import Os1000.Kernel.Process
import Os1000.Alloc.Partition

/-!
# What the primitive updates touch

Field by field, what `setProc`, `setObj` and `setMapping` leave alone, and what
recording a region amounts to while the record still fits `struct process`:
`recordRegion` is `Process.record` on the one process, up to and including the write
that runs one word past `regions` and lands on `current_idx`.
-/

namespace Os1000.Proof

open Os1000 Lib

section Fields

variable (k : Kernel) (p s i : Nat) (f : Process → Process) (o : ShmObject) (m : ShmMapping)

@[simp] theorem setProc_toRam : (k.setProc p f).toRam = k.toRam := rfl
@[simp] theorem setProc_currentProc : (k.setProc p f).currentProc = k.currentProc := rfl
@[simp] theorem setProc_idleProc : (k.setProc p f).idleProc = k.idleProc := rfl
@[simp] theorem setProc_shmTable : (k.setProc p f).shmTable = k.shmTable := rfl
@[simp] theorem setProc_nextShmId : (k.setProc p f).nextShmId = k.nextShmId := rfl
@[simp] theorem setProc_driverRegions : (k.setProc p f).driverRegions = k.driverRegions := rfl
@[simp] theorem setProc_shmCreated : (k.setProc p f).shmCreated = k.shmCreated := rfl
@[simp] theorem setProc_shmReleased : (k.setProc p f).shmReleased = k.shmReleased := rfl

@[simp] theorem setProc_self : (k.setProc p f).procs p = f (k.procs p) := by
  simp [Kernel.setProc]

theorem setProc_of_ne {q : Nat} (h : q ≠ p) : (k.setProc p f).procs q = k.procs q := by
  simp [Kernel.setProc, Function.update_of_ne h]

@[simp] theorem setObj_toRam : (k.setObj s o).toRam = k.toRam := rfl
@[simp] theorem setObj_procs : (k.setObj s o).procs = k.procs := rfl
@[simp] theorem setObj_currentProc : (k.setObj s o).currentProc = k.currentProc := rfl
@[simp] theorem setObj_idleProc : (k.setObj s o).idleProc = k.idleProc := rfl
@[simp] theorem setObj_nextShmId : (k.setObj s o).nextShmId = k.nextShmId := rfl
@[simp] theorem setObj_driverRegions : (k.setObj s o).driverRegions = k.driverRegions := rfl
@[simp] theorem setObj_shmCreated : (k.setObj s o).shmCreated = k.shmCreated := rfl
@[simp] theorem setObj_shmReleased : (k.setObj s o).shmReleased = k.shmReleased := rfl

@[simp] theorem setObj_self : (k.setObj s o).shmTable s = o := by simp [Kernel.setObj]

theorem setObj_of_ne {s' : Nat} (h : s' ≠ s) : (k.setObj s o).shmTable s' = k.shmTable s' := by
  simp [Kernel.setObj, Function.update_of_ne h]

@[simp] theorem setMapping_toRam : (k.setMapping p i m).toRam = k.toRam := rfl
@[simp] theorem setMapping_currentProc : (k.setMapping p i m).currentProc = k.currentProc := rfl
@[simp] theorem setMapping_idleProc : (k.setMapping p i m).idleProc = k.idleProc := rfl
@[simp] theorem setMapping_shmTable : (k.setMapping p i m).shmTable = k.shmTable := rfl
@[simp] theorem setMapping_nextShmId : (k.setMapping p i m).nextShmId = k.nextShmId := rfl
@[simp] theorem setMapping_driverRegions :
    (k.setMapping p i m).driverRegions = k.driverRegions := rfl
@[simp] theorem setMapping_shmCreated : (k.setMapping p i m).shmCreated = k.shmCreated := rfl
@[simp] theorem setMapping_shmReleased : (k.setMapping p i m).shmReleased = k.shmReleased := rfl

@[simp] theorem setMapping_self : (k.setMapping p i m).procs p
    = { k.procs p with shmMappings := Function.update (k.procs p).shmMappings i m } :=
  setProc_self ..

theorem setMapping_of_ne {q : Nat} (h : q ≠ p) : (k.setMapping p i m).procs q = k.procs q :=
  setProc_of_ne _ _ _ h

@[simp] theorem noteWrite_self (n : Nat) : (k.noteWrite p n).procs p
    = { k.procs p with regionWrites := (k.procs p).regionWrites ++ [n] } :=
  setProc_self ..

end Fields

/-- Two updates of one process are one. -/
theorem setProc_setProc (k : Kernel) (p : Nat) (f g : Process → Process) :
    (k.setProc p f).setProc p g = k.setProc p fun q => g (f q) := by
  simp [Kernel.setProc]

/-- An update only sees the process it is applied to. -/
theorem setProc_congr {k : Kernel} {p : Nat} {f g : Process → Process}
    (h : f (k.procs p) = g (k.procs p)) : k.setProc p f = k.setProc p g := by
  unfold Kernel.setProc; rw [h]

/-! ## Recording a region -/

/-- What recording region `r` does to a process whose record has at most one word too many. -/
def Process.record (q : Process) (r : Nat) : Process :=
  if q.currentIdx < procRegionMax then
    { q with
      regions := Function.update q.regions q.currentIdx r
      currentIdx := q.currentIdx + 1
      appended := q.appended ++ [r]
      regionWrites := q.regionWrites ++ [q.currentIdx] }
  else
    { q with
      currentIdx := r
      appended := q.appended ++ [r]
      regionWrites := q.regionWrites ++ [q.currentIdx] }

theorem recordRegion_eq (L : Layout) {k : Kernel} {p : Nat} (r : Nat)
    (h : (k.procs p).currentIdx ≤ procRegionMax) :
    recordRegion L k p r = k.setProc p fun q => Process.record q r := by
  have hu : u32 ((k.procs p).currentIdx + 1) = (k.procs p).currentIdx + 1 :=
    u32_of_lt (by unfold procRegionMax at h; omega)
  unfold recordRegion setRegion Kernel.noteWrite
  dsimp only
  rw [hu]
  by_cases hlt : (k.procs p).currentIdx < procRegionMax
  · rw [if_pos hlt, setProc_setProc, setProc_setProc]
    exact setProc_congr (by simp [Process.record, hlt])
  · have hmw : (k.procs p).currentIdx < mappingsWord := by unfold mappingsWord; omega
    rw [if_neg hlt, if_pos hmw, setProc_setProc, setProc_setProc]
    exact setProc_congr (by simp [Process.record, hlt])

section Record

variable (q : Process) (r : Nat)

@[simp] theorem record_pid : (Process.record q r).pid = q.pid := by
  unfold Process.record; split <;> rfl
@[simp] theorem record_state : (Process.record q r).state = q.state := by
  unfold Process.record; split <;> rfl
@[simp] theorem record_pageTable : (Process.record q r).pageTable = q.pageTable := by
  unfold Process.record; split <;> rfl
@[simp] theorem record_shmMappings : (Process.record q r).shmMappings = q.shmMappings := by
  unfold Process.record; split <;> rfl
@[simp] theorem record_appended : (Process.record q r).appended = q.appended ++ [r] := by
  unfold Process.record; split <;> rfl
@[simp] theorem record_imageRegions : (Process.record q r).imageRegions = q.imageRegions := by
  unfold Process.record; split <;> rfl

end Record

/--
The record of a process agrees with what was appended to it. It may be one entry too
long: the 65th index was written one word past `regions`, over `current_idx`.
-/
structure Recorded (q : Process) : Prop where
  len : q.appended.length ≤ procRegionMax + 1
  entry : ∀ n r, n < procRegionMax → q.appended[n]? = some r → q.regions n = r
  idx : q.appended.length ≤ procRegionMax → q.currentIdx = q.appended.length
  overrun : ∀ r, q.appended[procRegionMax]? = some r → q.currentIdx = r

/-- Recording keeps the agreement as long as at most one word is overrun. -/
theorem recorded_record {q : Process} {r : Nat} (h : Recorded q)
    (hlen : q.appended.length ≤ procRegionMax) : Recorded (Process.record q r) := by
  have hidx := h.idx hlen
  refine ⟨by simpa using hlen, ?_, ?_, ?_⟩
  · intro n r' hn hr'
    rw [record_appended, List.getElem?_append] at hr'
    unfold Process.record
    rw [hidx]
    split at hr'
    · rename_i hlt
      have hne : n ≠ q.appended.length := by omega
      split
      · simp [Function.update_of_ne hne, h.entry n r' hn hr']
      · exact h.entry n r' hn hr'
    · rename_i hge
      have hn' : n = q.appended.length := by
        by_contra hne
        have : n - q.appended.length ≠ 0 := by omega
        rw [List.getElem?_eq_none (by simp; omega)] at hr'
        cases hr'
      subst hn'
      have : r = r' := by simpa using hr'
      rw [if_pos hn]
      simp [this]
  · intro hle
    rw [record_appended, List.length_append, List.length_singleton] at hle ⊢
    unfold Process.record
    rw [hidx, if_pos (by omega)]
  · intro r' hr'
    rw [record_appended, List.getElem?_append] at hr'
    split at hr'
    · omega
    · have hz : procRegionMax - q.appended.length = 0 := by
        by_contra hne
        rw [List.getElem?_eq_none (by simp; omega)] at hr'
        cases hr'
      have he : q.appended.length = procRegionMax := by omega
      have : r = r' := by simpa [he] using hr'
      have hnot : ¬ q.currentIdx < procRegionMax := by omega
      simp [Process.record, hnot, this]

/-! ## Work on one process -/

/-- Apart from memory and the allocator only process `p` has changed. -/
structure Local (p : Nat) (k k' : Kernel) : Prop where
  procs : ∀ q, q ≠ p → k'.procs q = k.procs q
  currentProc : k'.currentProc = k.currentProc
  idleProc : k'.idleProc = k.idleProc
  shmTable : k'.shmTable = k.shmTable
  nextShmId : k'.nextShmId = k.nextShmId
  driverRegions : k'.driverRegions = k.driverRegions
  shmCreated : k'.shmCreated = k.shmCreated
  shmReleased : k'.shmReleased = k.shmReleased

/-- Process `p` has been worked on: it may own more regions now, and nothing was released. -/
structure Grow (p : Nat) (k k' : Kernel) : Prop extends Local p k k' where
  pid : (k'.procs p).pid = (k.procs p).pid
  state : (k'.procs p).state = (k.procs p).state
  appended : ∃ new, (k'.procs p).appended = (k.procs p).appended ++ new
  writes : (k.procs p).regionWrites <+: (k'.procs p).regionWrites
  freed : k'.freed = k.freed

section Work

variable {L : Layout} {p : Nat} {k k' k'' : Kernel}

theorem Local.refl (p : Nat) (k : Kernel) : Local p k k :=
  ⟨fun _ _ => rfl, rfl, rfl, rfl, rfl, rfl, rfl, rfl⟩

theorem Local.trans (h : Local p k k') (h' : Local p k' k'') : Local p k k'' where
  procs q hq := (h'.procs q hq).trans (h.procs q hq)
  currentProc := h'.currentProc.trans h.currentProc
  idleProc := h'.idleProc.trans h.idleProc
  shmTable := h'.shmTable.trans h.shmTable
  nextShmId := h'.nextShmId.trans h.nextShmId
  driverRegions := h'.driverRegions.trans h.driverRegions
  shmCreated := h'.shmCreated.trans h.shmCreated
  shmReleased := h'.shmReleased.trans h.shmReleased

theorem local_setProc (k : Kernel) (p : Nat) (f : Process → Process) : Local p k (k.setProc p f) :=
  ⟨fun _ hq => setProc_of_ne _ _ _ hq, rfl, rfl, rfl, rfl, rfl, rfl, rfl⟩

theorem local_setRam (p : Nat) (k : Kernel) (r : Ram) : Local p k { k with toRam := r } :=
  ⟨fun _ _ => rfl, rfl, rfl, rfl, rfl, rfl, rfl, rfl⟩

theorem Grow.refl (p : Nat) (k : Kernel) : Grow p k k :=
  ⟨Local.refl p k, rfl, rfl, ⟨[], by simp⟩, List.prefix_rfl, rfl⟩

theorem Grow.trans (h : Grow p k k') (h' : Grow p k' k'') : Grow p k k'' := by
  refine ⟨h.toLocal.trans h'.toLocal, h'.pid.trans h.pid, h'.state.trans h.state, ?_,
    h.writes.trans h'.writes, h'.freed.trans h.freed⟩
  obtain ⟨new, e⟩ := h.appended
  obtain ⟨new', e'⟩ := h'.appended
  exact ⟨new ++ new', by rw [e', e, List.append_assoc]⟩

theorem Grow.length_le (h : Grow p k k') :
    (k.procs p).appended.length ≤ (k'.procs p).appended.length := by
  obtain ⟨new, e⟩ := h.appended
  rw [e, List.length_append]
  exact Nat.le_add_right _ _

/-- An update of the process that leaves its identity alone. -/
theorem grow_setProc {f : Process → Process} (hpid : (f (k.procs p)).pid = (k.procs p).pid)
    (hst : (f (k.procs p)).state = (k.procs p).state)
    (happ : ∃ new, (f (k.procs p)).appended = (k.procs p).appended ++ new)
    (hw : (k.procs p).regionWrites <+: (f (k.procs p)).regionWrites) :
    Grow p k (k.setProc p f) :=
  ⟨local_setProc k p f, by rw [setProc_self, hpid], by rw [setProc_self, hst],
    by rw [setProc_self]; exact happ, by rw [setProc_self]; exact hw, rfl⟩

theorem grow_setRam (p : Nat) {k : Kernel} {r : Ram} (h : r.freed = k.freed) :
    Grow p k { k with toRam := r } :=
  ⟨local_setRam p k r, rfl, rfl, ⟨[], by simp⟩, List.prefix_rfl, h⟩

theorem grow_setMem (p : Nat) (k : Kernel) (m : Mem) : Grow p k { k with mem := m } :=
  ⟨local_setRam p k _, rfl, rfl, ⟨[], by simp⟩, List.prefix_rfl, rfl⟩

theorem grow_setRegion (L : Layout) (k : Kernel) (p n v : Nat) :
    Grow p k (setRegion L k p n v) := by
  have hnote : Grow p k (k.noteWrite p n) :=
    grow_setProc rfl rfl ⟨[], by simp⟩ (List.prefix_append _ _)
  refine hnote.trans ?_
  unfold setRegion
  dsimp only
  split
  · exact grow_setProc rfl rfl ⟨[], by simp⟩ List.prefix_rfl
  · split
    · exact grow_setProc rfl rfl ⟨[], by simp⟩ List.prefix_rfl
    · split
      · exact grow_setProc rfl rfl ⟨[], by simp⟩ List.prefix_rfl
      · exact grow_setMem p _ _

/-- The fields of the process that no word from `regions` on overlaps. -/
theorem setRegion_fields (L : Layout) (k : Kernel) (p n v : Nat) :
    ((setRegion L k p n v).procs p).appended = (k.procs p).appended
      ∧ ((setRegion L k p n v).procs p).pageTable = (k.procs p).pageTable
      ∧ ((setRegion L k p n v).procs p).imageRegions = (k.procs p).imageRegions
      ∧ ((setRegion L k p n v).procs p).regionWrites = (k.procs p).regionWrites ++ [n] := by
  unfold setRegion
  dsimp only
  split
  · simp
  · split
    · simp
    · split
      · simp
      · simp

/-- Whatever word it is written to, the index counts as appended. -/
theorem recordRegion_appended (L : Layout) (k : Kernel) (p r : Nat) :
    ((recordRegion L k p r).procs p).appended = (k.procs p).appended ++ [r] := by
  unfold recordRegion
  dsimp only
  rw [(setRegion_fields L _ p _ _).1, setProc_self]

theorem recordRegion_pageTable (L : Layout) (k : Kernel) (p r : Nat) :
    ((recordRegion L k p r).procs p).pageTable = (k.procs p).pageTable := by
  unfold recordRegion
  dsimp only
  rw [(setRegion_fields L _ p _ _).2.1, setProc_self]

theorem recordRegion_imageRegions (L : Layout) (k : Kernel) (p r : Nat) :
    ((recordRegion L k p r).procs p).imageRegions = (k.procs p).imageRegions := by
  unfold recordRegion
  dsimp only
  rw [(setRegion_fields L _ p _ _).2.2.1, setProc_self]

theorem grow_recordRegion (L : Layout) (k : Kernel) (p r : Nat) :
    Grow p k (recordRegion L k p r) :=
  (grow_setProc (f := fun q => { q with
      currentIdx := u32 ((k.procs p).currentIdx + 1), appended := q.appended ++ [r] })
    rfl rfl ⟨[r], rfl⟩ List.prefix_rfl).trans (grow_setRegion L _ p _ _)

end Work

end Os1000.Proof
