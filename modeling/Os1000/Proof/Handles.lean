import Mathlib.Data.List.Nodup
import Os1000.Proof.Ownership

/-!
# Calls keep the ledger in order

Call by call, that ownership survives. Two of them can break it: `create_process`
and `shm_attach` append to a record of fixed size, and past its end they write over
the rest of `struct process`. Up to one word too many the record still says what the
process owns, because the one word it reaches is `current_idx`, and the index written
there is the last one appended. So the condition is on the length of the record, and
while an address space is under construction the invariant is carried relative to it.
-/

namespace Os1000.Proof

open Os1000 Lib

variable {L : Layout} {X X' : Nat → Prop} {k k' : Kernel} {p : Nat}

/-! ## Building an address space -/

/--
Ownership, and the mappings still being `f`, as long as the record of process `p` has
not run further over its end.
-/
def OwnIf (L : Layout) (X : Nat → Prop) (f : Nat → ShmMapping) (p : Nat) (k : Kernel) : Prop :=
  (k.procs p).appended.length ≤ procRegionMax + 1 → Own L X k ∧ (k.procs p).shmMappings = f

variable {f : Nat → ShmMapping}

theorem OwnIf.setMem (h : OwnIf L X f p k) (m : Mem) : OwnIf L X f p { k with mem := m } :=
  fun hlen => ⟨(h hlen).1.setMem m, (h hlen).2⟩

theorem OwnIf.record (h : OwnIf L X f p k) (hp : p < procsMax) {paddr idx : Nat} {r : Ram}
    (ha : allocPages k.toRam 1 = .ok (paddr, idx, r)) :
    OwnIf L X f p (recordRegion L { k with toRam := r } p idx) := by
  intro hlen
  rw [recordRegion_appended, List.length_append, List.length_singleton] at hlen
  have hlen : (k.procs p).appended.length ≤ procRegionMax := Nat.le_of_succ_le_succ hlen
  obtain ⟨ho, hm⟩ := h (Nat.le_succ_of_le hlen)
  refine ⟨ho.record hp hlen ha, ?_⟩
  rw [ho.recordRegion_eq hp hlen, setProc_self, record_shmMappings]
  exact hm

theorem ownIf_ensureTable {v1 : Nat} (hp : p < procsMax) (h : OwnIf L X f p k)
    (he : ensureTable L k p v1 = .ok k') : OwnIf L X f p k' := by
  rcases ensureTable_ok he with ⟨_, rfl⟩ | ⟨_, pt, idx, r, ha, rfl⟩
  · exact h
  · exact (h.record hp ha).setMem _

theorem ownIf_mapPage {vaddr paddr flags : Nat} (hp : p < procsMax) (h : OwnIf L X f p k)
    (hm : mapPage L k p vaddr paddr flags = .ok k') : OwnIf L X f p k' := by
  obtain ⟨_, _, k1, h1, rfl⟩ := mapPage_ok hm
  exact (ownIf_ensureTable hp h h1).setMem _

theorem ownIf_allocPageTable (hp : p < procsMax) (h : Own L X k)
    (hf : (k.procs p).shmMappings = f) (hpt : allocPageTable L k p = .ok k') :
    OwnIf L X f p k' := by
  obtain ⟨pt, idx, r, ha, rfl⟩ := allocPageTable_ok hpt
  have h1 : Own L X (k.setProc p fun q => { q with pageTable := pt }) :=
    h.setProc p rfl rfl rfl (h.window p hp)
  exact OwnIf.record (fun _ => ⟨h1, by rw [setProc_self]; exact hf⟩) hp ha

theorem ownIf_imaged {page region : Nat} {r : Ram} {bytes : List UInt8} (hp : p < procsMax)
    (h : OwnIf L X f p k) (ha : allocPages k.toRam 1 = .ok (page, region, r)) :
    OwnIf L X f p (imaged L k p page region r bytes) := by
  intro hlen
  unfold imaged at hlen ⊢
  dsimp only at hlen ⊢
  rw [setProc_self] at hlen
  obtain ⟨h1, hm⟩ := h.record hp ha hlen
  refine ⟨(h1.setProc p rfl rfl rfl (h1.window p hp)).setMem _, ?_⟩
  rw [setProc_self]
  exact hm

/-- **What is built is owned**, if the record was long enough for it. -/
theorem ownIf_buildSpace {image : List UInt8} (hp : p < procsMax) (h : Own L X k)
    (hf : (k.procs p).shmMappings = f) (hb : buildSpace L k p image = .ok k') :
    OwnIf L X f p k' :=
  buildSpace_inv (OwnIf L X f p) (fun _ h1 => ownIf_allocPageTable hp h hf h1)
    (fun _ _ _ _ _ ht hm => ownIf_mapPage hp ht hm)
    (fun _ _ _ _ _ ht ha => ownIf_imaged hp ht ha) hb

theorem recorded_nil {q : Process} (ha : q.appended = []) (hi : q.currentIdx = 0) :
    Recorded q := by
  refine ⟨by rw [ha]; exact Nat.zero_le _, ?_, ?_, ?_⟩
  · intro n r _ hr
    rw [ha] at hr
    cases hr
  · intro _
    rw [ha, hi]; rfl
  · intro r hr
    rw [ha] at hr
    cases hr

/-- Resetting a slot that owns nothing. -/
theorem Own.reset (h : Own L X k) (hr : Reset L p k k') (hnil : (k.procs p).appended = []) :
    Own L X k' := by
  refine h.same hr.table ?_ ?_ hr.driverRegions ?_ ?_
  · intro q _
    by_cases hq : q = p
    · rw [hq, hr.appended, hnil]
    · rw [hr.procs q hq]
  · intro q hlt
    by_cases hq : q = p
    · rw [hq]; exact recorded_nil hr.appended hr.currentIdx
    · rw [hr.procs q hq]; exact h.recorded q hlt
  · intro s _
    rw [hr.shmTable]
    exact ⟨rfl, rfl, rfl⟩
  · intro q hlt i hi hu
    by_cases hq : q = p
    · rw [hq, hr.mappings i hi] at hu
      exact absurd rfl hu
    · rw [hr.procs q hq] at hu ⊢
      exact h.window q hlt i hi hu

theorem own_createProcess {image : List UInt8} (h : Own L X k)
    (hnil : ∀ q, q < procsMax → (k.procs q).state = .unused → (k.procs q).appended = [])
    (hc : createProcess L k image = .ok (p, k'))
    (hlen : (k'.procs p).appended.length ≤ procRegionMax + 1) :
    Own L X k' ∧ ∀ i, i < procShmMax → (k'.procs p).shmMappings i = .cleared := by
  obtain ⟨hp, hu, _, k1, hb, rfl⟩ := createProcess_ok hc
  rw [setProc_self] at hlen
  have hr := resetProcess_spec L k p
  have h0 := h.reset hr (hnil p hp hu)
  obtain ⟨h1, hm⟩ := ownIf_buildSpace hp h0 rfl hb hlen
  refine ⟨h1.setProc p rfl rfl rfl (h1.window p hp), ?_⟩
  intro i hi
  rw [setProc_self]
  dsimp only
  rw [hm]
  exact hr.mappings i hi

/-! ## Shared memory -/

theorem own_shmGet {key ret : Int} (h : Own L X k) (hg : shmGet k key = .ok (ret, k')) :
    Own L X k' := by
  rcases shmGet_ok hg with ⟨_, rfl⟩ | ⟨s, _, _, rfl⟩ | ⟨_, _, s, pa, idx, r, hs, hu, ha, _, rfl⟩
  · exact h
  · exact h
  · exact h.created hs hu ha

theorem own_shmAttach {id : Int} {ret : Nat} (hp : p < procsMax) (h : Own L X k)
    (hat : shmAttach L k p id = .ok (ret, k'))
    (hlen : (k'.procs p).appended.length ≤ procRegionMax + 1) : Own L X k' := by
  rcases shmAttach_ok hat with ⟨_, rfl⟩ | ⟨s, slot, k1, _, _, _, hm, _, rfl⟩
  · exact h
  · unfold attached at hlen ⊢
    rw [setObj_procs, setMapping_self] at hlen
    have h1 := (ownIf_mapPage hp (fun _ => ⟨h, rfl⟩) hm hlen).1
    exact (h1.setMapping p hp fun _ => rfl).setRefcount s _

/-- The object in slot `s` is destroyed. -/
theorem Own.destroyed (h : Own L X k) {s : Nat} (hs : s < shmMax)
    (hu : (k.shmTable s).used = true) {r : Ram}
    (hr : releasePages k.toRam ((k.shmTable s).regionIdx : Int) = .ok r) :
    Own L X (destroyed k s r) := by
  have hself : (Proof.destroyed k s r).shmTable s = .cleared := setObj_self ..
  have hother : ∀ s', s' ≠ s → (Proof.destroyed k s r).shmTable s' = k.shmTable s' :=
    fun s' hs' => setObj_of_ne _ _ _ hs'
  refine h.giveBack (o := .shm s) (released_one h.part hr) ?_ ?_ (fun _ hx => hx) ?_ ?_
    h.nodup rfl h.recorded ?_ h.window
  · intro i hi
    rw [List.mem_singleton] at hi
    exact ⟨hs, hu, hi.symm⟩
  · rintro i ⟨_, _, e⟩ hni
    exact absurd (List.mem_singleton.mpr e.symm) hni
  · rintro i ⟨_, hu', _⟩
    rw [hself] at hu'
    cases hu'
  · intro o' i ho
    cases o' with
    | driver => exact Iff.rfl
    | proc q => exact Iff.rfl
    | shm s' =>
        have hne : s' ≠ s := fun e => ho (e ▸ rfl)
        rw [holds_shm, holds_shm, hother s' hne]
  · intro s' _ hu'
    have hne : s' ≠ s := by
      rintro rfl
      rw [hself] at hu'
      cases hu'
    exact hother s' hne

/-- `release_pages` never refuses an object's region. -/
theorem Own.release_obj (h : Own L X k) {s : Nat} (hs : s < shmMax)
    (hu : (k.shmTable s).used = true) :
    ∃ r, releasePages k.toRam ((k.shmTable s).regionIdx : Int) = .ok r := by
  obtain ⟨h1, h2⟩ := h.of_holds (o := .shm s) ⟨hs, hu, rfl⟩
  exact ⟨_, releasePages_of_allocated h1 h2⟩

theorem own_shmPut {s : Nat} (h : Own L X k) (hs : s < shmMax)
    (hu : (k.shmTable s).used = true) (hput : shmPut k s = .ok k') : Own L X k' := by
  rcases shmPut_ok hput with ⟨_, rfl⟩ | ⟨_, r, hr, rfl⟩
  · exact h.setRefcount s _
  · exact h.destroyed hs hu hr

theorem own_unmapPage {vaddr : Nat} (h : Own L X k) (hun : unmapPage k p vaddr = .ok k') :
    Own L X k' := by
  rcases unmapPage_ok hun with ⟨_, rfl⟩ | ⟨_, rfl⟩
  · exact h
  · exact h.setMem _

theorem unmapPage_shmTable {vaddr : Nat} (h : unmapPage k p vaddr = .ok k') :
    k'.shmTable = k.shmTable ∧ k'.procs = k.procs ∧ k'.freed = k.freed := by
  rcases unmapPage_ok h with ⟨_, rfl⟩ | ⟨_, rfl⟩
  · exact ⟨rfl, rfl, rfl⟩
  · exact ⟨rfl, rfl, rfl⟩

theorem own_shmDetach {vaddr : Nat} {ret : Int} (hp : p < procsMax) (h : Own L X k)
    (hd : shmDetach k p vaddr = .ok (ret, k')) : Own L X k' := by
  rcases shmDetach_ok hd with ⟨_, rfl, _⟩ | ⟨_, i, k1, _, hun, ⟨_, rfl⟩ | ⟨s, hid, hput⟩⟩
  · exact h
  · exact (own_unmapPage h hun).setMapping p hp fun hu => absurd rfl hu
  · have h1 := (own_unmapPage h hun).setMapping p (i := i) (m := .cleared) hp
      fun hu => absurd rfl hu
    obtain ⟨hs, hu, _⟩ := findById_some hid
    refine own_shmPut h1 hs ?_ hput
    rw [setMapping_shmTable, (unmapPage_shmTable hun).1]
    exact hu

theorem slotAddr_aligned (i : Nat) : slotAddr i % pageSize = 0 := by
  unfold slotAddr shmUserBase shmPageSize pageSize
  omega

/-- **`shm_detach` never panics.** -/
theorem shmDetach_total (vaddr : Nat) (hp : p < procsMax) (h : Own L X k) :
    ∃ ret k', shmDetach k p vaddr = .ok (ret, k') := by
  unfold shmDetach
  dsimp only
  split
  · exact ⟨_, _, rfl⟩
  · rename_i i hf
    rw [List.find?_range_eq_some, decide_eq_true_eq] at hf
    obtain ⟨⟨hu, _⟩, hi, _⟩ := hf
    have hal : ((k.procs p).shmMappings i).vaddr % pageSize = 0 := by
      rw [h.window p hp i (List.mem_range.mp hi) hu]
      exact slotAddr_aligned i
    obtain ⟨k1, hun⟩ := unmapPage_of_aligned (k := k) (p := p) hal
    split
    · exact ⟨_, _, bind_eq_ok.mpr ⟨k1, hun, rfl⟩⟩
    · rename_i s hid
      have h1 := (own_unmapPage h hun).setMapping p (i := i) (m := .cleared) hp
        fun hu => absurd rfl hu
      obtain ⟨hs, hu, _⟩ := findById_some hid
      rw [← (unmapPage_shmTable hun).1] at hu
      obtain ⟨r, hr⟩ := h1.release_obj hs hu
      obtain ⟨k2, h2⟩ := shmPut_of_release hr
      exact ⟨_, _, bind_eq_ok.mpr ⟨k1, hun, bind_eq_ok.mpr ⟨k2, h2, rfl⟩⟩⟩

/-! ## What detaching does to the process and the allocator -/

/-- Only mappings of process `p` went, and only regions of objects were released. -/
structure Detached (p : Nat) (k k' : Kernel) : Prop where
  proc : ∃ f, k'.procs p = { k.procs p with shmMappings := f }
  freed : ∃ objs, k'.freed = k.freed ++ objs ∧ ∀ r, r ∈ objs → ∃ s, Holds k (.shm s) r
  holds : ∀ s r, Holds k' (.shm s) r → Holds k (.shm s) r

theorem Detached.refl (p : Nat) (k : Kernel) : Detached p k k :=
  ⟨⟨_, rfl⟩, ⟨[], by simp, fun _ h => absurd h List.not_mem_nil⟩, fun _ _ h => h⟩

theorem Detached.trans {k'' : Kernel} (h : Detached p k k') (h' : Detached p k' k'') :
    Detached p k k'' := by
  obtain ⟨f, hf⟩ := h.proc
  obtain ⟨f', hf'⟩ := h'.proc
  obtain ⟨objs, ho, hin⟩ := h.freed
  obtain ⟨objs', ho', hin'⟩ := h'.freed
  refine ⟨⟨f', by rw [hf', hf]⟩, ⟨objs ++ objs', by rw [ho', ho, List.append_assoc], ?_⟩,
    fun s r hh => h.holds s r (h'.holds s r hh)⟩
  intro r hr
  rcases List.mem_append.mp hr with hr | hr
  · exact hin r hr
  · obtain ⟨s, hs⟩ := hin' r hr
    exact ⟨s, h.holds s r hs⟩

theorem detached_shmPut {s : Nat} (hs : s < shmMax) (hu : (k.shmTable s).used = true)
    (h : shmPut k s = .ok k') : Detached p k k' := by
  rcases shmPut_ok h with ⟨_, rfl⟩ | ⟨_, r, hr, rfl⟩
  · refine ⟨⟨_, rfl⟩, ⟨[], by simp, fun _ h => absurd h List.not_mem_nil⟩, ?_⟩
    intro s' r hh
    rw [holds_shm] at hh ⊢
    by_cases he : s' = s
    · subst he; rw [setObj_self] at hh; exact hh
    · rw [setObj_of_ne _ _ _ he] at hh; exact hh
  · obtain ⟨i, hi, _, _, _, _, hf⟩ := releasePages_ok hr
    refine ⟨⟨_, rfl⟩, ⟨[i], hf, ?_⟩, ?_⟩
    · intro x hx
      rw [List.mem_singleton] at hx
      exact ⟨s, hs, hu, by omega⟩
    · intro s' x hh
      rw [holds_shm] at hh ⊢
      by_cases he : s' = s
      · subst he
        unfold destroyed at hh
        rw [setObj_self] at hh
        exact absurd hh.2.1 (by decide)
      · unfold destroyed at hh
        rw [setObj_of_ne _ _ _ he] at hh
        exact hh

theorem detached_clear {k1 : Kernel} {vaddr : Nat} (i : Nat) (hun : unmapPage k p vaddr = .ok k1) :
    Detached p k (k1.setMapping p i .cleared) := by
  obtain ⟨e1, e2, e3⟩ := unmapPage_shmTable hun
  refine ⟨⟨_, by rw [setMapping_self, e2]⟩, ⟨[], by simp [e3], fun _ h => absurd h List.not_mem_nil⟩,
    ?_⟩
  intro s r hh
  rw [holds_shm, setMapping_shmTable, e1] at hh
  exact hh

theorem detached_shmDetach {vaddr : Nat} {ret : Int} (h : shmDetach k p vaddr = .ok (ret, k')) :
    Detached p k k' := by
  rcases shmDetach_ok h with ⟨_, rfl, _⟩ | ⟨_, i, k1, _, hun, ⟨_, rfl⟩ | ⟨s, hid, hput⟩⟩
  · exact Detached.refl p _
  · exact detached_clear i hun
  · obtain ⟨hs, hu, _⟩ := findById_some hid
    refine (detached_clear i hun).trans (detached_shmPut hs ?_ hput)
    rw [setMapping_shmTable, (unmapPage_shmTable hun).1]
    exact hu

theorem detached_shmProcessCleanup (h : shmProcessCleanup k p = .ok k') : Detached p k k' :=
  shmProcessCleanup_inv (fun _ t => Detached p k t) (Detached.refl p k) (fun _ _ _ ht _ => ht)
    (fun _ _ _ _ _ ht _ hd => ht.trans (detached_shmDetach hd)) h

theorem own_shmProcessCleanup (hp : p < procsMax) (h : Own L X k)
    (hc : shmProcessCleanup k p = .ok k') : Own L X k' :=
  shmProcessCleanup_inv (fun _ t => Own L X t) h (fun _ _ _ ht _ => ht)
    (fun _ _ _ _ _ ht _ hd => own_shmDetach hp ht hd) hc

theorem shmProcessCleanup_total (hp : p < procsMax) (h : Own L X k) :
    ∃ k', shmProcessCleanup k p = .ok k' := by
  have hloop : ∃ k', shmProcessCleanup k p = .ok k' ∧ Own L X k' := by
    refine loopM_ok (fun _ t => Own L X t) procShmMax h ?_
    intro i t _ ht
    dsimp only
    split
    · obtain ⟨ret, t', hd⟩ := shmDetach_total ((t.procs p).shmMappings i).vaddr hp ht
      exact ⟨t', bind_eq_ok.mpr ⟨(ret, t'), hd, rfl⟩, own_shmDetach hp ht hd⟩
    · exact ⟨t, rfl, ht⟩
  obtain ⟨k', hk', _⟩ := hloop
  exact ⟨k', hk'⟩

/-! ## Releasing a process -/

/-- The word the loop of `release_process` reads at index `j`. -/
def recordWord (q : Process) (j : Nat) : Nat :=
  if j < procRegionMax then q.regions j else q.currentIdx

/-- The index it passes to `release_pages` there, if it does. -/
def releaseAt (q : Process) (j : Nat) : Option Nat :=
  if j < q.currentIdx ∧ recordWord q j ≠ 0 then some (recordWord q j) else none

/-- What the first `n` iterations of the loop release, in order. -/
def releasedUpTo (q : Process) (n : Nat) : List Nat := (List.range n).filterMap (releaseAt q)

/-- What `release_process` releases of the record of a process. -/
def released (q : Process) : List Nat := releasedUpTo q (procRegionMax + 1)

theorem releasedUpTo_succ (q : Process) (n : Nat) :
    releasedUpTo q (n + 1) = releasedUpTo q n ++ (releaseAt q n).toList := by
  unfold releasedUpTo
  rw [List.range_succ, List.filterMap_append]
  cases h : releaseAt q n with
  | none => simp [h]
  | some r => simp [h]

/-- Every word the loop gets to is an index that was appended. -/
theorem Recorded.word {q : Process} (h : Recorded q) {j : Nat} (hj : j < q.currentIdx)
    (hlt : j ≤ procRegionMax) : q.appended[j]? = some (recordWord q j) := by
  have hlen : j < q.appended.length := by
    by_cases hs : q.appended.length ≤ procRegionMax
    · have := h.idx hs
      omega
    · omega
  have hget := List.getElem?_eq_getElem hlen
  unfold recordWord
  split
  · rename_i hjm
    rw [hget, h.entry j _ hjm hget]
  · obtain rfl : j = procRegionMax := by omega
    rw [hget, h.overrun _ hget]

theorem releasedUpTo_sublist {q : Process} (h : Recorded q) (n : Nat)
    (hn : n ≤ procRegionMax + 1) : (releasedUpTo q n).Sublist (q.appended.take n) := by
  induction n with
  | zero => exact List.nil_sublist _
  | succ n ih =>
      rw [releasedUpTo_succ, List.take_add_one]
      refine (ih (by omega)).append ?_
      unfold releaseAt
      split
      · rename_i hc
        rw [h.word hc.1 (by omega)]
      · exact List.nil_sublist _

theorem released_sublist {q : Process} (h : Recorded q) : (released q).Sublist q.appended :=
  (releasedUpTo_sublist h _ (Nat.le_refl _)).trans (List.take_sublist _ _)

/-- **Of a record that fits, everything is released except index 0.** -/
theorem released_eq {q : Process} (h : Recorded q) (hlen : q.appended.length ≤ procRegionMax) :
    released q = q.appended.filter fun r => decide (r ≠ 0) := by
  have hidx := h.idx hlen
  have hall : ∀ n, n ≤ procRegionMax + 1 →
      releasedUpTo q n = (q.appended.take n).filter fun r => decide (r ≠ 0) := by
    intro n
    induction n with
    | zero => intro _; rfl
    | succ n ih =>
        intro hn
        rw [releasedUpTo_succ, List.take_add_one, List.filter_append, ih (by omega)]
        congr 1
        unfold releaseAt
        by_cases hc : n < q.currentIdx
        · rw [h.word hc (by omega)]
          by_cases hz : recordWord q n = 0
          · simp [hz]
          · simp [hz, hc]
        · rw [if_neg (fun hcc => hc hcc.1), List.getElem?_eq_none (by omega)]
          rfl
  have := hall (procRegionMax + 1) (Nat.le_refl _)
  rw [List.take_of_length_le (by omega)] at this
  exact this

/-- The state the loop is in after `n` iterations. -/
structure ReleasedTo (p : Nat) (k : Kernel) (n : Nat) (t : Kernel) : Prop
    extends Local p k t where
  ram : releaseAll k.toRam (releasedUpTo (k.procs p) n) = .ok t.toRam
  word : ∀ j, n ≤ j → j ≤ procRegionMax → recordWord (t.procs p) j = recordWord (k.procs p) j
  idx : n ≤ procRegionMax → (t.procs p).currentIdx = (k.procs p).currentIdx
  mappings : (t.procs p).shmMappings = (k.procs p).shmMappings

theorem getRegion_eq {j : Nat} (hj : j ≤ procRegionMax) :
    getRegion L k p j = recordWord (k.procs p) j := by
  unfold getRegion recordWord
  split
  · rfl
  · rw [if_pos (by unfold mappingsWord; omega)]

theorem recordWord_setRegion {n j v : Nat} (hn : n ≤ procRegionMax) (hj : n < j)
    (hjm : j ≤ procRegionMax) :
    recordWord ((setRegion L k p n v).procs p) j = recordWord (k.procs p) j
      ∧ ((setRegion L k p n v).procs p).currentIdx = (k.procs p).currentIdx := by
  unfold setRegion recordWord
  dsimp only
  rw [if_pos (by omega : n < procRegionMax), setProc_self, noteWrite_self]
  dsimp only
  rw [Function.update_of_ne (by omega)]
  exact ⟨rfl, rfl⟩

theorem setRegion_toRam {n v : Nat} (hn : n ≤ procRegionMax) :
    (setRegion L k p n v).toRam = k.toRam
      ∧ ((setRegion L k p n v).procs p).shmMappings = (k.procs p).shmMappings := by
  unfold setRegion
  dsimp only
  split
  · exact ⟨rfl, by rw [setProc_self, noteWrite_self]⟩
  · rw [if_pos (by unfold mappingsWord; omega)]
    exact ⟨rfl, by rw [setProc_self, noteWrite_self]⟩

/-- The loop of `release_process` releases exactly `released`, as long as that can be released. -/
theorem releaseRegions_ok (hok : ∀ n, n ≤ procRegionMax + 1 →
      ∃ r, releaseAll k.toRam (releasedUpTo (k.procs p) n) = .ok r) :
    ∃ k', releaseRegions L k p = .ok k' ∧ Local p k k'
      ∧ releaseAll k.toRam (released (k.procs p)) = .ok k'.toRam
      ∧ (k'.procs p).shmMappings = (k.procs p).shmMappings := by
  obtain ⟨k', hk', hend⟩ := loopM_ok (f := fun k i =>
      if i < (k.procs p).currentIdx then
        if getRegion L k p i ≠ 0 then do
          let r ← releasePages k.toRam (getRegion L k p i : Int)
          pure (setRegion L { k with toRam := r } p i 0)
        else pure k
      else pure k) (ReleasedTo p k) (procRegionMax + 1)
    ⟨Local.refl p k, rfl, fun _ _ _ => rfl, fun _ => rfl, rfl⟩ (by
    intro n t hn ht
    have hw := ht.word n (Nat.le_refl n) (by omega)
    have hi := ht.idx (by omega)
    obtain ⟨r, hr⟩ := hok (n + 1) (by omega)
    rw [releasedUpTo_succ, releaseAll_append, bind_eq_ok] at hr
    obtain ⟨r1, hr1, hr2⟩ := hr
    obtain rfl : t.toRam = r1 := by
      have := ht.ram.symm.trans hr1
      injection this
    have hstep : ∀ t' : Kernel, t'.toRam = r → Local p k t' →
        (∀ j, n + 1 ≤ j → j ≤ procRegionMax →
          recordWord (t'.procs p) j = recordWord (k.procs p) j) →
        (n + 1 ≤ procRegionMax → (t'.procs p).currentIdx = (k.procs p).currentIdx) →
        (t'.procs p).shmMappings = (t.procs p).shmMappings → ReleasedTo p k (n + 1) t' := by
      intro t' hram hl hw' hi' hmap
      refine ⟨hl, ?_, hw', hi', hmap.trans ht.mappings⟩
      rw [releasedUpTo_succ, releaseAll_append, bind_eq_ok]
      exact ⟨t.toRam, ht.ram, hram ▸ hr2⟩
    by_cases hlt : n < (t.procs p).currentIdx
    · by_cases hz : recordWord (k.procs p) n = 0
      · -- the entry is 0 and is taken for an empty one
        refine ⟨t, ?_, hstep t ?_ ht.toLocal (fun j hj => ht.word j (by omega)) (fun _ => hi) rfl⟩
        · rw [if_pos hlt, getRegion_eq (by omega), hw, if_neg (by simpa using hz)]
          rfl
        · have : releaseAt (k.procs p) n = none := if_neg fun hc => hc.2 hz
          rw [this] at hr2
          exact pure_eq_ok.mp hr2
      · have hat : releaseAt (k.procs p) n = some (recordWord (k.procs p) n) :=
          if_pos ⟨hi ▸ hlt, hz⟩
        rw [hat] at hr2
        obtain ⟨r', hr', hnil⟩ := bind_eq_ok.mp hr2
        obtain rfl : r' = r := pure_eq_ok.mp hnil
        refine ⟨setRegion L { t with toRam := r' } p n 0, ?_, hstep _ ?_ ?_ ?_ ?_ ?_⟩
        · rw [if_pos hlt, getRegion_eq (by omega), hw, if_pos hz]
          exact bind_eq_ok.mpr ⟨r', hr', rfl⟩
        · exact (setRegion_toRam (by omega)).1
        · exact (ht.toLocal.trans (local_setRam p t r')).trans (grow_setRegion L _ p n 0).toLocal
        · intro j hj hjm
          rw [(recordWord_setRegion (by omega) hj hjm).1]
          exact ht.word j (by omega) hjm
        · intro hle
          rw [(recordWord_setRegion (j := n + 1) (by omega) (by omega) hle).2]
          exact hi
        · exact (setRegion_toRam (by omega)).2
    · refine ⟨t, ?_, hstep t ?_ ht.toLocal (fun j hj => ht.word j (by omega)) (fun _ => hi) rfl⟩
      · rw [if_neg hlt]
        rfl
      · have : releaseAt (k.procs p) n = none := if_neg fun hc => hlt (hi ▸ hc.1)
        rw [this] at hr2
        exact pure_eq_ok.mp hr2)
  exact ⟨k', hk', hend.toLocal, hend.ram, hend.mappings⟩

/--
**The loop of `release_process` never panics**: what it has released so far is a list of
allocated entries without repetition, so the next one is still allocated.
-/
theorem releaseRegions_spec (hp : p < procsMax) (h : Own L X k) :
    ∃ k', releaseRegions L k p = .ok k' ∧ Local p k k'
      ∧ releaseAll k.toRam (released (k.procs p)) = .ok k'.toRam
      ∧ (k'.procs p).shmMappings = (k.procs p).shmMappings := by
  have hrec := h.recorded p hp
  refine releaseRegions_ok fun n hn => ?_
  have hsub := (releasedUpTo_sublist hrec n hn).trans (List.take_sublist _ _)
  refine releaseAll_of_allocated h.part (hsub.nodup (h.nodup p hp)) ?_
  intro i hi
  exact h.of_holds (o := .proc p) ⟨hp, hsub.subset hi⟩

/--
**`release_process` never panics.** It leaves the ledger in order, with what it did not
release written off, and releases the regions of some objects and then `released`.
-/
theorem releaseProcess_spec (hp : p < procsMax) (h : Own L X k) (hX : ∀ r, X r → X' r)
    (hlost : ∀ r, r ∈ (k.procs p).appended → r ∉ released (k.procs p) → X' r) :
    ∃ k', releaseProcess L k p = .ok k' ∧ Own L X' k'
      ∧ ∃ objs, k'.freed = k.freed ++ (objs ++ released (k.procs p))
        ∧ ∀ r, r ∈ objs → ∃ s, Holds k (.shm s) r := by
  obtain ⟨k1, hk1⟩ := shmProcessCleanup_total hp h
  have h1 := own_shmProcessCleanup hp h hk1
  have hdet := detached_shmProcessCleanup hk1
  obtain ⟨f, hf⟩ := hdet.proc
  have happ : (k1.procs p).appended = (k.procs p).appended := by rw [hf]
  have hrel : released (k1.procs p) = released (k.procs p) := by rw [hf]; rfl
  obtain ⟨k2, hk2, hl, hall, _⟩ := releaseRegions_spec hp h1
  have hR := releaseAll_released h1.part hall
  have hsub := released_sublist (h1.recorded p hp)
  have hok : ∃ k', releaseProcess L k p = .ok k' := by
    unfold releaseProcess
    exact ⟨_, bind_eq_ok.mpr ⟨k1, hk1, bind_eq_ok.mpr ⟨k2, hk2, rfl⟩⟩⟩
  obtain ⟨k', hk'⟩ := hok
  refine ⟨k', hk', ?_, ?_⟩
  · obtain ⟨k1', k2', g, e1, e2, hg, rfl⟩ := releaseProcess_ok hk'
    obtain rfl : k1 = k1' := by rw [hk1] at e1; injection e1
    obtain rfl : k2 = k2' := by rw [hk2] at e2; injection e2
    refine h1.giveBack (o := .proc p) hR ?_ ?_ hX ?_ ?_ ?_ hl.driverRegions ?_ ?_ ?_
    · exact fun i hi => ⟨hp, hsub.subset hi⟩
    · rintro i ⟨_, hi⟩ hni
      exact hlost i (happ ▸ hi) (hrel ▸ hni)
    · rintro i ⟨_, hi⟩
      rw [setProc_self] at hi
      cases hi
    · intro o' i ho
      cases o' with
      | driver =>
          rw [holds_driver, holds_driver, setProc_driverRegions, hl.driverRegions]
      | shm s => rw [holds_shm, holds_shm, setProc_shmTable, hl.shmTable]
      | proc q =>
          have hne : q ≠ p := fun e => ho (e ▸ rfl)
          rw [holds_proc, holds_proc, setProc_of_ne _ _ _ hne, hl.procs q hne]
    · intro q hlt
      by_cases hq : q = p
      · subst hq; rw [setProc_self]; exact List.nodup_nil
      · rw [setProc_of_ne _ _ _ hq, hl.procs q hq]; exact h1.nodup q hlt
    · intro q hlt
      by_cases hq : q = p
      · subst hq; rw [setProc_self]; exact recorded_nil rfl rfl
      · rw [setProc_of_ne _ _ _ hq, hl.procs q hq]; exact h1.recorded q hlt
    · intro s _ _
      rw [setProc_shmTable, hl.shmTable]
    · intro q hlt i hi hu
      by_cases hq : q = p
      · subst hq
        rw [setProc_self] at hu
        dsimp only at hu
        rw [hg i hi] at hu
        exact absurd rfl hu
      · rw [setProc_of_ne _ _ _ hq, hl.procs q hq] at hu ⊢
        exact h1.window q hlt i hi hu
  · obtain ⟨k1', k2', g, e1, e2, hg, rfl⟩ := releaseProcess_ok hk'
    obtain rfl : k2 = k2' := by
      obtain rfl : k1 = k1' := by rw [hk1] at e1; injection e1
      rw [hk2] at e2; injection e2
    obtain ⟨objs, ho, hin⟩ := hdet.freed
    refine ⟨objs, ?_, hin⟩
    rw [setProc_toRam, hR.freed, ho, hrel, List.append_assoc]

/-! ## Steps and runs -/

/-- The records of all processes fit, but for one word. -/
def Roomy (k : Kernel) : Prop :=
  ∀ p, p < procsMax → (k.procs p).appended.length ≤ procRegionMax + 1

/-- What an exiting process `p` leaves allocated is written off. -/
def WritesOff (X : Nat → Prop) (k : Kernel) (p : Nat) : Prop :=
  ∀ r, r ∈ (k.procs p).appended → r ∉ released (k.procs p) → X r

/-- Marking a process as exited does not matter. -/
theorem Own.exiting (h : Own L X k) (hp : k.currentProc < procsMax) : Own L X (exiting k) :=
  h.setProc _ rfl rfl rfl (h.window _ hp)

theorem Own.scheduled (h : Own L X k) : Own L X (scheduled k) :=
  h.same rfl (fun _ _ => rfl) h.recorded rfl (fun _ _ => ⟨rfl, rfl, rfl⟩) h.window

/--
The whole of `SYS_EXIT`: it succeeds, and what it released is what the exiting process
had recorded, after the regions of some objects.
-/
theorem exit_spec (h : Own L X k) (hp : k.currentProc < procsMax)
    (hX : WritesOff X k k.currentProc) :
    ∃ k1, releaseProcess L (exiting k) k.currentProc = .ok k1 ∧ Own L X k1
      ∧ ∃ objs, k1.freed = k.freed ++ (objs ++ released (k.procs k.currentProc))
        ∧ ∀ r, r ∈ objs → ∃ s, Holds k (.shm s) r := by
  have hself : (exiting k).procs k.currentProc
      = { k.procs k.currentProc with state := .exited } := setProc_self ..
  obtain ⟨k1, hk1, ho, objs, hf, hin⟩ := releaseProcess_spec hp (h.exiting hp)
    (fun _ hx => hx) (by rw [hself]; exact hX)
  rw [hself] at hf
  exact ⟨k1, hk1, ho, objs, hf, hin⟩

/-- **Every call keeps the ledger in order**, if the records still have room after it. -/
theorem own_step {e : Event} (hset : Settled k) (h : Own L X k) (hs : Step L k e k')
    (hroom : Roomy k') (hX : ∀ next, e = .exit k.currentProc next → WritesOff X k k.currentProc) :
    Own L X k' := by
  cases hs with
  | @create _ image p hc =>
      have hp := (createProcess_ok hc).1
      exact (own_createProcess h (fun q hq hu => (hset.blank q hq hu).1) hc (hroom p hp)).1
  | shmGet hl hc => exact own_shmGet h hc
  | shmAttach hl hc => exact own_shmAttach hl.1 h hc (hroom _ hl.1)
  | shmDetach hl hc => exact own_shmDetach hl.1 h hc
  | exit hl hi hc =>
      obtain ⟨k1, hr, rfl⟩ := sysExit_ok hc
      obtain ⟨k1', hr', ho, _⟩ := exit_spec h hl.1 (hX _ rfl)
      obtain rfl : k1 = k1' := by rw [hr] at hr'; injection hr'
      exact ho.scheduled
  | yield hc =>
      rw [hset.yield_eq hc]
      exact h.scheduled

/-! ## Boot -/

theorem initRegions_not_allocated (L : Layout) (r : Ram) {i : Nat} (hlt : i < maxRegions) :
    ((initRegions L r).regions i).state ≠ .allocated := by
  unfold initRegions
  dsimp only
  split
  · simp
  · simp [Region.cleared]

/-- Nothing is owned yet. -/
theorem own_zeroed (L : Layout) (X : Nat → Prop) (m : Mem) {f : Nat → ShmObject}
    (hf : ∀ s, s < shmMax → f s = .cleared) :
    Own L X { Kernel.zeroed m with
      toRam := initRegions L (Kernel.zeroed m).toRam, shmTable := f, nextShmId := 1 } := by
  have hnone : ∀ o r, ¬ Holds { Kernel.zeroed m with
      toRam := initRegions L (Kernel.zeroed m).toRam, shmTable := f, nextShmId := 1 } o r := by
    intro o r hh
    cases o with
    | driver => cases hh
    | proc p => cases hh.2
    | shm s =>
        obtain ⟨hs, hu, _⟩ := hh
        dsimp only at hu
        rw [hf s hs] at hu
        cases hu
  refine ⟨partition_init L _, ⟨fun hh => absurd hh (hnone _ _), fun hh => absurd hh (hnone _ _)⟩,
    ?_, fun _ _ => List.nodup_nil, List.nodup_nil, fun _ _ => recorded_nil rfl rfl, ?_, ?_⟩
  · intro r hr ha
    exact absurd ha (initRegions_not_allocated L _ hr)
  · intro s hs hu
    exact absurd ⟨hs, hu, rfl⟩ (hnone (.shm s) _)
  · intro p _ i _ hu
    exact absurd rfl hu

/-- Before the idle process is created only the drivers own anything. -/
theorem own_before_idle (X : Nat → Prop) {m : Mem} (h : boot L m = .ok k) :
    ∃ k2 p k3, (Own L X k2 ∧ Blank k2) ∧ createProcess L k2 [] = .ok (p, k3)
      ∧ k = { k3.setProc p fun q => { q with pid := 0 } with idleProc := p, currentProc := p } := by
  refine boot_inv (fun t => Own L X t ∧ Blank t)
    (fun f hf => ⟨own_zeroed L X m hf, blank_zeroed m _ f⟩) ?_ ?_ h
  · intro t n pa region r ht hn ha
    have hreq : ∀ n, n ∈ driverPages → u32 (n * pageSize) ≠ 0 := by decide
    exact ⟨ht.1.driven (hreq n hn) ha, ht.2.driven⟩
  · intro t p _ ht
    exact ⟨ht.1.reset (initProcess_spec L (ht.2.appended p) (ht.2.imageRegions p)).1
      (ht.2.appended p), blank_initProcess ht.2 p⟩

theorem own_boot (h : Booted L k) (hroom : Roomy k) : Own L X k := by
  obtain ⟨m, hm⟩ := h
  obtain ⟨k2, p, k3, ⟨ho, hb⟩, hc, rfl⟩ := own_before_idle X hm
  have hp := (createProcess_ok hc).1
  have hlen := hroom p hp
  dsimp only at hlen
  rw [setProc_self] at hlen
  have h3 := (own_createProcess ho (fun q _ _ => hb.appended q) hc hlen).1
  have h4 := h3.setProc p (f := fun q => { q with pid := 0 }) rfl rfl rfl (h3.window p hp)
  exact h4.same rfl (fun _ _ => rfl) h4.recorded rfl (fun _ _ => ⟨rfl, rfl, rfl⟩) h4.window

/-! ## Exclusive ownership over whole runs -/

/-- No process has recorded more than `PROC_REGION_MAX` regions. -/
def Fits (k : Kernel) : Prop := ∀ p, p < procsMax → (k.procs p).appended.length ≤ procRegionMax

theorem Fits.roomy (h : Fits k) : Roomy k := fun p hp => Nat.le_succ_of_le (h p hp)

/-- Runs in which every record fits. -/
def FittingRun (L : Layout) : List Event → Kernel → Prop :=
  Run (fun k => Booted L k ∧ Fits k) (fun k e k' => Step L k e k' ∧ Fits k')

/-- **In every run whose records fit, the ledger is in order**, with everything written off. -/
theorem own_run {tr : List Event} (h : FittingRun L tr k) :
    Settled k ∧ Own L (fun _ => True) k ∧ Fits k := by
  refine Run.invariant (P := fun k => Settled k ∧ Own L (fun _ => True) k ∧ Fits k) ?_ ?_ h
  · rintro t ⟨hb, hf⟩
    exact ⟨settled_boot hb, own_boot hb hf.roomy, hf⟩
  · rintro t e t' ⟨hset, ho, _⟩ ⟨hs, hf⟩
    exact ⟨settled_step hset hs, own_step hset ho hs hf.roomy fun _ _ _ _ _ => trivial, hf⟩

end Os1000.Proof
