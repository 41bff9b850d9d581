import Os1000.Proof.Creation

/-!
# The record of a process's regions

`proc->regions` has `PROC_REGION_MAX` entries, and nothing checks `current_idx` before an
index is appended: `create_process` appends one for the page table and one for each page of
the image, `map_page` one for each second-level table it adds. So the length of the record
is the number of tables and image pages, and it stays in bounds exactly as long as that
number does.

The number is known before each call. `create_process` takes `regionsNeeded`; after that
only the first `shm_attach` adds a table, and it can if an entry is left. In every run
whose calls are made under these conditions, every index was appended in its place, below
`PROC_REGION_MAX`. Without them an image of 44 pages is enough to write past the end. The
loops that clear the record are bounded by `MAX_REGIONS` and go past the end in any case:
no run keeps all its writes inside the record.
-/

namespace Os1000.Proof

open Os1000 Lib

/-- How many entries of the first level are valid. -/
def validEntries (k : Kernel) (p : Nat) : Nat :=
  (List.range 1024).countP fun i => decide (entry1 k p i &&& pageV ≠ 0)

/-- Every process has page tables, and slot `p` an image of `N p` pages. -/
def Trees (N : Nat → Nat) (k : Kernel) : Prop :=
  ∀ p, Live k p → (∃ root T M, Tree k p root T M) ∧ (k.procs p).imageRegions.length = N p

section

variable {L : Layout} {X : Nat → Prop} {k k' : Kernel} {p q root : Nat} {T : Nat → Option Nat}
  {M : Nat → Nat} {N : Nat → Nat}

theorem Tree.length_tables (h : Tree k p root T M) : (tables T).length = validEntries k p := by
  unfold tables validEntries
  rw [List.length_filterMap_eq_countP]
  refine List.countP_congr fun i hi => ?_
  rw [decide_eq_true_iff, h.entry1_valid (List.mem_range.mp hi), Option.isSome_iff_ne_none]

/-! ## What one call does to the trees -/

/-- The pages and the lists of the process are the same. -/
theorem Trees.other (h : Trees N k) (ho : Own L X k) (hq : Live k q)
    (hproc : k'.procs q = k.procs q)
    (hpage : ∀ r, r ∈ (k.procs q).appended → SamePage k k' r) :
    (∃ root T M, Tree k' q root T M) ∧ (k'.procs q).imageRegions.length = N q := by
  obtain ⟨⟨root, T, M, ht⟩, hn⟩ := h q hq
  refine ⟨⟨root, T, M, ht.frame (ho.hold hq.1) (fun r hr => hpage r (hr.mem ht)) ?_ ?_ ?_⟩, ?_⟩
  · rw [hproc]
  · rw [hproc]
  · rw [hproc]
  · rw [hproc]; exact hn

theorem live_of_other (h : Live k' q) (hproc : k'.procs q = k.procs q) :
    Live k q := by
  unfold Live at h ⊢
  rwa [hproc] at h

theorem Trees.create {image : List UInt8} (h : Trees N k) (ho : Own L X k)
    (hc : createProcess L k image = .ok (p, k')) :
    Trees (Function.update N p (imagePages image.length)) k' := by
  obtain ⟨hlaid, hload⟩ := laid_createProcess ho.part hc
  intro q hq
  by_cases hqp : q = p
  · rw [hqp, Function.update_self]
    obtain ⟨root, T, ht, _⟩ := hlaid.tree
    exact ⟨⟨root, T, _, ht⟩, hload.length⟩
  · have hproc := (made_createProcess hc).procs q hqp
    rw [Function.update_of_ne hqp]
    refine h.other ho (live_of_other hq hproc) hproc fun r hr => ?_
    obtain ⟨h1, h2, _⟩ := ho.page hq.1 hr
    exact hlaid.same r h1 h2

theorem Trees.shmGet {key ret : Int} (h : Trees N k) (ho : Own L X k)
    (hg : shmGet k key = .ok (ret, k')) : Trees N k' := by
  rcases shmGet_ok hg with ⟨_, rfl⟩ | ⟨_, _, _, rfl⟩ | ⟨_, _, s, pa, idx, r, _, _, ha, _, rfl⟩
  · exact h
  · exact h
  · intro q hq
    refine h.other ho hq rfl fun i hi => ?_
    obtain ⟨h1, h2, _⟩ := ho.page hq.1 hi
    have hsame := alloc_samePage ho.part (by decide) ha h1 h2
    exact ⟨hsame.1, hsame.2⟩

/-- Somebody else's page is not a table of this process. -/
theorem Updates.other_page {va e : Nat} {k1 : Kernel} {T' : Nat → Option Nat}
    (hu : Updates L k p root T M va e k1 T') (ht : Tree k p root T M) (ho : Own L X k)
    (hp : p < procsMax) (hq : q < procsMax) (hqp : q ≠ p) {r : Nat}
    (hm : r ∈ (k.procs q).appended) : SamePage k k1 r := by
  obtain ⟨h1, h2, h3⟩ := ht.other_page ho hp hq hqp hm
  exact hu.same r h1 h2 h3

theorem Trees.attach {id : Int} {ret : Nat} (h : Trees N k) (ho : Own L X k) (hl : Live k p)
    (hat : shmAttach L k p id = .ok (ret, k')) : Trees N k' := by
  rcases shmAttach_ok hat with ⟨_, rfl⟩ | ⟨s, slot, k1, hf, hslot, _, hm, _, rfl⟩
  · exact h
  · obtain ⟨⟨root, T, M, ht⟩, hn⟩ := h p hl
    obtain ⟨hs, hu, _⟩ := findById_some hf
    obtain ⟨T', hup⟩ := ht.updates_mapPage (ho.hold hl.1) hl.1 (slotAddr_lt hslot)
      (ho.pa_lt hs hu) (by decide) hm
    have hself : (attached k1 p slot s id).procs p = { k1.procs p with
        shmMappings := Function.update (k1.procs p).shmMappings slot ⟨1, id, slotAddr slot⟩ } := by
      unfold attached
      rw [setObj_procs, setMapping_self]
    intro q hq
    by_cases hqp : q = p
    · subst hqp
      refine ⟨⟨root, T', _, hup.tree.of_eq rfl (by rw [hself]) (by rw [hself]) (by rw [hself])⟩, ?_⟩
      rw [hself]
      dsimp only
      rw [hup.images]
      exact hn
    · have hproc : (attached k1 p slot s id).procs q = k.procs q := (keep_shmAttach hat).procs q hqp
      refine h.other ho (live_of_other hq hproc) hproc fun r hr => ?_
      have hsame := hup.other_page ht ho hl.1 hq.1 hqp hr
      exact ⟨hsame.1, hsame.2⟩

/-- After the unmapping, only the object's own region can change. -/
theorem detach_samePage {vaddr i : Nat} {k1 : Kernel} (ho : Own L X k) (hl : Live k p)
    (hun : unmapPage k p vaddr = .ok k1)
    (hrest : (findById k ((k.procs p).shmMappings i).shmId = none
        ∧ k' = k1.setMapping p i .cleared) ∨
      ∃ s, findById k ((k.procs p).shmMappings i).shmId = some s
        ∧ shmPut (k1.setMapping p i .cleared) s = .ok k') :
    k'.procs = (k1.setMapping p i .cleared).procs
      ∧ ∀ q r, q < procsMax → r ∈ (k.procs q).appended → SamePage k1 k' r := by
  obtain ⟨e1, e2, _⟩ := unmapPage_shmTable hun
  rcases hrest with ⟨_, rfl⟩ | ⟨s, hf, hput⟩
  · exact ⟨rfl, fun _ r _ _ => SamePage.refl _ r⟩
  · obtain ⟨hs, hu, _⟩ := findById_some hf
    have ho2 : Own L X (k1.setMapping p i .cleared) :=
      (own_unmapPage ho hun).setMapping p hl.1 fun hz => absurd rfl hz
    have hu2 : ((k1.setMapping p i .cleared).shmTable s).used = true := by
      rw [setMapping_shmTable, e1]; exact hu
    refine ⟨?_, fun q r hq hr => ?_⟩
    · rcases shmPut_ok hput with ⟨_, rfl⟩ | ⟨_, _, _, rfl⟩ <;> rfl
    · have hh : Holds (k1.setMapping p i .cleared) (.proc q) r := by
        refine ⟨hq, ?_⟩
        by_cases hqp : q = p
        · subst hqp; rw [setMapping_self, e2]; exact hr
        · rw [setMapping_of_ne _ _ _ _ hqp, e2]; exact hr
      have hsame := shmPut_samePage ho2 hs hu2 hput (by simp) hh
      exact ⟨hsame.1, hsame.2⟩

theorem Trees.detach {vaddr : Nat} {ret : Int} (h : Trees N k) (ho : Own L X k) (hl : Live k p)
    (hd : shmDetach k p vaddr = .ok (ret, k')) : Trees N k' := by
  have hkeep := keep_shmDetach hd
  rcases shmDetach_ok hd with ⟨_, rfl, _⟩ | ⟨_, i, k1, ⟨hi, hui, hv⟩, hun, hrest⟩
  · exact h
  · obtain ⟨⟨root, T, M, ht⟩, hn⟩ := h p hl
    obtain ⟨hprocs, hsame⟩ := detach_samePage ho hl hun hrest
    obtain ⟨_, e2, _⟩ := unmapPage_shmTable hun
    have hslot : vaddr = slotAddr i := by rw [← hv]; exact ho.window p hl.1 i hi hui
    have hup := ht.updates_unmapPage (ho.hold hl.1) (by rw [hslot]; exact slotAddr_lt hi) hun
    have hself : k'.procs p = { k.procs p with
        shmMappings := Function.update (k.procs p).shmMappings i .cleared } := by
      rw [hprocs, setMapping_self, e2]
    intro q hq
    by_cases hqp : q = p
    · subst hqp
      refine ⟨⟨root, T, _, hup.tree.frame hup.hold (fun r hr => ?_) (by rw [hself, e2])
        (by rw [hself, e2]) (by rw [hself, e2])⟩, by rw [hself]; exact hn⟩
      exact hsame q r hl.1 (hr.mem ht)
    · have hproc := hkeep.procs q hqp
      refine h.other ho (live_of_other hq hproc) hproc fun r hr => ?_
      exact (hup.other_page ht ho hl.1 hq.1 hqp hr).trans (hsame q r hq.1 hr)

theorem Trees.cleanup (h : Trees N k) (ho : Own L X k) (hl : Live k p)
    (hcl : shmProcessCleanup k p = .ok k') : Trees N k' ∧ Own L X k' := by
  have hinv := shmProcessCleanup_inv (p := p) (fun _ t => Trees N t ∧ Own L X t ∧ Live t p)
    ⟨h, ho, hl⟩ (fun _ _ _ ht _ => ht) ?_ hcl
  · exact ⟨hinv.1, hinv.2.1⟩
  · rintro i t t' ret _ ⟨h1, h2, h3⟩ _ hd
    refine ⟨h1.detach h2 h3 hd, own_shmDetach hl.1 h2 hd, hl.1, ?_⟩
    rw [(keep_shmDetach hd).state]
    exact h3.2

/-- A process goes, and the others keep their page tables. -/
theorem Trees.release (h : Trees N k) (ho : Own L X k) (hl : Live k p)
    (hrel : releaseProcess L k p = .ok k') : Trees N k' := by
  have hgone := gone_releaseProcess hrel
  obtain ⟨k1, k2, f, h1, h2, _, hk'⟩ := releaseProcess_ok hrel
  obtain ⟨ht1, ho1⟩ := h.cleanup ho hl h1
  obtain ⟨k2', h2', hloc, hall, _⟩ := releaseRegions_spec hl.1 ho1
  obtain rfl : k2 = k2' := by rw [h2] at h2'; injection h2'
  have hR := releaseAll_released ho1.part hall
  have hsub := released_sublist (ho1.recorded p hl.1)
  intro q hq
  by_cases hqp : q = p
  · rw [hqp] at hq
    exact absurd hgone.state hq.2
  · have hproc : k'.procs q = k1.procs q := by
      rw [hk', setProc_of_ne _ _ _ hqp]
      exact hloc.procs q hqp
    refine ht1.other ho1 (live_of_other hq hproc) hproc fun r hr => ?_
    -- what this process holds is not among what the other one gives back
    have hnot : r ∉ released (k1.procs p) := by
      intro hm
      have ha : Holds k1 (.proc q) r := ⟨hq.1, hr⟩
      have hb : Holds k1 (.proc p) r := ⟨hl.1, hsub.subset hm⟩
      have he := ho1.ledger.excl ha hb
      injection he with he
      exact hqp he
    obtain ⟨_, g2, _⟩ := ho1.page hq.1 hr
    rw [hk']
    exact ⟨hR.keep r hnot g2, fun x _ _ => congrFun hR.mem x⟩

/-! ## The length of the record -/

/-- What is known before a call that appends: the image fits, or there is room for a table. -/
def RecordFits (L : Layout) (k : Kernel) : Event → Prop
  | .create image _ => regionsNeeded L image.length ≤ procRegionMax
  | .shmAttach p _ _ => (k.procs p).currentIdx < procRegionMax
      ∨ entry1 k p (vpn1 shmUserBase) &&& pageV ≠ 0
  | _ => True

/-- How many pages the image in each slot has after the calls `tr`. -/
def imageCounts (tr : List Event) : Nat → Nat :=
  tr.foldl (fun N e => match e with
    | .create image p => Function.update N p (imagePages image.length)
    | _ => N) fun _ => 0

theorem imageCounts_create (tr : List Event) (image : List UInt8) (p : Nat) :
    imageCounts (tr ++ [.create image p])
      = Function.update (imageCounts tr) p (imagePages image.length) := by
  unfold imageCounts
  rw [List.foldl_append]
  rfl

/-- Everything about records between two calls. -/
structure ListInv (L : Layout) (N : Nat → Nat) (k : Kernel) : Prop where
  settled : Settled k
  own : Own L (fun _ => True) k
  fits : Fits k
  trees : Trees N k

theorem Fits.of_other (h : Fits k) (hother : ∀ q, q ≠ p → k'.procs q = k.procs q)
    (hp : (k'.procs p).appended.length ≤ procRegionMax) : Fits k' := by
  intro q hq
  by_cases hqp : q = p
  · rw [hqp]; exact hp
  · rw [hother q hqp]; exact h q hq

/-- `shm_attach` adds at most the table for the window. -/
theorem ListInv.attach_fits {id : Int} {ret : Nat} (h : ListInv L N k) (hl : Live k p)
    (hat : shmAttach L k p id = .ok (ret, k'))
    (hfit : (k.procs p).currentIdx < procRegionMax
      ∨ entry1 k p (vpn1 shmUserBase) &&& pageV ≠ 0) :
    (k'.procs p).appended.length ≤ procRegionMax := by
  rcases shmAttach_ok hat with ⟨_, rfl⟩ | ⟨s, slot, k1, hf, hslot, _, hm, _, rfl⟩
  · exact h.fits p hl.1
  · obtain ⟨⟨root, T, M, ht⟩, _⟩ := h.trees p hl
    obtain ⟨hs, hu, _⟩ := findById_some hf
    obtain ⟨T', hup⟩ := ht.updates_mapPage (h.own.hold hl.1) hl.1 (slotAddr_lt hslot)
      (h.own.pa_lt hs hu) (by decide) hm
    have happ : ((attached k1 p slot s id).procs p).appended = (k1.procs p).appended := by
      unfold attached
      rw [setObj_procs, setMapping_self]
    rw [happ]
    rcases hfit with hidx | hvalid
    · rw [(h.own.recorded p hl.1).idx (h.fits p hl.1)] at hidx
      exact Nat.le_trans hup.length hidx
    · rw [(hup.kept ?_).2]
      · exact h.fits p hl.1
      · rw [vpn1_slotAddr hslot]
        exact (ht.entry1_valid (vpn1_lt _)).mp hvalid

theorem fits_step {e : Event} (h : ListInv L N k) (hs : Step L k e k') (hfit : RecordFits L k e) :
    Fits k' := by
  cases hs with
  | @create _ image p hc =>
      refine h.fits.of_other (made_createProcess hc).procs ?_
      obtain ⟨hlaid, hload⟩ := laid_createProcess h.own.part hc
      have hle := hlaid.length_le
      rw [hload.length, length_spaceTables] at hle
      exact Nat.le_trans hle hfit
  | @shmGet _ p _ _ hl hc =>
      intro q hq
      rw [(keep_shmGet (q + 1) hc).procs q (by omega)]
      exact h.fits q hq
  | shmAttach hl hc =>
      exact h.fits.of_other (keep_shmAttach hc).procs (h.attach_fits hl hc hfit)
  | @shmDetach _ p _ _ hl hc =>
      obtain ⟨f, hf⟩ := (detached_shmDetach hc).proc
      exact h.fits.of_other (keep_shmDetach hc).procs (by rw [hf]; exact h.fits p hl.1)
  | exit hl hi hc =>
      obtain ⟨k1, hr, rfl⟩ := sysExit_ok hc
      have hg := gone_releaseProcess hr
      refine h.fits.of_other (p := k.currentProc) ?_ ?_
      · intro q hq
        exact (hg.procs q hq).trans (setProc_of_ne _ _ _ hq)
      · show (k1.procs k.currentProc).appended.length ≤ _
        rw [hg.appended]
        exact Nat.zero_le _
  | yield hc =>
      rw [h.settled.yield_eq hc]
      exact h.fits

theorem trees_step {e : Event} {tr : List Event} (h : ListInv L (imageCounts tr) k)
    (hs : Step L k e k') : Trees (imageCounts (tr ++ [e])) k' := by
  unfold imageCounts
  rw [List.foldl_append]
  cases hs with
  | create hc => exact h.trees.create h.own hc
  | shmGet hl hc => exact h.trees.shmGet h.own hc
  | shmAttach hl hc => exact h.trees.attach h.own hl hc
  | shmDetach hl hc => exact h.trees.detach h.own hl hc
  | exit hl hi hc =>
      obtain ⟨k1, hr, rfl⟩ := sysExit_ok hc
      have hself : (exiting k).procs k.currentProc
          = { k.procs k.currentProc with state := .exited } := setProc_self ..
      have hex : Trees (imageCounts tr) (exiting k) := by
        intro q hq
        by_cases hqc : q = k.currentProc
        · subst hqc
          obtain ⟨⟨root, T, M, ht⟩, hn⟩ := h.trees _ hl
          refine ⟨⟨root, T, M, ht.of_eq rfl ?_ ?_ ?_⟩, ?_⟩
          · rw [hself]
          · rw [hself]
          · rw [hself]
          · rw [hself]; exact hn
        · have hproc : (exiting k).procs q = k.procs q := setProc_of_ne _ _ _ hqc
          exact h.trees.other h.own (live_of_other hq hproc) hproc fun r _ => ⟨rfl, fun _ _ _ => rfl⟩
      have hl' : Live (exiting k) k.currentProc := by
        refine ⟨hl.1, ?_⟩
        rw [hself]
        exact fun he => by cases he
      have h1 := hex.release (h.own.exiting hl.1) hl' hr
      exact fun q hq => (h1 q hq).imp (fun ⟨root, T, M, ht⟩ => ⟨root, T, M, ht.of_eq rfl rfl rfl rfl⟩) id
  | yield hc =>
      rw [h.settled.yield_eq hc]
      exact fun q hq =>
        (h.trees q hq).imp (fun ⟨root, T, M, ht⟩ => ⟨root, T, M, ht.of_eq rfl rfl rfl rfl⟩) id

theorem listInv_step {e : Event} {tr : List Event} (h : ListInv L (imageCounts tr) k)
    (hs : Step L k e k') (hfit : RecordFits L k e) : ListInv L (imageCounts (tr ++ [e])) k' := by
  have hfits := fits_step h hs hfit
  exact ⟨settled_step h.settled hs,
    own_step h.settled h.own hs hfits.roomy fun _ _ _ _ _ => trivial, hfits, trees_step h hs⟩

theorem listInv_boot (h : Booted L k) (hfit : regionsNeeded L 0 ≤ procRegionMax) :
    ListInv L (imageCounts []) k := by
  obtain ⟨m, hm⟩ := id h
  obtain ⟨k2, p, k3, ⟨ho, hb⟩, hc, hk⟩ := own_before_idle (fun _ => True) hm
  have hmade := made_createProcess hc
  have hself : k.procs p = { k3.procs p with pid := 0 } := by
    rw [hk]
    exact setProc_self k3 p fun q => { q with pid := 0 }
  have hother : ∀ q, q ≠ p → k.procs q = k2.procs q := by
    intro q hq
    rw [hk]
    exact (setProc_of_ne k3 p (fun q => { q with pid := 0 }) hq).trans (hmade.procs q hq)
  obtain ⟨hlaid, hload⟩ := laid_createProcess ho.part hc
  have hlen : (k.procs p).appended.length ≤ procRegionMax := by
    have hle := hlaid.length_le
    rw [hload.length, length_spaceTables] at hle
    rw [hself]
    exact Nat.le_trans hle hfit
  have hfits : Fits k := by
    intro q hq
    by_cases hqp : q = p
    · rw [hqp]; exact hlen
    · rw [hother q hqp, hb.appended q]; exact Nat.zero_le _
  refine ⟨settled_boot h, own_boot h hfits.roomy, hfits, fun q hq => ?_⟩
  by_cases hqp : q = p
  · obtain ⟨root, T, ht, _⟩ := hlaid.tree
    rw [hqp]
    refine ⟨⟨root, T, _, ht.of_eq (by rw [hk]; rfl) ?_ ?_ ?_⟩, ?_⟩
    · rw [hself]
    · rw [hself]
    · rw [hself]
    · rw [hself]; exact hload.length
  · have hst := hq.2
    rw [hother q hqp] at hst
    exact absurd (hb.state q) hst

/-- Runs in which every call that appends is made with room for what it appends. -/
def RecordRun (L : Layout) : List Event → Kernel → Prop :=
  Run (fun k => Booted L k ∧ regionsNeeded L 0 ≤ procRegionMax)
    (fun k e k' => Step L k e k' ∧ RecordFits L k e)

theorem listInv_run {tr : List Event} (h : RecordRun L tr k) : ListInv L (imageCounts tr) k :=
  Run.invariant_trace (P := fun tr k => ListInv L (imageCounts tr) k)
    (fun _ hb => listInv_boot hb.1 hb.2) (fun _ _ _ _ _ hi hs => listInv_step hi hs.1 hs.2) h

/-! ## The loops that clear the record -/

/-- The entries behind the end of the record of slot `q` have been written. -/
def PastEnd (k : Kernel) (q : Nat) : Prop :=
  ∀ n, procRegionMax ≤ n → n < maxRegions → n ∈ (k.procs q).regionWrites

theorem PastEnd.mono (h : PastEnd k q) (hw : (k.procs q).regionWrites <+: (k'.procs q).regionWrites) :
    PastEnd k' q :=
  fun n h1 h2 => hw.subset (h n h1 h2)

theorem PastEnd.of_other (h : ∀ q, q < procsMax → PastEnd k q)
    (hother : ∀ q, q ≠ p → k'.procs q = k.procs q)
    (hw : (k.procs p).regionWrites <+: (k'.procs p).regionWrites) :
    ∀ q, q < procsMax → PastEnd k' q := by
  intro q hq
  refine (h q hq).mono ?_
  by_cases hqp : q = p
  · rw [hqp]; exact hw
  · rw [hother q hqp]

theorem pastEnd_step {e : Event} (h : ∀ q, q < procsMax → PastEnd k q) (hs : Step L k e k') :
    ∀ q, q < procsMax → PastEnd k' q := by
  -- what a process that is released was written to stays written
  have hrelease : ∀ {t t' : Kernel}, (∀ q, q < procsMax → PastEnd t q) →
      releaseProcess L t t.currentProc = .ok t' → ∀ q, q < procsMax → PastEnd (scheduled t') q :=
    fun ht hr => PastEnd.of_other ht (gone_releaseProcess hr).procs (gone_releaseProcess hr).writes
  cases hs with
  | create hc =>
      have hm := made_createProcess hc
      exact PastEnd.of_other h hm.procs ((List.prefix_append _ _).trans hm.wrote)
  | @shmGet _ p _ _ hl hc =>
      exact PastEnd.of_other h (keep_shmGet p hc).procs (keep_shmGet p hc).writes
  | shmAttach hl hc => exact PastEnd.of_other h (keep_shmAttach hc).procs (keep_shmAttach hc).writes
  | shmDetach hl hc => exact PastEnd.of_other h (keep_shmDetach hc).procs (keep_shmDetach hc).writes
  | exit hl hi hc =>
      obtain ⟨k1, hr, rfl⟩ := sysExit_ok hc
      refine hrelease (PastEnd.of_other h (fun q hq => setProc_of_ne _ _ _ hq) ?_) hr
      rw [setProc_self]
  | yield hc =>
      rcases yield_ok hc with ⟨_, k1, hr, rfl⟩ | ⟨_, rfl⟩
      · exact hrelease h hr
      · exact h

/-- The loop body of `init_processes` goes past the end of the record. -/
theorem pastEnd_initProcess (L : Layout) (k : Kernel) (p : Nat) : PastEnd (initProcess L k p) p := by
  intro n _ hn
  unfold initProcess
  dsimp only
  rw [(wiped_clear L _ p).wrote]
  exact List.mem_append_right _ (List.mem_range.mpr hn)

theorem pastEnd_boot (h : Booted L k) : ∀ q, q < procsMax → PastEnd k q := by
  obtain ⟨m, h⟩ := h
  unfold boot at h
  obtain ⟨k1, _, h⟩ := bind_eq_ok.mp h
  unfold initProcesses at h
  obtain ⟨⟨p, k3⟩, hc, h⟩ := bind_eq_ok.mp h
  have hloop := loop_inv (f := initProcess L) (s := k1) (fun n t => ∀ q, q < n → PastEnd t q) procsMax
    (fun q hq => absurd hq (Nat.not_lt_zero q)) (fun i t _ ht q hq => by
      by_cases hqi : q = i
      · rw [hqi]; exact pastEnd_initProcess L t i
      · have hother : (initProcess L t i).procs q = t.procs q :=
          ((wiped_clear L _ i).procs q hqi).trans (setProc_of_ne _ _ _ hqi)
        exact (ht q (by omega)).mono (by rw [hother]))
  have hm := made_createProcess hc
  have hmade := PastEnd.of_other hloop hm.procs ((List.prefix_append _ _).trans hm.wrote)
  rw [← pure_eq_ok.mp h]
  refine PastEnd.of_other (p := p) hmade (fun q hq => ?_) ?_
  · dsimp only
    exact setProc_of_ne _ _ _ hq
  · dsimp only
    rw [setProc_self]

/--
**The loops that clear the record never stay inside it**, and the indices that are appended do as
long as there is room. In every run, whatever the calls are, every entry from `PROC_REGION_MAX` to
`MAX_REGIONS` of every process has been written, by `init_processes`; and every `create_process` that
returns writes those of its process once more. Beside that, when every call that appends is made with
room for what it appends, `current_idx` counts the page table, the valid first-level entries and the
pages of the image, and every index that was appended is in its place, below `PROC_REGION_MAX`.
-/
theorem region_list_bounds {tr : List Event} (h : Run (Booted L) (Step L) tr k) :
    (∀ q, q < procsMax → ∀ n, procRegionMax ≤ n → n < maxRegions → n ∈ (k.procs q).regionWrites)
    ∧ (∀ image p k', createProcess L k image = .ok (p, k') →
      ∃ rest, (k'.procs p).regionWrites = (k.procs p).regionWrites ++ List.range maxRegions ++ rest)
    ∧ (RecordRun L tr k → ∀ p, Live k p →
      (k.procs p).currentIdx = 1 + validEntries k p + imageCounts tr p
      ∧ (k.procs p).currentIdx ≤ procRegionMax
      ∧ (k.procs p).appended.length = (k.procs p).currentIdx
      ∧ ∀ n r, (k.procs p).appended[n]? = some r →
        n < procRegionMax ∧ (k.procs p).regions n = r) := by
  refine ⟨?_, ?_, ?_⟩
  · exact h.invariant (P := fun k => ∀ q, q < procsMax → PastEnd k q) (fun _ => pastEnd_boot)
      (fun _ _ _ => pastEnd_step)
  · intro image p k' hc
    obtain ⟨rest, hrest⟩ := (made_createProcess hc).wrote
    exact ⟨rest, hrest.symm⟩
  · intro h p hl
    have hinv := listInv_run h
    have hrec := hinv.own.recorded p hl.1
    have hfit := hinv.fits p hl.1
    have hidx := hrec.idx hfit
    obtain ⟨⟨root, T, M, ht⟩, hn⟩ := hinv.trees p hl
    refine ⟨?_, by rw [hidx]; exact hfit, hidx.symm, fun n r hr => ?_⟩
    · rw [hidx, ht.length_eq, ht.length_tables, hn]
    · have hlt : n < procRegionMax := by
        have := (List.getElem?_eq_some_iff.mp hr).1
        omega
      exact ⟨hlt, hrec.entry n r hlt hr⟩

/-- A process with one page of image, just created. -/
theorem region_list_bounds_small :
    ∃ k, RecordRun sampleLayout [.create [1, 2, 3] 1] k ∧ Live k 1
      ∧ procRegionMax ∈ (k.procs 1).regionWrites
      ∧ (k.procs 1).currentIdx = 1 + validEntries k 1 + 1 := by
  obtain ⟨k, n, hb, hn, ho, _⟩ := boot_ok (L := sampleLayout) (fun _ => 0) (by decide)
  have hneed : driverPages.length + regionsNeeded sampleLayout 0
      + regionsNeeded sampleLayout [1, 2, 3].length < maxRegions - 1 := by decide
  obtain ⟨k', _, hs, _, ho', _⟩ := ho.create [1, 2, 3] (by decide) (by decide) (by omega) (by decide)
  have hrun : RecordRun sampleLayout [.create [1, 2, 3] 1] k' :=
    Run.snoc (.start ⟨⟨_, hb⟩, by decide⟩)
      ⟨hs, show regionsNeeded sampleLayout [1, 2, 3].length ≤ procRegionMax by decide⟩
  have hl : Live k' 1 := ho'.live (by decide) (by decide)
  obtain ⟨hpast, _, hkept⟩ := region_list_bounds (hrun.weaken (fun _ h => h.1) fun _ _ _ h => h.1)
  exact ⟨k', hrun, hl, hpast 1 (by decide) _ (Nat.le_refl _) (by decide), (hkept hrun 1 hl).1⟩

/--
An image of 44 pages, far below the 8 MiB that the linker script admits, takes 65 regions:
the last index is written over `current_idx`, which then counts nothing. And whatever the
record holds, the loop that clears it goes on into `current_idx`.
-/
theorem region_list_overflows :
    (∃ k, Run (Booted sampleLayout) (Step sampleLayout) [.create bigImage 1] k ∧ Live k 1
      ∧ bigImage.length < 8 * 1024 * 1024 ∧ (k.procs 1).appended.length = procRegionMax + 1
      ∧ procRegionMax < (k.procs 1).currentIdx
      ∧ (k.procs 1).currentIdx ≠ 1 + validEntries k 1 + imageCounts [.create bigImage 1] 1)
    ∧ ∀ k, ((clearRegions sampleLayout k 1).procs 1).currentIdx = 0 := by
  refine ⟨?_, fun k => (clearRegions_spec sampleLayout k 1).idx (by decide)⟩
  obtain ⟨k, n, hb, hn, ho, _⟩ := boot_ok (L := sampleLayout) (fun _ => 0) (by decide)
  have hneed : driverPages.length + regionsNeeded sampleLayout 0 = 26 := by decide
  obtain ⟨k', hc, hpacked⟩ := packed_create ho (by unfold maxRegions; omega)
  have hn20 := ho.idle_length.trans (ho.appended_le (show 0 < procsMax by decide))
  have hl : Live k' 1 := ⟨by decide, by rw [hpacked.state]; decide⟩
  have hlen : (k'.procs 1).appended.length = 65 := by
    rw [hpacked.appended, List.length_map, List.length_range]
  -- the index at the end of the record is the region allocated last
  have hidx : (k'.procs 1).currentIdx = n + 65 := by
    refine (hpacked.own.recorded 1 (by decide)).overrun (n + 65) ?_
    rw [hpacked.appended, List.getElem?_map, List.getElem?_range (by decide)]
    rfl
  have htrees := Trees.create (N := imageCounts []) (L := sampleLayout)
    (fun q hq => ?_) ho.inv.own hc
  · obtain ⟨⟨root, T, M, ht⟩, himg⟩ := htrees 1 hl
    have hcount := ht.length_eq
    rw [hlen, ht.length_tables, himg] at hcount
    refine ⟨k', .snoc (.start ⟨_, hb⟩) (.create hc), hl, by rw [bigImage_length]; decide, hlen, ?_, ?_⟩
    · rw [hidx]; unfold procRegionMax; omega
    · rw [hidx, ← List.nil_append [Event.create bigImage 1], imageCounts_create, ← hcount]
      omega
  · exact (listInv_boot ⟨_, hb⟩ (by decide)).trees q hq

end

end Os1000.Proof
