import Os1000.Proof.Space

/-!
# Address spaces over whole runs

Call by call, that every process keeps its address space: the process on whose behalf
the kernel works, whose window may change in one slot, and all the others, whose pages
nobody writes. Together with ownership, ids and counts this is one invariant, and the
runs it holds in are those whose images fit the record and whose id counter does not
wrap.
-/

namespace Os1000.Proof

open Os1000 Lib

variable {L : Layout} {X : Nat → Prop} {k k' : Kernel} {p q root : Nat} {T : Nat → Option Nat}
  {M : Nat → Nat}

/-- A tree depends on memory, on the table and on four fields of the process. -/
theorem Tree.of_eq (h : Tree k p root T M) (hram : k'.toRam = k.toRam)
    (happ : (k'.procs p).appended = (k.procs p).appended)
    (himg : (k'.procs p).imageRegions = (k.procs p).imageRegions)
    (hpt : (k'.procs p).pageTable = (k.procs p).pageTable) : Tree k' p root T M := by
  have haddr : tableAddr k' T = tableAddr k T := by
    funext i
    unfold tableAddr
    rw [hram]
  exact ⟨by rw [happ, himg]; exact h.perm, by rw [hpt, hram]; exact h.pageTable,
    by rw [hpt, haddr, hram]; exact h.sv32⟩

/-- A process that nobody worked on. -/
theorem Spaces.other (h : Spaces L k) (ho : Own L X k) (hq : q < procsMax)
    (hst : (k.procs q).state ≠ .unused) (hproc : k'.procs q = k.procs q)
    (hpage : ∀ r, r ∈ (k.procs q).appended → SamePage k k' r)
    (hw : ∀ i, i < procShmMax → windowWord k' q i = windowWord k q i) :
    ∃ root T, Space L k' q root T := by
  obtain ⟨root, T, hs⟩ := h q hq hst
  exact ⟨root, T, hs.frame ho hq hpage (by rw [hproc]) (by rw [hproc]) (by rw [hproc]) hw⟩

/-- Neither memory nor anything an address space depends on has changed. -/
theorem Spaces.same (h : Spaces L k) (ho : Own L X k) (hram : k'.toRam = k.toRam)
    (htab : k'.shmTable = k.shmTable)
    (hproc : ∀ q, ∃ n s, k'.procs q = { k.procs q with pid := n, state := s }
      ∧ (s ≠ .unused → (k.procs q).state ≠ .unused)) : Spaces L k' := by
  intro q hq hst
  obtain ⟨n, s, e, hs⟩ := hproc q
  obtain ⟨root, T, hsp⟩ := h q hq (hs (by rw [e] at hst; exact hst))
  refine ⟨root, T, hsp.frame ho hq ?_ (by rw [e]) (by rw [e]) (by rw [e]) ?_⟩
  · exact fun r _ => ⟨by rw [hram], fun _ _ _ => by rw [hram]⟩
  · exact fun i _ => windowWord_of_eq htab (by rw [e])

theorem Spaces.scheduled (h : Spaces L k) (ho : Own L X k) : Spaces L (scheduled k) :=
  h.same ho rfl rfl fun q => ⟨(k.procs q).pid, (k.procs q).state, rfl, id⟩

/-! ## Creation -/

/-- Nothing of the kernel, the devices or a fitting image lies in the window. -/
theorem imageMap_window {v : Nat} (hn : (k.procs p).imageRegions.length ≤ procRegionMax)
    (h1 : windowVpn ≤ v) (h2 : v < windowVpn + procShmMax) : imageMap L k p v = 0 := by
  have hw : windowVpn = 0x1700 := by decide
  have hi : imageVpn = 0x1000 := by decide
  have hk : kernelVpn = 0x80200 := by decide
  unfold procRegionMax at hn
  unfold procShmMax at h2
  have hdev : ∀ d, d ∈ devicePages → 0x1704 * 4096 ≤ d := by decide
  have hnd : v * pageSize ∉ devicePages := by
    intro hm
    have := hdev _ hm
    unfold pageSize at this
    omega
  unfold imageMap baseMap deviceMap kernelMap
  rw [if_neg (by omega), if_neg hnd, if_neg (by omega)]

theorem space_createProcess {image : List UInt8} (ho : Own L X k)
    (hnil : ∀ q, q < procsMax → (k.procs q).state = .unused → (k.procs q).appended = [])
    (hfit : regionsNeeded L image.length ≤ procRegionMax)
    (hc : createProcess L k image = .ok (p, k')) :
    (k'.procs p).appended.length ≤ procRegionMax
      ∧ (∃ root T, Space L k' p root T)
      ∧ (∀ r, r < maxRegions → (k.regions r).state = .allocated → SamePage k k' r) := by
  obtain ⟨hp, hu, _, k1, hb, rfl⟩ := createProcess_ok hc
  have hr := resetProcess_spec L k p
  have ho0 := ho.reset hr (hnil p hp hu)
  obtain ⟨hbuilt, hn⟩ := built_buildSpace ho0 hp hr.appended hr.imageRegions
    (Nat.le_succ_of_le hfit) hb
  have hlen := length_spaceTables L (imagePages image.length)
  unfold regionsNeeded at hfit
  have hle := hbuilt.length_le
  obtain ⟨root, T, ht, hdom⟩ := hbuilt.tree
  have hself : (k1.setProc p fun q =>
      { q with pid := p + 1, state := .runnable, sp := stackTop L p - 4 * 13 }).procs p
      = { k1.procs p with pid := p + 1, state := .runnable, sp := stackTop L p - 4 * 13 } :=
    setProc_self ..
  refine ⟨by rw [hself]; dsimp only; omega, ⟨root, T, ?_, ?_, ?_, ?_⟩, ?_⟩
  · have ht' : Tree (k1.setProc p fun q =>
        { q with pid := p + 1, state := .runnable, sp := stackTop L p - 4 * 13 })
        p root T (imageMap L k1 p) :=
      ht.of_eq rfl (by rw [hself]) (by rw [hself]) (by rw [hself])
    refine ⟨ht'.perm, ht'.pageTable, ht'.sv32.congr fun v _ => ?_⟩
    unfold spaceMap
    split
    · rename_i hc
      -- nothing is attached yet
      rw [imageMap_window (by omega) hc.1 hc.2]
      refine windowWord_of_unused ?_
      rw [hself]
      dsimp only
      rw [hbuilt.mappings, hr.mappings _ (by omega)]
      rfl
    · refine imageMap_congr ?_ ?_ v
      · rw [hself]
      · exact fun _ _ => rfl
  · rw [hself]
    dsimp only
    rw [hn]
    exact fun v hv hne => List.mem_cons_of_mem _ (hdom v hv hne)
  · rw [hself]
    dsimp only
    rw [hn]
    omega
  · rw [hself]
    dsimp only
    intro r hr'
    rw [List.take_of_length_le (by omega)]
    exact ht.image_mem hr'
  · intro r hrm hst
    have h1 := stack_samePage hp ho.part hr.table hr.mem hrm hst
    have h2 := hbuilt.same r hrm (by rw [h1.1]; exact hst)
    exact (h1.trans h2).trans ⟨rfl, fun _ _ _ => rfl⟩

theorem Spaces.create {image : List UInt8} (h : Spaces L k) (ho : Own L X k)
    (hnil : ∀ q, q < procsMax → (k.procs q).state = .unused → (k.procs q).appended = [])
    (hfit : regionsNeeded L image.length ≤ procRegionMax)
    (hc : createProcess L k image = .ok (p, k')) : Spaces L k' := by
  have hmade := made_createProcess hc
  obtain ⟨_, hsp, hsame⟩ := space_createProcess ho hnil hfit hc
  intro q hq hst
  by_cases hqp : q = p
  · rw [hqp]; exact hsp
  · have hproc := hmade.procs q hqp
    rw [hproc] at hst
    refine h.other ho hq hst hproc ?_ ?_
    · intro r hr
      obtain ⟨h1, h2, _⟩ := ho.page hq hr
      exact hsame r h1 h2
    · intro i _
      exact windowWord_of_eq hmade.shmTable (by rw [hproc])

/-! ## Shared memory -/

theorem Spaces.shmGet {key ret : Int} (h : Spaces L k) (ho : Own L X k) (hid : Ids k)
    (hc : Counted k) (hg : shmGet k key = .ok (ret, k')) (hid' : Ids k') : Spaces L k' := by
  rcases shmGet_ok hg with ⟨_, rfl⟩ | ⟨_, _, _, rfl⟩ | ⟨_, _, s, pa, idx, r, hs, hu, ha, _, rfl⟩
  · exact h
  · exact h
  · intro q hq hst
    refine h.other ho hq hst rfl ?_ ?_
    · intro x hx
      obtain ⟨h1, h2, _⟩ := ho.page hq hx
      have hsame := alloc_samePage ho.part (by decide) ha h1 h2
      exact ⟨hsame.1, hsame.2⟩
    · intro i hi
      exact windowWord_created hid hc hid' hu hq hi

/-- The pages of another process are not touched by working on the tables of `p`. -/
theorem Remaps.other_page {va e : Nat} {k1 : Kernel} {T' : Nat → Option Nat}
    (hr : Remaps L X k p root T M va e k1 T') (ht : Tree k p root T M) (ho : Own L X k)
    (hp : p < procsMax) (hq : q < procsMax) (hqp : q ≠ p) {r : Nat}
    (hm : r ∈ (k.procs q).appended) : SamePage k k1 r := by
  obtain ⟨h1, h2, h3⟩ := ht.other_page ho hp hq hqp hm
  exact hr.same r h1 h2 h3

theorem slotAddr_lt {i : Nat} (hi : i < procShmMax) : slotAddr i < 2 ^ 32 := by
  unfold procShmMax at hi
  unfold slotAddr shmUserBase shmPageSize pageSize
  omega

theorem vpn1_slotAddr {i : Nat} (hi : i < procShmMax) :
    vpn1 (slotAddr i) = vpn1 shmUserBase := by
  unfold procShmMax at hi
  rw [vpn1_eq, vpn1_eq]
  unfold slotAddr shmUserBase shmPageSize pageSize
  omega

/-- An object's page is a page: below 2^32. -/
theorem Own.pa_lt (ho : Own L X k) {s : Nat} (hs : s < shmMax)
    (hu : (k.shmTable s).used = true) : (k.shmTable s).pa < 2 ^ 32 := by
  obtain ⟨h1, h2⟩ := ho.of_holds (o := .shm s) ⟨hs, hu, rfl⟩
  have := ho.part.stop_lt (i := (k.shmTable s).regionIdx) ⟨h1, by rw [h2]; decide⟩
  rw [ho.shmPa s hs hu]
  omega

/-- What `shm_attach` does to the page tables of the caller, when it maps something. -/
theorem Space.mapPage_window (h : Space L k p root T) (ho : Own L X k) (hp : p < procsMax)
    {slot s : Nat} (hslot : slot < procShmMax) (hs : s < shmMax)
    (hu : (k.shmTable s).used = true) {k1 : Kernel}
    (hm : mapPage L k p (slotAddr slot) (k.shmTable s).pa windowFlags = .ok k1) :
    ∃ T', Remaps L X k p root T (spaceMap L k p) (slotAddr slot)
      (pte (k.shmTable s).pa windowFlags) k1 T' :=
  h.tree.remaps_mapPage ho hp (slotAddr_lt hslot) (ho.pa_lt hs hu) (by decide)
    (fun hT => h.room (by rw [← vpn1_slotAddr hslot]; exact hT)) hm

/-- After `shm_attach` there still is room in the record. -/
theorem Spaces.attach_room {id : Int} {ret : Nat} (h : Spaces L k) (ho : Own L X k)
    (hp : p < procsMax) (hst : (k.procs p).state ≠ .unused)
    (hat : shmAttach L k p id = .ok (ret, k')) :
    (k'.procs p).appended.length ≤ procRegionMax + 1 := by
  obtain ⟨root, T, hsp⟩ := h p hp hst
  rcases shmAttach_ok hat with ⟨_, rfl⟩ | ⟨s, slot, k1, hf, hslot, _, hm, _, rfl⟩
  · exact hsp.length_le
  · obtain ⟨hs, hu, _⟩ := findById_some hf
    obtain ⟨T', hr⟩ := hsp.mapPage_window ho hp hslot hs hu hm
    have hlen : (k1.procs p).appended.length ≤ procRegionMax + 1 := by
      rw [hr.tree.length_eq, hr.images]
      have h1 : (tables T').length
          ≤ (vpn1 shmUserBase :: spaceTables L (k.procs p).imageRegions.length).length := by
        refine length_tables_le fun v hv hne => ?_
        by_cases he : v = vpn1 (slotAddr slot)
        · rw [he, vpn1_slotAddr hslot]; exact List.mem_cons_self
        · rw [hr.others v he] at hne
          exact hsp.domain v hv hne
      have h2 := hsp.fits
      rw [List.length_cons] at h1
      omega
    unfold attached
    rw [setObj_procs, setMapping_self]
    exact hlen

theorem Spaces.attach {id : Int} {ret : Nat} (h : Spaces L k) (ho : Own L X k) (hid : Ids k)
    (hp : p < procsMax) (hst : (k.procs p).state ≠ .unused)
    (hat : shmAttach L k p id = .ok (ret, k')) (hc' : Counted k') : Spaces L k' := by
  have hthin := thins_shmAttach hat
  rcases shmAttach_ok hat with ⟨_, rfl⟩ | ⟨s, slot, k1, hf, hslot, hfree, hm, _, rfl⟩
  · exact h
  · obtain ⟨root, T, hsp⟩ := h p hp hst
    obtain ⟨hs, hu, he⟩ := findById_some hf
    obtain ⟨T', hr⟩ := hsp.mapPage_window ho hp hslot hs hu hm
    have hg := grow_mapPage hm
    have hself : (attached k1 p slot s id).procs p = { k1.procs p with
        shmMappings := Function.update (k1.procs p).shmMappings slot ⟨1, id, slotAddr slot⟩ } := by
      unfold attached
      rw [setObj_procs, setMapping_self]
    intro q hq hstq
    by_cases hqp : q = p
    · subst hqp
      refine ⟨root, T', hsp.remaps hslot ho hp hr (fun _ _ => rfl) ?_ ?_ ?_ ?_ ?_⟩
      · exact fun ht => ht.of_eq rfl (by rw [hself]) (by rw [hself]) (by rw [hself])
      · rw [hself]; exact hr.images
      · rw [hself]; exact hg.appended
      · -- the slot now names the object, which is still the one with this id
        have hmap : ((attached k1 q slot s id).procs q).shmMappings slot
            = ⟨1, id, slotAddr slot⟩ := by
          rw [hself]; exact Function.update_self ..
        have hobj : (attached k1 q slot s id).shmTable s
            = { k.shmTable s with refcount := (k.shmTable s).refcount + 1 } := by
          unfold attached
          rw [setObj_self, hg.shmTable]
        rw [windowWord_of_used (hid.thins hthin) (by rw [hmap]; exact one_ne_zero) hs
          (by rw [hobj]; exact hu) (by rw [hobj, hmap]; exact he), hobj]
      · intro i hi hne
        refine windowWord_thins hid hthin hc' hp hi ?_
        rw [hself]
        dsimp only
        rw [Function.update_of_ne hne, hr.mappings]
    · have hproc : (attached k1 p slot s id).procs q = k.procs q := by
        unfold attached
        rw [setObj_procs, setMapping_of_ne _ _ _ _ hqp]
        exact hg.procs q hqp
      rw [hproc] at hstq
      refine h.other ho hq hstq hproc ?_ ?_
      · intro r hrm
        have := hr.other_page hsp.tree ho hp hq hqp hrm
        exact ⟨this.1, this.2⟩
      · intro i hi
        exact windowWord_thins hid hthin hc' hq hi (by rw [hproc])

/-- Putting an object back touches nobody else's page. -/
theorem shmPut_samePage {s r : Nat} (ho : Own L X k) (hs : s < shmMax)
    (hu : (k.shmTable s).used = true) (hput : shmPut k s = .ok k') {o : Owner}
    (hne : o ≠ .shm s) (hh : Holds k o r) : SamePage k k' r := by
  rcases shmPut_ok hput with ⟨_, rfl⟩ | ⟨_, ram, hrel, rfl⟩
  · exact ⟨rfl, fun _ _ _ => rfl⟩
  · have hR := released_one ho.part hrel
    have hnot : r ∉ [(k.shmTable s).regionIdx] := by
      intro hm
      rw [List.mem_singleton] at hm
      have h2 : Holds k (.shm s) r := ⟨hs, hu, hm.symm⟩
      exact hne (ho.ledger.excl hh h2)
    exact ⟨hR.keep r hnot (ho.of_holds hh).2, fun x _ _ => congrFun hR.mem x⟩

theorem Spaces.detach {vaddr : Nat} {ret : Int} (h : Spaces L k) (ho : Own L X k) (hid : Ids k)
    (hc : Counted k) (hp : p < procsMax) (hst : (k.procs p).state ≠ .unused)
    (hd : shmDetach k p vaddr = .ok (ret, k')) (hc' : Counted k') : Spaces L k' := by
  have hthin := thins_shmDetach hd
  rcases shmDetach_ok hd with ⟨_, rfl, _⟩ | ⟨_, i, k1, ⟨hi, hui, hv⟩, hun, ⟨hnone, _⟩ | ⟨s, hf, hput⟩⟩
  · exact h
  · obtain ⟨s, hs, hu', he⟩ := hc.named p hp i hi hui
    exact absurd he (findById_none_iff.mp hnone _ hs hu')
  · obtain ⟨root, T, hsp⟩ := h p hp hst
    obtain ⟨hs, hu, _⟩ := findById_some hf
    obtain ⟨e1, e2, _⟩ := unmapPage_shmTable hun
    have hslot : vaddr = slotAddr i := by rw [← hv]; exact ho.window p hp i hi hui
    rw [hslot] at hun
    have hr := hsp.tree.remaps_unmapPage ho hp (slotAddr_lt hi) hun
    have ho2 : Own L X (k1.setMapping p i .cleared) := hr.own.setMapping p hp fun hz => absurd rfl hz
    have hu2 : ((k1.setMapping p i .cleared).shmTable s).used = true := by
      rw [setMapping_shmTable, e1]; exact hu
    -- after the unmapping, only the object's own region can change
    have hput' : ∀ {q r}, q < procsMax → r ∈ (k.procs q).appended → SamePage k1 k' r := by
      intro q r hq hr'
      have hh : Holds (k1.setMapping p i .cleared) (.proc q) r := by
        refine ⟨hq, ?_⟩
        by_cases hqp : q = p
        · subst hqp; rw [setMapping_self, e2]; exact hr'
        · rw [setMapping_of_ne _ _ _ _ hqp, e2]; exact hr'
      have := shmPut_samePage ho2 hs hu2 hput (by simp) hh
      exact ⟨this.1, this.2⟩
    have hprocs : k'.procs = (k1.setMapping p i .cleared).procs := by
      rcases shmPut_ok hput with ⟨_, rfl⟩ | ⟨_, _, _, rfl⟩ <;> rfl
    have hself : k'.procs p = { k.procs p with
        shmMappings := Function.update (k.procs p).shmMappings i .cleared } := by
      rw [hprocs, setMapping_self, e2]
    intro q hq hstq
    by_cases hqp : q = p
    · subst hqp
      refine ⟨root, T, hsp.remaps hi ho hp hr ?_ ?_ (by rw [hself]) ⟨[], by rw [hself]; simp⟩ ?_ ?_⟩
      · intro r hr'
        exact (hput' hp (hsp.tree.image_mem hr')).1
      · intro M ht
        refine ht.frame (hr.own.hold hp) ?_ (by rw [hself, e2]) (by rw [hself, e2])
          (by rw [hself, e2])
        exact fun r hr' => hput' hp (hr'.mem hsp.tree)
      · refine windowWord_of_unused ?_
        rw [hself]
        dsimp only
        rw [Function.update_self]
        rfl
      · intro j hj hne
        refine windowWord_thins hid hthin hc' hp hj ?_
        rw [hself]
        dsimp only
        rw [Function.update_of_ne hne]
    · have hproc : k'.procs q = k.procs q := by
        rw [hprocs, setMapping_of_ne _ _ _ _ hqp, e2]
      rw [hproc] at hstq
      refine h.other ho hq hstq hproc ?_ ?_
      · intro r hrm
        exact (hr.other_page hsp.tree ho hp hq hqp hrm).trans (hput' hq hrm)
      · intro j hj
        exact windowWord_thins hid hthin hc' hq hj (by rw [hproc])

/-! ## Exit -/

theorem Spaces.cleanup (h : Spaces L k) (ho : Own L X k) (hid : Ids k) (hc : Counted k)
    (hp : p < procsMax) (hst : (k.procs p).state ≠ .unused)
    (hcl : shmProcessCleanup k p = .ok k') : Spaces L k' ∧ Own L X k' := by
  have := shmProcessCleanup_inv (p := p) (fun _ t => Spaces L t ∧ Own L X t ∧ Ids t ∧ Counted t
    ∧ (t.procs p).state ≠ .unused) ⟨h, ho, hid, hc, hst⟩ (fun _ _ _ ht _ => ht) ?_ hcl
  · exact ⟨this.1, this.2.1⟩
  · rintro i t t' ret _ ⟨h1, h2, h3, h4, h5⟩ _ hd
    have hc' := counted_shmDetach h4 h3 hp hd
    exact ⟨h1.detach h2 h3 h4 hp h5 hd hc', own_shmDetach hp h2 hd, h3.thins (thins_shmDetach hd),
      hc', by rw [(keep_shmDetach hd).state]; exact h5⟩

/-- A process goes, and the others keep their address spaces. -/
theorem Spaces.release (h : Spaces L k) (ho : Own L X k) (hid : Ids k) (hc : Counted k)
    (hp : p < procsMax) (hst : (k.procs p).state ≠ .unused)
    (hrel : releaseProcess L k p = .ok k') : Spaces L k' := by
  obtain ⟨k1, k2, f, h1, h2, _, rfl⟩ := releaseProcess_ok hrel
  obtain ⟨hs1, ho1⟩ := h.cleanup ho hid hc hp hst h1
  obtain ⟨k2', h2', hl, hall, _⟩ := releaseRegions_spec hp ho1
  obtain rfl : k2 = k2' := by rw [h2] at h2'; injection h2'
  have hR := releaseAll_released ho1.part hall
  have hsub := released_sublist (ho1.recorded p hp)
  intro q hq hstq
  by_cases hqp : q = p
  · subst hqp
    rw [setProc_self] at hstq
    exact absurd rfl hstq
  · have hproc : (k2.setProc p fun q => { q with
        pid := 0, state := .unused, sp := 0, pageTable := 0, currentIdx := 0
        appended := [], imageRegions := [], shmMappings := f }).procs q = k1.procs q := by
      rw [setProc_of_ne _ _ _ hqp]; exact hl.procs q hqp
    rw [hproc] at hstq
    refine hs1.other ho1 hq hstq hproc ?_ ?_
    · intro r hr
      -- what this process holds is not among what the other one gives back
      have hnot : r ∉ released (k1.procs p) := by
        intro hm
        have ha : Holds k1 (.proc q) r := ⟨hq, hr⟩
        have hb : Holds k1 (.proc p) r := ⟨hp, hsub.subset hm⟩
        have := ho1.ledger.excl ha hb
        injection this with e
        exact hqp e
      obtain ⟨_, g2, _⟩ := ho1.page hq hr
      exact ⟨hR.keep r hnot g2, fun x _ _ => congrFun hR.mem x⟩
    · intro i _
      refine windowWord_of_eq ?_ (congrFun (congrArg Process.shmMappings hproc) i)
      rw [setProc_shmTable]
      exact hl.shmTable

/-! ## The invariant of whole runs -/

/-- Everything that holds between two calls. -/
structure Inv (L : Layout) (X : Nat → Prop) (k : Kernel) : Prop where
  settled : Settled k
  own : Own L X k
  ids : Ids k
  counted : Counted k
  spaces : Spaces L k

/-- The image of a process to be created takes no more than `PROC_REGION_MAX` regions. -/
def ImageFits (L : Layout) : Event → Prop
  | .create image _ => regionsNeeded L image.length ≤ procRegionMax
  | _ => True

theorem Inv.roomy (h : Inv L X k) : Roomy k := h.spaces.roomy h.settled

/-- Whoever else had room still has it. -/
theorem roomy_of_other (h : Roomy k) (hother : ∀ q, q ≠ p → k'.procs q = k.procs q)
    (hp : (k'.procs p).appended.length ≤ procRegionMax + 1) : Roomy k' := by
  intro q hq
  by_cases hqp : q = p
  · rw [hqp]; exact hp
  · rw [hother q hqp]; exact h q hq

theorem roomy_step {e : Event} (h : Inv L X k) (hs : Step L k e k') (hfit : ImageFits L e) :
    Roomy k' := by
  cases hs with
  | @create _ image p hc =>
      have hlen := (space_createProcess h.own (fun q hq hu => (h.settled.blank q hq hu).1) hfit hc).1
      exact roomy_of_other h.roomy (made_createProcess hc).procs (Nat.le_succ_of_le hlen)
  | @shmGet _ p _ _ hl hc =>
      intro q hq
      have hk := keep_shmGet (q + 1) hc
      rw [hk.procs q (by omega)]
      exact h.roomy q hq
  | shmAttach hl hc =>
      exact roomy_of_other h.roomy (keep_shmAttach hc).procs
        (h.spaces.attach_room h.own hl.1 hl.2 hc)
  | @shmDetach _ p _ _ hl hc =>
      obtain ⟨f, hf⟩ := (detached_shmDetach hc).proc
      exact roomy_of_other h.roomy (keep_shmDetach hc).procs (by rw [hf]; exact h.roomy p hl.1)
  | exit hl hi hc =>
      obtain ⟨k1, hr, rfl⟩ := sysExit_ok hc
      have hg := gone_releaseProcess hr
      refine roomy_of_other h.roomy (p := k.currentProc) ?_ ?_
      · intro q hq
        exact (hg.procs q hq).trans (setProc_of_ne _ _ _ hq)
      · show (k1.procs k.currentProc).appended.length ≤ _
        rw [hg.appended]
        exact Nat.zero_le _
  | yield hc =>
      rw [h.settled.yield_eq hc]
      exact h.roomy

theorem spaces_step {e : Event} (h : Inv L X k) (hs : Step L k e k') (hfit : ImageFits L e)
    (hid' : Ids k') (hc' : Counted k') : Spaces L k' := by
  cases hs with
  | create hc =>
      exact h.spaces.create h.own (fun q hq hu => (h.settled.blank q hq hu).1) hfit hc
  | shmGet hl hc => exact h.spaces.shmGet h.own h.ids h.counted hc hid'
  | shmAttach hl hc => exact h.spaces.attach h.own h.ids hl.1 hl.2 hc hc'
  | shmDetach hl hc => exact h.spaces.detach h.own h.ids h.counted hl.1 hl.2 hc hc'
  | exit hl hi hc =>
      obtain ⟨k1, hr, rfl⟩ := sysExit_ok hc
      have hself : (exiting k).procs k.currentProc
          = { k.procs k.currentProc with state := .exited } := setProc_self ..
      have hproc : ∀ q, ∃ n s, (exiting k).procs q = { k.procs q with pid := n, state := s }
          ∧ (s ≠ .unused → (k.procs q).state ≠ .unused) := by
        intro q
        by_cases hq : q = k.currentProc
        · subst hq
          exact ⟨_, _, hself, fun _ => hl.2⟩
        · exact ⟨_, _, setProc_of_ne _ _ _ hq, id⟩
      have ho := h.own.exiting hl.1
      have hid : Ids (exiting k) := h.ids.thins (local_setProc k _ _).thins
      have hcx : Counted (exiting k) := by
        refine h.counted.same rfl fun q i _ _ => Or.inl ?_
        obtain ⟨n, s, e, _⟩ := hproc q
        rw [e]
      have hex : Spaces L (exiting k) := h.spaces.same h.own rfl rfl hproc
      have hst : ((exiting k).procs k.currentProc).state ≠ .unused := by
        rw [hself]; exact fun e => by cases e
      have h1 := hex.release ho hid hcx hl.1 hst hr
      obtain ⟨k1', hr', ho', _⟩ : ∃ k1', releaseProcess L (exiting k) k.currentProc = .ok k1'
          ∧ Own L (fun _ => True) k1' ∧ _ :=
        releaseProcess_spec hl.1 ho (fun _ _ => trivial) fun _ _ _ => trivial
      obtain rfl : k1 = k1' := by rw [hr] at hr'; injection hr'
      exact h1.scheduled ho'
  | yield hc =>
      rw [h.settled.yield_eq hc]
      exact h.spaces.scheduled h.own

/-- **Every call keeps the invariant**, under what the runs are assumed to do. -/
theorem inv_step {e : Event} (h : Inv L X k) (hs : Step L k e k') (hfit : ImageFits L e)
    (hfew : FewObjects k') (hX : ∀ next, e = .exit k.currentProc next →
      WritesOff X k k.currentProc) : Inv L X k' := by
  have hroom := roomy_step h hs hfit
  have hid := ids_step h.ids hs hfew
  have hc := counted_step h.settled h.own h.ids h.counted hs hroom
  exact ⟨settled_step h.settled hs, own_step h.settled h.own hs hroom hX, hid, hc,
    spaces_step h hs hfit hid hc⟩

/-- The kernel boots into the invariant, if the idle process's page tables fit its record. -/
theorem inv_boot (h : Booted L k) (hfit : regionsNeeded L 0 ≤ procRegionMax) : Inv L X k := by
  obtain ⟨m, hm⟩ := id h
  obtain ⟨k2, p, k3, ⟨ho, hb⟩, hc, hk⟩ := own_before_idle X hm
  have hnil : ∀ q, q < procsMax → (k2.procs q).state = .unused → (k2.procs q).appended = [] :=
    fun q _ _ => hb.appended q
  have hmade := made_createProcess hc
  obtain ⟨hlen, hsp, _⟩ := space_createProcess ho hnil (show regionsNeeded L [].length ≤ _ from hfit) hc
  obtain ⟨ho3, hcl⟩ := own_createProcess ho hnil hc (Nat.le_succ_of_le hlen)
  have hself : k.procs p = { k3.procs p with pid := 0 } := by
    rw [hk]
    exact setProc_self k3 p fun q => { q with pid := 0 }
  have hother : ∀ q, q ≠ p → k.procs q = k3.procs q := by
    intro q hq
    rw [hk]
    exact setProc_of_ne k3 p (fun q => { q with pid := 0 }) hq
  have hspaces : Spaces L k3 := by
    intro q hq hst
    by_cases hqp : q = p
    · rw [hqp]; exact hsp
    · rw [hmade.procs q hqp] at hst
      exact absurd (hb.state q) hst
  have hroom : Roomy k := by
    intro q hq
    by_cases hqp : q = p
    · rw [hqp, hself]; exact Nat.le_succ_of_le hlen
    · rw [hother q hqp, hmade.procs q hqp, hb.appended q]; exact Nat.zero_le _
  have hno := noObjects_boot h
  refine ⟨settled_boot h, own_boot h hroom, hno.ids, hno.counted ?_, ?_⟩
  · intro q i hq hi
    by_cases hqp : q = p
    · rw [hqp, hself]; dsimp only; rw [hcl i hi]; rfl
    · rw [hother q hqp, hmade.procs q hqp, hb.mappings q i hi]; rfl
  · refine hspaces.same ho3 (by rw [hk]; rfl) (by rw [hk]; rfl) fun q => ?_
    by_cases hqp : q = p
    · rw [hqp, hself]; exact ⟨0, _, rfl, id⟩
    · rw [hother q hqp]; exact ⟨_, _, rfl, id⟩

/--
Runs in which every process, the idle one included, takes at most `PROC_REGION_MAX` regions when
it is created, and fewer than `2 ^ 31 - 1` objects are ever made.
-/
def GuardedRun (L : Layout) : List Event → Kernel → Prop :=
  Run (fun k => Booted L k ∧ regionsNeeded L 0 ≤ procRegionMax)
    (fun k e k' => Step L k e k' ∧ ImageFits L e ∧ FewObjects k')

/-- **The invariant holds all along every such run.** -/
theorem inv_run {tr : List Event} (h : GuardedRun L tr k) : Inv L (fun _ => True) k :=
  Run.invariant (P := Inv L fun _ => True) (fun _ hb => inv_boot hb.1 hb.2)
    (fun _ _ _ hi hs => inv_step hi hs.1 hs.2.1 hs.2.2 fun _ _ _ _ _ => trivial) h

end Os1000.Proof
