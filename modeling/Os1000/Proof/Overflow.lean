import Os1000.Proof.Exclusive

/-!
# Records that run over

`create_process` does not check that the regions of an image fit `PROC_REGION_MAX`. How
many there are is known exactly, see `Tree.length_ge`: an image of 44 pages takes 65
with the layout here. The 65th index is written over `current_idx`, which then is a
slot of the region table and no count. The next index a process records goes to the
word of `struct process` that slot number happens to name, here in the kernel stack,
and `current_idx` is one more: the slot handed out after the process was created,
whoever has it. That slot is what `release_process` finds in the last word of the
record.
-/

namespace Os1000.Proof

open Os1000 Lib

/-! ## The length of a record -/

section

variable {L : Layout} {X : Nat → Prop} {k k' : Kernel} {p root : Nat} {T : Nat → Option Nat}
  {M : Nat → Nat} {V : List Nat}

theorem pte_ne_zero (pa fl : Nat) : pte pa fl ≠ 0 := by
  unfold pte pageV
  intro h
  have := Nat.or_eq_zero_iff.mp h
  omega

/-- There is a table at every place under which something is mapped. -/
theorem Tree.length_ge (h : Tree k p root T M) (hnd : V.Nodup)
    (hV : ∀ v, v ∈ V → v < 1024 ∧ ∃ j, j < 1024 ∧ M (v * 1024 + j) ≠ 0) :
    1 + V.length + (k.procs p).imageRegions.length ≤ (k.procs p).appended.length := by
  have hle : V.length ≤ (tables T).length := by
    unfold tables
    rw [List.length_filterMap_eq_countP, List.countP_eq_length_filter]
    refine (hnd.subperm ?_).length_le
    intro v hv
    obtain ⟨hlt, j, hj, hne⟩ := hV v hv
    refine List.mem_filter.mpr ⟨List.mem_range.mpr hlt, ?_⟩
    cases ht : T v with
    | none => exact absurd (h.sv32.bare v hlt (tableAddr_none ht) j hj) hne
    | some t => rfl
  rw [h.length_eq]
  omega

/-- Every table of an address space is there for a page outside the window. -/
theorem spaceTables_used {v : Nat} (hv : v ∈ spaceTables L (k.procs p).imageRegions.length)
    (himg : (k.procs p).imageRegions.length ≤ procRegionMax) (hpos : 0 < kernelPages L)
    (hk : kernelTables L ≤ 512) :
    v < 1024 ∧ ∃ j, j < 1024 ∧ imageMap L k p (v * 1024 + j) ≠ 0
      ∧ ¬ (windowVpn ≤ v * 1024 + j ∧ v * 1024 + j < windowVpn + procShmMax) := by
  have hbase : ∀ x, baseMap L x ≠ 0 → ¬ x < imageVpn + procRegionMax → imageMap L k p x ≠ 0 := by
    intro x hx hlt
    unfold imageMap
    rw [if_neg (by omega)]
    exact hx
  have hdev : ∀ x, x * pageSize ∈ devicePages → baseMap L x ≠ 0 := by
    intro x hx
    unfold baseMap deviceMap
    rw [if_pos hx]
    exact pte_ne_zero _ _
  unfold spaceTables at hv
  simp only [List.mem_append, List.mem_map, List.mem_range, List.mem_cons, List.not_mem_nil,
    or_false] at hv
  rcases hv with ⟨i, hi, rfl⟩ | (rfl | rfl) | ⟨i, hi, rfl⟩
  · -- the kernel begins in the middle of its first table
    obtain ⟨j, hj, hlo, hhi⟩ : ∃ j, j < 1024 ∧ kernelVpn ≤ (512 + i) * 1024 + j
        ∧ (512 + i) * 1024 + j < kernelVpn + kernelPages L := by
      have hvpn : kernelVpn = 512 * 1024 + 512 := by decide
      unfold kernelTables at hi
      rw [hvpn]
      by_cases h0 : i = 0
      · exact ⟨512, by omega, by omega, by omega⟩
      · exact ⟨0, by omega, by omega, by omega⟩
    refine ⟨by omega, j, hj, hbase _ ?_ ?_, ?_⟩
    · unfold baseMap deviceMap
      split
      · exact pte_ne_zero _ _
      · unfold kernelMap
        rw [if_pos ⟨hlo, hhi⟩]
        exact pte_ne_zero _ _
    · unfold imageVpn userBase pageSize procRegionMax
      omega
    · unfold windowVpn shmUserBase pageSize procShmMax
      omega
  · exact ⟨by omega, 1, by omega, hbase _ (hdev _ (by decide)) (by decide), by decide⟩
  · exact ⟨by omega, 0, by omega, hbase _ (hdev _ (by decide)) (by decide), by decide⟩
  · unfold imageTables at hi
    unfold procRegionMax at himg
    refine ⟨by omega, 0, by omega, ?_, ?_⟩
    · unfold imageMap
      rw [if_pos]
      · exact pte_ne_zero _ _
      · unfold imageVpn userBase pageSize
        omega
    · unfold windowVpn shmUserBase pageSize procShmMax
      omega

/-- What the idle process has recorded: its page table and nineteen tables. -/
theorem Opening.idle_length {n c o : Nat} (h : Opening sampleLayout n c o k) :
    20 ≤ (k.procs 0).appended.length := by
  obtain ⟨root, T, hsp⟩ := h.inv.spaces 0 (by decide) (by rw [h.runnable 0 (Nat.zero_le _)]; decide)
  have hlen := hsp.fits
  have hnd : (spaceTables sampleLayout 0).Nodup := by decide
  have hge := hsp.tree.length_ge (V := spaceTables sampleLayout 0) hnd (by
    intro v hv
    have hsub : v ∈ spaceTables sampleLayout (k.procs 0).imageRegions.length := by
      unfold spaceTables at hv ⊢
      simp only [List.mem_append] at hv ⊢
      rcases hv with hv | hv | hv
      · exact Or.inl hv
      · exact Or.inr (Or.inl hv)
      · exact absurd hv (by simp [imageTables])
    obtain ⟨h1, j, hj, h2, h3⟩ := spaceTables_used hsub (by omega) (by decide) (by decide)
    refine ⟨h1, j, hj, ?_⟩
    unfold spaceMap
    rw [if_neg h3]
    exact h2)
  have h19 : (spaceTables sampleLayout 0).length = 19 := by decide
  omega

/-- Regions taken from a table in which only the first `n` slots are taken are among those. -/
theorem Opening.appended_le {n c o : Nat} (h : Opening L n c o k) (hp : p < procsMax) :
    (k.procs p).appended.length ≤ n := by
  have hsub : (k.procs p).appended.Subperm ((List.range n).map (· + 1)) := by
    refine (h.inv.own.nodup p hp).subperm ?_
    intro r hr
    obtain ⟨h1, h2, _⟩ := h.inv.own.page hp hr
    have h0 : r ≠ 0 := by
      rintro rfl
      rw [h.plenty.rest] at h2
      cases h2
    have hle : r ≤ n := by
      by_contra hgt
      rw [h.plenty.beyond r (by omega) h1] at h2
      cases h2
    exact List.mem_map.mpr ⟨r - 1, List.mem_range.mpr (by omega), by omega⟩
  have := hsub.length_le
  rwa [List.length_map, List.length_range] at this

end

/-! ## One region too many -/

/-- An image of 44 pages. -/
def bigImage : List UInt8 := List.replicate 180224 0

theorem bigImage_length : bigImage.length = 180224 := List.length_replicate

/--
Process 1 has recorded 65 regions, which are the slots `n + 1` to `n + 65`, and no table for the
window; `m` slots are taken in all.
-/
structure Packed (n m : Nat) (k : Kernel) : Prop where
  own : Own sampleLayout (fun _ => False) k
  settled : Settled k
  ids : Ids k
  plenty : Plenty m k.regions
  appended : (k.procs 1).appended = (List.range 65).map (n + 1 + ·)
  state : (k.procs 1).state = .runnable
  tree : ∃ root T M, Tree k 1 root T M ∧ T (vpn1 shmUserBase) = none
  unmapped : ∀ i, i < procShmMax → ((k.procs 1).shmMappings i).used = 0

section

variable {n m o : Nat} {k k' : Kernel}

/-- The process is created: `create_process` does not check. -/
theorem packed_create (h : Opening sampleLayout n 0 o k) (hn : n + 66 < maxRegions) :
    ∃ k', createProcess sampleLayout k bigImage = .ok (1, k') ∧ Packed n (n + 65) k' := by
  have hneed : regionsNeeded sampleLayout bigImage.length = 65 := by
    rw [bigImage_length]; decide
  have hpages : imagePages bigImage.length = 44 := by rw [bigImage_length]; decide
  obtain ⟨k', hk', hs, hle⟩ := (plenty_supply sampleLayout n).createProcess (p := 1) bigImage
    h.inv.own h.blank (by decide) (h.unused 1 (by decide) (by decide))
    (fun q hq => by rw [h.runnable q (by omega)]; decide) (by rw [hneed]; decide) (by omega)
    ⟨h.plenty, h.inv.own.part, rfl⟩
  have hmade := made_createProcess hk'
  obtain ⟨ho, hcl⟩ := own_createProcess h.inv.own h.blank hk' (by rw [hneed] at hle; exact hle)
  obtain ⟨hp, hu, _, k1, hb, hkk⟩ := createProcess_ok hk'
  have hr := resetProcess_spec sampleLayout k 1
  obtain ⟨hbuilt, himg⟩ := built_buildSpace (h.inv.own.reset hr (h.blank 1 hp hu)) hp hr.appended
    hr.imageRegions (by rw [hneed]; decide) hb
  rw [hpages] at himg hbuilt
  obtain ⟨root, T, ht, hdom⟩ := hbuilt.tree
  have ht' : Tree k' 1 root T (imageMap sampleLayout k1 1) := by
    rw [hkk]
    exact ht.of_eq rfl (by rw [setProc_self]) (by rw [setProc_self]) (by rw [setProc_self])
  have hlen : (k'.procs 1).appended.length = 65 := by
    have hnd : (spaceTables sampleLayout 44).Nodup := by decide
    have h20 : (spaceTables sampleLayout 44).length = 20 := by decide
    have hge := ht.length_ge hnd fun v hv => by
      rw [← himg] at hv
      obtain ⟨h1, j, hj, h2, _⟩ := spaceTables_used hv (by rw [himg]; decide) (by decide) (by decide)
      exact ⟨h1, j, hj, h2⟩
    have hsame : (k'.procs 1).appended = (k1.procs 1).appended := by
      rw [hkk, setProc_self]
    rw [hsame] at hle ⊢
    omega
  have hpl := hs.1
  have happ := hs.2.2
  rw [hlen] at hpl happ
  refine ⟨k', hk', ho, h.inv.settled.made hmade, h.inv.ids.thins hmade.toLocal.thins, hpl, happ,
    hmade.state, ⟨root, T, _, ht', ?_⟩, fun i hi => by rw [hcl i hi]; rfl⟩
  by_contra hne
  exact absurd (hdom _ (by decide) hne) (by decide)

theorem Packed.yield (h : Packed n m k) :
    Step sampleLayout k (.yield (findNext k)) (scheduled k) ∧ Packed n m (scheduled k) := by
  have hs := h.settled.yield_step sampleLayout
  obtain ⟨root, T, M, ht, hT⟩ := h.tree
  exact ⟨hs, h.own.scheduled, settled_step h.settled hs,
    h.ids.thins (thins_of_eq rfl rfl rfl rfl), h.plenty, h.appended, h.state,
    ⟨root, T, M, ht.of_eq rfl rfl rfl rfl, hT⟩, h.unmapped⟩

/-- The process makes an object. -/
theorem Packed.shmGet {key : Int} {s : Nat} (h : Packed n m k) (hkey : 0 < key)
    (hnone : findByKey k key = none) (hs : s < shmMax) (hu : (k.shmTable s).used = false)
    (hlow : ∀ j, j < s → (k.shmTable j).used = true) (hm : m + 1 < maxRegions)
    (hfew : k.shmCreated + 1 < 2 ^ 31 - 1) :
    ∃ pa r, Step sampleLayout k (.shmGet 1 key k.nextShmId) (created k s key pa (m + 1) r)
      ∧ FewObjects (created k s key pa (m + 1) r)
      ∧ Packed n (m + 1) (created k s key pa (m + 1) r) := by
  obtain ⟨r, ha, hget, hpl, _⟩ := plenty_shmGet h.plenty h.own.part hkey hnone hs hu hlow hm
  have hl : Live k 1 := ⟨by decide, by rw [h.state]; decide⟩
  have hstep : Step sampleLayout k (.shmGet 1 key k.nextShmId) _ := .shmGet hl hget
  have hf : FewObjects (created k s key (k.regions 0).start (m + 1) r) := hfew
  obtain ⟨root, T, M, ht, hT⟩ := h.tree
  refine ⟨_, r, hstep, hf, own_shmGet h.own hget, settled_step h.settled hstep,
    ids_step h.ids hstep hf, hpl, h.appended, h.state, ⟨root, T, M, ?_, hT⟩, h.unmapped⟩
  exact (ht.alloc (h.own.hold (by decide)) ha).of_eq rfl rfl rfl rfl

/-- An index recorded when `current_idx` names a word of the kernel stack. -/
theorem recordRegion_stack (L : Layout) {p r : Nat} (hidx : stackWord ≤ (k.procs p).currentIdx)
    (hlt : (k.procs p).currentIdx < maxRegions) :
    ∃ mem, recordRegion L k p r = { k.setProc p fun q => { q with
        currentIdx := q.currentIdx + 1
        appended := q.appended ++ [r]
        regionWrites := q.regionWrites ++ [q.currentIdx] } with mem := mem } := by
  have hu : u32 ((k.procs p).currentIdx + 1) = (k.procs p).currentIdx + 1 :=
    u32_of_lt (by unfold maxRegions at hlt; omega)
  have h1 : ¬ (k.procs p).currentIdx < procRegionMax := by
    unfold stackWord mappingsWord at hidx; omega
  have h2 : ¬ (k.procs p).currentIdx < mappingsWord := by unfold stackWord at hidx; omega
  unfold recordRegion setRegion Kernel.noteWrite
  dsimp only
  rw [hu, if_neg h1, if_neg h2, if_neg (by omega), setProc_setProc]
  exact ⟨_, rfl⟩

/-- What attaching has made of process 1: `current_idx` is now the slot after its own. -/
structure Astray (n m s : Nat) (id : Int) (k k' : Kernel) : Prop where
  part : Partition sampleLayout k'.regions
  plenty : Plenty m k'.regions
  regions : (k'.procs 1).regions = (k.procs 1).regions
  currentIdx : (k'.procs 1).currentIdx = n + 66
  mappings : (k'.procs 1).shmMappings
    = Function.update (k.procs 1).shmMappings 0 ⟨1, id, slotAddr 0⟩
  state : (k'.procs 1).state = .runnable
  currentProc : k'.currentProc = k.currentProc
  idleProc : k'.idleProc = k.idleProc
  shmTable : k'.shmTable = Function.update k.shmTable s
    { k.shmTable s with refcount := (k.shmTable s).refcount + 1 }

/-- **The process attaches an object**, and the index of the table for its window goes astray. -/
theorem Packed.shmAttach {s : Nat} (h : Packed n m k) (hn : 12 ≤ n) (hm : m + 1 < maxRegions)
    (hnm : n + 65 ≤ m) (hs : s < shmMax) (hu : (k.shmTable s).used = true) :
    ∃ k', Step sampleLayout k (.shmAttach 1 (k.shmTable s).id (slotAddr 0)) k'
      ∧ k'.shmCreated = k.shmCreated ∧ Astray n (m + 1) s (k.shmTable s).id k k' := by
  obtain ⟨root, T, M, ht, hT⟩ := h.tree
  obtain ⟨r, ha, hpl, _⟩ := h.plenty.alloc h.own.part hm (show 1 ≤ 8 by omega)
  have hpart := partition_alloc h.own.part (by decide) (allocPages_ok.mp ha).1
  have hidx : (k.procs 1).currentIdx = n + 65 := by
    refine (h.own.recorded 1 (by decide)).overrun (n + 65) ?_
    rw [h.appended]
    simp [procRegionMax]
  have hentry : entry1 k 1 (vpn1 (slotAddr 0)) &&& pageV = 0 := by
    by_contra hne
    exact (ht.entry1_valid (vpn1_lt _)).mp hne hT
  obtain ⟨mem, hrec⟩ := recordRegion_stack sampleLayout (k := { k with toRam := r }) (p := 1)
    (r := m + 1) (by show _ ≤ (k.procs 1).currentIdx; rw [hidx]; unfold stackWord mappingsWord
                       procRegionMax procShmMax; omega)
    (by show (k.procs 1).currentIdx < _; rw [hidx]; omega)
  have hpa : (k.shmTable s).pa % pageSize = 0 := by
    obtain ⟨h1, h2⟩ := h.own.of_holds (o := .shm s) ⟨hs, hu, rfl⟩
    rw [h.own.shmPa s hs hu]
    exact (h.own.part.aligned (k.shmTable s).regionIdx ⟨h1, by rw [h2]; decide⟩).1
  obtain ⟨k1, hmap, mem', hk1⟩ : ∃ k1, mapPage sampleLayout k 1 (slotAddr 0) (k.shmTable s).pa
      (pageU ||| pageR ||| pageW) = .ok k1 ∧ ∃ mem, k1 = { ({ k with toRam := r } : Kernel).setProc 1
        fun q => { q with
          currentIdx := q.currentIdx + 1
          appended := q.appended ++ [m + 1]
          regionWrites := q.regionWrites ++ [q.currentIdx] }
        with mem := mem } := by
    unfold Os1000.mapPage
    dsimp only
    rw [if_neg (fun hne => hne (slotAddr_aligned 0)), if_neg (fun hne => hne hpa)]
    refine ⟨_, bind_eq_ok.mpr ⟨_, ensureTable_of_alloc hentry ha, rfl⟩, ?_⟩
    unfold linked
    dsimp only
    rw [hrec]
    exact ⟨_, rfl⟩
  have hfind : (List.range procShmMax).find?
      (fun i => decide (((k.procs 1).shmMappings i).used = 0)) = some 0 := by
    rw [List.find?_range_eq_some]
    exact ⟨by simpa using h.unmapped 0 (by decide), by decide, fun j hj => by omega⟩
  have hat : Os1000.shmAttach sampleLayout k 1 (k.shmTable s).id
      = .ok (slotAddr 0, attached k1 1 0 s (k.shmTable s).id) := by
    unfold Os1000.shmAttach
    rw [h.ids.findById_eq hs hu]
    dsimp only
    rw [hfind]
    exact bind_eq_ok.mpr ⟨k1, hmap, rfl⟩
  have hproc : k1.procs 1 = { k.procs 1 with
      currentIdx := (k.procs 1).currentIdx + 1
      appended := (k.procs 1).appended ++ [m + 1]
      regionWrites := (k.procs 1).regionWrites ++ [(k.procs 1).currentIdx] } := by
    rw [hk1]
    dsimp only
    rw [setProc_self]
  have hself : (attached k1 1 0 s (k.shmTable s).id).procs 1 = { k1.procs 1 with
      shmMappings := Function.update (k1.procs 1).shmMappings 0
        ⟨1, (k.shmTable s).id, slotAddr 0⟩ } := by
    unfold attached
    rw [setObj_procs]
    exact setMapping_self ..
  have htab : k1.shmTable = k.shmTable := by rw [hk1]; rfl
  have hreg : k1.regions = r.regions := by rw [hk1]; rfl
  have hcr : k1.shmCreated = k.shmCreated := by rw [hk1]; rfl
  refine ⟨_, .shmAttach ⟨by decide, by rw [h.state]; decide⟩ hat, hcr,
    ⟨?_, ?_, ?_, ?_, ?_, ?_, ?_, ?_, ?_⟩⟩
  · show Partition _ k1.regions
    rw [hreg]; exact hpart
  · show Plenty _ k1.regions
    rw [hreg]; exact hpl
  · rw [hself, hproc]
  · rw [hself, hproc]
    dsimp only
    rw [hidx]
  · rw [hself, hproc]
  · rw [hself, hproc]; exact h.state
  · show k1.currentProc = _
    rw [hk1]; rfl
  · show k1.idleProc = _
    rw [hk1]; rfl
  · show Function.update k1.shmTable s _ = _
    rw [htab]

/-- Cleaning up after a process that has only slot 0 attached. -/
theorem shmProcessCleanup_one {p : Nat} {ret : Int} {k1 : Kernel}
    (hu : ((k.procs p).shmMappings 0).used ≠ 0)
    (hd : shmDetach k p ((k.procs p).shmMappings 0).vaddr = .ok (ret, k1))
    (hrest : ∀ i, i < procShmMax → ((k1.procs p).shmMappings i).used = 0) :
    shmProcessCleanup k p = .ok k1 := by
  have hloop : ∃ k', shmProcessCleanup k p = .ok k'
      ∧ if procShmMax = 0 then k' = k else k' = k1 := by
    refine loopM_ok (fun n t => if n = 0 then t = k else t = k1) procShmMax rfl ?_
    intro i t hi ht
    dsimp only
    by_cases h0 : i = 0
    · subst h0
      rw [if_pos rfl] at ht
      subst ht
      refine ⟨k1, ?_, by simp⟩
      rw [if_pos hu]
      exact bind_eq_ok.mpr ⟨(ret, k1), hd, rfl⟩
    · rw [if_neg h0] at ht
      subst ht
      refine ⟨t, ?_, by simp⟩
      rw [if_neg (fun hne => hne (hrest i hi))]
      rfl
  obtain ⟨k', hk', hend⟩ := hloop
  rw [if_neg (by decide)] at hend
  rw [← hend]
  exact hk'

/-- The slots `release_process` frees for a process whose record ran over. -/
theorem released_astray {q : Process} (hreg : ∀ j, j < procRegionMax → q.regions j = n + 1 + j)
    (hidx : q.currentIdx = n + 66) {j : Nat} (hj : j ≤ procRegionMax + 1) :
    releasedUpTo q j = ((List.range 64).map (n + 1 + ·) ++ [n + 66]).take j := by
  induction j with
  | zero => rfl
  | succ j ih =>
      rw [releasedUpTo_succ, ih (by omega), List.take_add_one]
      congr 1
      unfold releaseAt recordWord
      unfold procRegionMax at hreg hj
      by_cases hlt : j < 64
      · rw [if_pos (show j < procRegionMax from hlt), hreg j hlt, hidx,
          if_pos ⟨by omega, by omega⟩, List.getElem?_append_left (by simpa using hlt)]
        simp [hlt]
      · obtain rfl : j = 64 := by omega
        rw [if_neg (show ¬ 64 < procRegionMax by decide), hidx, if_pos ⟨by omega, by omega⟩]
        simp

/--
**The process exits**, and `release_process` frees the slot `current_idx` has come to name: that of
an object some other call made.
-/
theorem Astray.exit {s : Nat} (h : Astray n m s (k.shmTable s).id k k') (hids : Ids k')
    (hcur : k.currentProc = 1) (hidle : k.idleProc = 0) (hn : n + 68 ≤ m) (hm : m < maxRegions)
    (hregs : ∀ j, j < procRegionMax → (k.procs 1).regions j = n + 1 + j)
    (hun : ∀ i, i < procShmMax → ((k.procs 1).shmMappings i).used = 0)
    (hs : s < shmMax) (hu : (k.shmTable s).used = true) (hidx : (k.shmTable s).regionIdx = n + 67)
    (href : (k.shmTable s).refcount = 0) :
    ∃ k'' next, Step sampleLayout k' (.exit 1 next) k''
      ∧ (∀ s', s' ≠ s → k''.shmTable s' = k.shmTable s')
      ∧ (k''.regions (n + 66)).state ≠ .allocated := by
  have hcur' : k'.currentProc = 1 := h.currentProc.trans hcur
  have htaken : ∀ r, 1 ≤ r → r ≤ m → (k'.regions r).state = .allocated :=
    fun r h1 h2 => h.plenty.taken r h1 h2
  obtain ⟨k0, hk0⟩ : ∃ k0, exiting k' = k0 := ⟨_, rfl⟩
  have hids0 : Ids k0 := by rw [← hk0]; exact hids.thins (local_setProc k' _ _).thins
  have hproc0 : k0.procs 1 = { k'.procs 1 with state := .exited } := by
    rw [← hk0]
    unfold exiting
    rw [hcur']
    exact setProc_self ..
  have hreg0 : k0.regions = k'.regions := by rw [← hk0]; rfl
  have htab0 : k0.shmTable = k'.shmTable := by rw [← hk0]; rfl
  have hmap0 : (k0.procs 1).shmMappings
      = Function.update (k.procs 1).shmMappings 0 ⟨1, (k.shmTable s).id, slotAddr 0⟩ := by
    rw [hproc0]; exact h.mappings
  have hobj0 : k0.shmTable s = { k.shmTable s with refcount := (k.shmTable s).refcount + 1 } := by
    rw [htab0, h.shmTable]
    exact Function.update_self ..
  have hslot0 : (k0.procs 1).shmMappings 0 = ⟨1, (k.shmTable s).id, slotAddr 0⟩ := by
    rw [hmap0]; exact Function.update_self ..
  -- cleaning up detaches the one mapping, whose object goes with it
  have hfound : (List.range procShmMax).find? (fun i => decide
      (((k0.procs 1).shmMappings i).used ≠ 0 ∧ ((k0.procs 1).shmMappings i).vaddr = slotAddr 0))
      = some 0 := by
    rw [List.find?_range_eq_some]
    exact ⟨by rw [hslot0]; simp, by decide, fun j hj => by omega⟩
  have hfind : findById k0 (k.shmTable s).id = some s := by
    have := hids0.findById_eq hs (by rw [hobj0]; exact hu)
    rw [hobj0] at this
    exact this
  obtain ⟨k1, hun1⟩ := unmapPage_of_aligned (k := k0) (p := 1) (slotAddr_aligned 0)
  obtain ⟨htab1, hproc1, _⟩ := unmapPage_shmTable hun1
  have hreg1 : k1.regions = k0.regions := by
    rcases unmapPage_ok hun1 with ⟨_, rfl⟩ | ⟨_, rfl⟩
    · rfl
    · rfl
  have hobj1 : (k1.setMapping 1 0 .cleared).shmTable s
      = { k.shmTable s with refcount := (k.shmTable s).refcount + 1 } := by
    rw [setMapping_shmTable, htab1, hobj0]
  obtain ⟨k2, hput⟩ : ∃ k2, shmPut (k1.setMapping 1 0 .cleared) s = .ok k2 := by
    unfold shmPut
    dsimp only
    rw [hobj1]
    dsimp only
    rw [if_pos (by omega), hidx]
    refine ⟨_, bind_eq_ok.mpr ⟨_, releasePages_of_allocated (by omega) ?_, rfl⟩⟩
    show (k1.regions (n + 67)).state = .allocated
    rw [hreg1, hreg0]
    exact htaken _ (by omega) (by omega)
  have hd : shmDetach k0 1 ((k0.procs 1).shmMappings 0).vaddr = .ok (0, k2) := by
    rw [hslot0]
    unfold shmDetach
    dsimp only
    rw [hfound]
    dsimp only
    rw [hslot0, hfind]
    exact bind_eq_ok.mpr ⟨k1, hun1, bind_eq_ok.mpr ⟨k2, hput, rfl⟩⟩
  obtain ⟨r2, hrel, hk2⟩ : ∃ r2, releasePages k1.toRam ((n + 67 : Nat) : Int) = .ok r2
      ∧ k2 = destroyed (k1.setMapping 1 0 .cleared) s r2 := by
    rcases shmPut_ok hput with ⟨hgt, _⟩ | ⟨_, r2, hrel, rfl⟩
    · rw [hobj1] at hgt
      dsimp only at hgt
      omega
    · rw [hobj1] at hrel
      dsimp only at hrel
      rw [hidx, setMapping_toRam] at hrel
      exact ⟨r2, hrel, rfl⟩
  have hR := released_one (by rw [hreg1, hreg0]; exact h.part) hrel
  have hproc2 : k2.procs 1 = { k0.procs 1 with
      shmMappings := Function.update (k0.procs 1).shmMappings 0 .cleared } := by
    rw [hk2]
    show (k1.setMapping 1 0 .cleared).procs 1 = _
    rw [setMapping_self, hproc1]
  have hcl : shmProcessCleanup k0 1 = .ok k2 := by
    refine shmProcessCleanup_one (by rw [hslot0]; exact one_ne_zero) hd fun i hi => ?_
    rw [hproc2, hmap0]
    dsimp only
    by_cases hi0 : i = 0
    · rw [hi0, Function.update_self]; rfl
    · rw [Function.update_of_ne hi0, Function.update_of_ne hi0]; exact hun i hi
  -- then the record is worked off, up to the word that is `current_idx`
  have hregs2 : ∀ j, j < procRegionMax → (k2.procs 1).regions j = n + 1 + j := by
    intro j hj
    rw [hproc2, hproc0]
    dsimp only
    rw [h.regions]
    exact hregs j hj
  have hidx2 : (k2.procs 1).currentIdx = n + 66 := by
    rw [hproc2, hproc0]; exact h.currentIdx
  have hram2 : k2.toRam = r2 := by rw [hk2]; rfl
  obtain ⟨k3, hk3, hl3, hall, _⟩ := releaseRegions_ok (L := sampleLayout) (k := k2) (p := 1) (by
    intro j hj
    rw [released_astray hregs2 hidx2 hj, hram2]
    refine releaseAll_of_allocated hR.part ?_ ?_
    · refine (List.take_sublist _ _).nodup (List.nodup_append.mpr ⟨?_, by simp, ?_⟩)
      · exact List.nodup_range.map fun a b e => by simpa using e
      · intro a ha b hb e
        obtain ⟨x, hx, rfl⟩ := List.mem_map.mp ha
        have := List.mem_range.mp hx
        rw [List.mem_singleton.mp hb] at e
        omega
    · intro i hi
      have hrange : 1 ≤ i ∧ i ≤ n + 66 := by
        rcases List.mem_append.mp (List.mem_of_mem_take hi) with hi | hi
        · obtain ⟨x, hx, rfl⟩ := List.mem_map.mp hi
          have := List.mem_range.mp hx
          omega
        · rw [List.mem_singleton.mp hi]
          omega
      have hst : (k1.regions i).state = .allocated := by
        rw [hreg1, hreg0]
        exact htaken i hrange.1 (by omega)
      refine ⟨by omega, ?_⟩
      rw [hR.keep i (by rw [List.mem_singleton]; omega) hst]
      exact hst)
  have hrelp : ∃ k4, releaseProcess sampleLayout k0 1 = .ok k4 := by
    unfold releaseProcess
    exact ⟨_, bind_eq_ok.mpr ⟨k2, hcl, bind_eq_ok.mpr ⟨k3, hk3, rfl⟩⟩⟩
  obtain ⟨k4, hk4⟩ := hrelp
  have hex : sysExit sampleLayout k' = .ok (scheduled k4) := by
    unfold sysExit yield
    dsimp only
    rw [setProc_currentProc, setProc_self, if_pos rfl]
    refine bind_eq_ok.mpr ⟨k4, ?_, rfl⟩
    rw [← hk0] at hk4
    rw [hcur']
    exact hcur' ▸ hk4
  have hl : Live k' k'.currentProc := by
    rw [hcur']
    exact ⟨by decide, by rw [h.state]; decide⟩
  have hne : k'.currentProc ≠ k'.idleProc := by
    rw [hcur', h.idleProc, hidle]
    decide
  have hstep := Step.exit hl hne hex
  rw [hcur'] at hstep
  obtain ⟨k2', k3', f, e2, e3, _, he4⟩ := releaseProcess_ok hk4
  obtain rfl : k2 = k2' := by rw [hcl] at e2; injection e2
  obtain rfl : k3 = k3' := by rw [hk3] at e3; injection e3
  refine ⟨_, _, hstep, ?_, ?_⟩
  · intro s' hs'
    show k4.shmTable s' = _
    rw [he4, setProc_shmTable, hl3.shmTable, hk2]
    show Function.update k1.shmTable s _ s' = _
    rw [Function.update_of_ne hs', htab1, htab0, h.shmTable, Function.update_of_ne hs']
  · intro hst
    have hst : (k3.regions (n + 66)).state = .allocated := by
      have hreg4 : k4.regions = k3.regions := by rw [he4]; rfl
      rw [← hreg4]
      exact hst
    have hR3 := releaseAll_released (by rw [hram2]; exact hR.part) hall
    refine (hR3.back _ hst).2 ?_
    unfold released
    rw [released_astray hregs2 hidx2 (le_refl _), List.take_of_length_le (by simp [procRegionMax])]
    exact List.mem_append_right _ (List.mem_singleton_self _)

end

end Os1000.Proof
