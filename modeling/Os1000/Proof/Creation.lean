import Os1000.Proof.PageTables

/-!
# The address space of a new process

What `create_process` leaves behind, for every image and whatever happened before: the
kernel and the devices mapped onto themselves, the image in pages that were in nobody's
use, nothing else mapped, and in the image's pages the image and zeros.

Two things make this hold in every state the kernel can reach. The allocator's table is a
partition of free RAM after every call, whatever the callers do with what they got. And
building an address space needs nothing but that: the record of the new process starts
empty, and where it ends up does not matter to the pages.
-/

namespace Os1000.Proof

open Os1000 Lib

/-! ## The allocator's table along every run -/

section

variable {L : Layout} {k k' : Kernel} {p : Nat}

theorem part_mapPage {va pa fl : Nat} (h : Partition L k.regions)
    (hm : mapPage L k p va pa fl = .ok k') : Partition L k'.regions := by
  obtain ⟨_, _, k1, he, rfl⟩ := mapPage_ok hm
  rcases ensureTable_ok he with ⟨_, rfl⟩ | ⟨_, pt, idx, r, ha, rfl⟩
  · exact h
  · have hreg : (linked L k p (vpn1 va) pt idx r).regions = r.regions :=
      recordRegion_table L { k with toRam := r } p idx
    show Partition L (linked L k p (vpn1 va) pt idx r).regions
    rw [hreg]
    exact partition_alloc h (by decide) (allocPages_ok.mp ha).1

theorem part_buildSpace {image : List UInt8} (h : Partition L k.regions)
    (hb : buildSpace L k p image = .ok k') : Partition L k'.regions := by
  refine buildSpace_inv (fun t => Partition L t.regions) ?_ ?_ ?_ hb
  · intro t ht
    obtain ⟨pt, idx, r, ha, rfl⟩ := allocPageTable_ok ht
    rw [recordRegion_table]
    exact partition_alloc h (by decide) (allocPages_ok.mp ha).1
  · intro t t' va pa fl ht hm
    exact part_mapPage ht hm
  · intro t page region r bytes ht ha
    show Partition L (recordRegion L { t with toRam := r } p region).regions
    rw [recordRegion_table]
    exact partition_alloc ht (by decide) (allocPages_ok.mp ha).1

theorem part_createProcess {image : List UInt8} (h : Partition L k.regions)
    (hc : createProcess L k image = .ok (p, k')) : Partition L k'.regions := by
  obtain ⟨_, _, _, k1, hb, rfl⟩ := createProcess_ok hc
  have h0 : Partition L (resetProcess L k p).regions := by
    rw [(resetProcess_spec L k p).table]
    exact h
  have h1 := part_buildSpace h0 hb
  exact h1

theorem part_shmPut {s : Nat} (h : Partition L k.regions) (hput : shmPut k s = .ok k') :
    Partition L k'.regions := by
  rcases shmPut_ok hput with ⟨_, rfl⟩ | ⟨_, r, hrel, rfl⟩
  · exact h
  · exact partition_release h hrel

theorem part_shmDetach {vaddr : Nat} {ret : Int} (h : Partition L k.regions)
    (hd : shmDetach k p vaddr = .ok (ret, k')) : Partition L k'.regions := by
  rcases shmDetach_ok hd with ⟨_, rfl, _⟩ | ⟨_, i, k1, _, hun, hrest⟩
  · exact h
  · have h1 : Partition L (k1.setMapping p i .cleared).regions := by
      rcases unmapPage_ok hun with ⟨_, rfl⟩ | ⟨_, rfl⟩
      · exact h
      · exact h
    rcases hrest with ⟨_, rfl⟩ | ⟨s, _, hput⟩
    · exact h1
    · exact part_shmPut h1 hput

theorem part_releaseProcess (h : Partition L k.regions) (hr : releaseProcess L k p = .ok k') :
    Partition L k'.regions := by
  obtain ⟨k1, k2, f, h1, h2, _, rfl⟩ := releaseProcess_ok hr
  have g1 : Partition L k1.regions :=
    shmProcessCleanup_inv (fun _ t => Partition L t.regions) h (fun _ _ _ ht _ => ht)
      (fun _ _ _ _ _ ht _ hd => part_shmDetach ht hd) h1
  refine loopM_inv (fun _ t => Partition L t.regions) (procRegionMax + 1) g1 ?_ h2
  intro i t t' _ ht hb
  -- whatever word of the slot is taken for a region index
  split at hb
  · split at hb
    · obtain ⟨r, hrel, hb⟩ := bind_eq_ok.mp hb
      rw [← pure_eq_ok.mp hb, setRegion_table]
      exact partition_release ht hrel
    · rw [← pure_eq_ok.mp hb]; exact ht
  · rw [← pure_eq_ok.mp hb]; exact ht

theorem part_step {e : Event} (h : Partition L k.regions) (hs : Step L k e k') :
    Partition L k'.regions := by
  cases hs with
  | create hc => exact part_createProcess h hc
  | shmGet hl hg =>
      rcases shmGet_ok hg with ⟨_, rfl⟩ | ⟨_, _, _, rfl⟩ | ⟨_, _, s, pa, idx, r, _, _, ha, _, rfl⟩
      · exact h
      · exact h
      · exact partition_alloc h (by decide) (allocPages_ok.mp ha).1
  | shmAttach hl ha =>
      rcases shmAttach_ok ha with ⟨_, rfl⟩ | ⟨s, slot, k1, _, _, _, hm, _, rfl⟩
      · exact h
      · have h1 := part_mapPage h hm
        exact h1
  | shmDetach hl hd => exact part_shmDetach h hd
  | exit hl hi hx =>
      obtain ⟨k1, hr, rfl⟩ := sysExit_ok hx
      have h1 := part_releaseProcess (k := exiting k) h hr
      exact h1
  | yield hy =>
      rcases yield_ok hy with ⟨_, k1, hr, rfl⟩ | ⟨_, rfl⟩
      · have h1 := part_releaseProcess h hr
        exact h1
      · exact h

/-- **Free RAM is partitioned in every state the kernel reaches.** -/
theorem part_run {tr : List Event} (h : Run (Booted L) (Step L) tr k) : Partition L k.regions := by
  refine h.invariant (P := fun k => Partition L k.regions) ?_ fun _ _ _ hP hs => part_step hP hs
  rintro t ⟨m, hm⟩
  obtain ⟨k2, p, k3, ⟨ho, _⟩, hc, rfl⟩ := own_before_idle (fun _ => True) hm
  have h3 := part_createProcess ho.part hc
  exact h3

/-! ## What the new process maps -/

/-- **`create_process` builds the space and loads the image.** -/
theorem laid_createProcess {image : List UInt8} (h : Partition L k.regions)
    (hc : createProcess L k image = .ok (p, k')) :
    Laid L k p (spaceTables L (imagePages image.length)) k' (imageMap L k' p)
      ∧ ImageLoaded k' p image (imagePages image.length) := by
  obtain ⟨hp, _, _, k1, hb, hk'⟩ := createProcess_ok hc
  have hr := resetProcess_spec L k p
  have hh : Hold L (resetProcess L k p) p :=
    hold_nil (by rw [hr.table]; exact h) hr.appended hr.currentIdx
  obtain ⟨hlaid, hload⟩ := laid_buildSpace hh hp hr.appended hr.imageRegions hb
  have hself : k'.procs p
      = { k1.procs p with pid := p + 1, state := .runnable, sp := stackTop L p - 4 * 13 } := by
    rw [hk']; exact setProc_self ..
  have hram : k'.toRam = k1.toRam := by rw [hk']; rfl
  have hreg : k'.regions = k1.regions := congrArg Ram.regions hram
  have hmem : k'.mem = k1.mem := congrArg Ram.mem hram
  have himg : (k'.procs p).imageRegions = (k1.procs p).imageRegions := by rw [hself]
  have happ : (k'.procs p).appended = (k1.procs p).appended := by rw [hself]
  refine ⟨⟨?_, ?_, ?_, ?_⟩, ⟨by rw [himg]; exact hload.length, ?_⟩⟩
  · rw [hk']; exact hlaid.hold.setProc rfl rfl
  · obtain ⟨root, T, ht, hdom⟩ := hlaid.tree
    have ht' : Tree k' p root T (imageMap L k1 p) :=
      ht.of_eq hram happ himg (by rw [hself])
    refine ⟨root, T, ⟨ht'.perm, ht'.pageTable, ht'.sv32.congr fun v _ => ?_⟩, hdom⟩
    exact imageMap_congr himg (fun r _ => by rw [hreg]) v
  · intro r hr'
    rw [happ] at hr'
    have := hlaid.fresh r hr'
    rwa [hr.table] at this
  · intro r hrm hst
    have h1 := stack_samePage hp h hr.table hr.mem hrm hst
    have h2 := hlaid.same r hrm (by rw [h1.1]; exact hst)
    exact (h1.trans h2).trans ⟨by rw [hreg], fun x _ _ => by rw [hmem]⟩
  · intro i hi
    rw [hmem, hreg, himg]
    exact hload.bytes i hi

/-- Process `p` translates `va` to the page `pa`, with the flags `fl` and `PAGE_V` and no others. -/
def MapsTo (k : Kernel) (p va pa fl : Nat) : Prop :=
  ∃ e, translate k p va = some e ∧ ptePage e = pa ∧ e &&& 0x3ff = fl ||| pageV

variable {V : List Nat} {M : Nat → Nat} {k₀ : Kernel}

theorem Laid.translate_eq (h : Laid L k₀ p V k M) {va : Nat} (hva : va < 2 ^ 32) :
    translate k p va = if M (va / 4096) &&& pageV = 0 then none else some (M (va / 4096)) := by
  obtain ⟨root, T, ht, _⟩ := h.tree
  exact walk_eq ht.sv32 (ht.tables_ok h.hold) hva

theorem Laid.mapsTo (h : Laid L k₀ p V k M) {va pa fl : Nat} (hva : va < 2 ^ 32)
    (hpa : pa < 2 ^ 32) (hal : pa % 4096 = 0) (hfl : fl < 1024)
    (hM : M (va / 4096) = pte pa fl) : MapsTo k p va pa fl := by
  refine ⟨pte pa fl, ?_, ptePage_pte hal hpa hfl, pte_flags hfl⟩
  rw [h.translate_eq hva, hM, if_neg (pte_valid hfl)]

/-- The devices are above the image and below the kernel. -/
theorem devicePage_range {d : Nat} (hd : d ∈ devicePages) :
    0x2000 * 4096 ≤ d ∧ d < 0x80000 * 4096 := by
  have hdev : ∀ d, d ∈ devicePages → 0x2000 * 4096 ≤ d ∧ d < 0x80000 * 4096 := by decide
  exact hdev d hd

variable {image : List UInt8} {n : Nat}

theorem imageMap_of_kernel (hl : (k.procs p).imageRegions.length < maxRegions) {v : Nat}
    (h1 : kernelVpn ≤ v) (h2 : v < kernelVpn + kernelPages L) :
    imageMap L k p v = pte (v * 4096) (pageR ||| pageW ||| pageX) := by
  have hk : kernelVpn = 0x80200 := by decide
  have hi : imageVpn = 0x1000 := by decide
  have hnd : v * pageSize ∉ devicePages := fun hd => by
    have := devicePage_range hd
    unfold pageSize at this
    omega
  unfold maxRegions at hl
  unfold imageMap baseMap deviceMap kernelMap
  rw [if_neg (by omega), if_neg hnd, if_pos ⟨h1, h2⟩]
  rfl

theorem imageMap_of_device (hl : (k.procs p).imageRegions.length < maxRegions) {d : Nat}
    (hd : d ∈ devicePages) : imageMap L k p (d / 4096) = pte d (pageR ||| pageW) := by
  have hi : imageVpn = 0x1000 := by decide
  have hr := devicePage_range hd
  have hal := (devicePage_ok hd).2
  have he : d / 4096 * pageSize = d := by unfold pageSize; omega
  unfold maxRegions at hl
  unfold imageMap baseMap deviceMap
  rw [if_neg (by omega), he, if_pos hd]
  rfl

theorem imageMap_of_image {i : Nat} (hi : i < (k.procs p).imageRegions.length) :
    imageMap L k p (imageVpn + i)
      = pte (k.regions ((k.procs p).imageRegions.getD i 0)).start imageFlags := by
  unfold imageMap
  rw [if_pos ⟨by omega, by omega⟩, Nat.add_sub_cancel_left]

/-- Anywhere else there is nothing. -/
theorem imageMap_of_none {v : Nat}
    (h1 : ¬ (kernelBase ≤ v * 4096 ∧ v * 4096 < L.freeRamEnd)) (h2 : v * pageSize ∉ devicePages)
    (h3 : ¬ (imageVpn ≤ v ∧ v < imageVpn + (k.procs p).imageRegions.length)) :
    imageMap L k p v = 0 := by
  unfold imageMap baseMap deviceMap kernelMap
  rw [if_neg h3, if_neg h2, if_neg]
  rintro ⟨h4, h5⟩
  refine h1 ⟨?_, ?_⟩
  · unfold kernelVpn kernelBase pageSize at *
    omega
  · unfold kernelPages at h5
    unfold kernelVpn kernelBase pageSize at *
    omega

/-- The byte of the image at offset `i`, within the pages that hold it. -/
theorem pageBytes_image (image : List UInt8) {i : Nat} :
    ((image.drop (i / 4096 * 4096)).take 4096).getD (i % 4096) 0 = image.getD i 0 := by
  rw [List.getD_eq_getElem?_getD, List.getD_eq_getElem?_getD, List.getElem?_take,
    if_pos (by omega), List.getElem?_drop, show i / 4096 * 4096 + i % 4096 = i by omega]

theorem lt_imagePages {size i : Nat} : i < imagePages size ↔ i * pageSize < size := by
  unfold imagePages pageSize
  omega

/-- The pages of the image, through the translation. -/
theorem Laid.mapsTo_image (h : Laid L k₀ p V k (imageMap L k p)) (hl : ImageLoaded k p image n)
    {i : Nat} (hi : i < n * pageSize) :
    MapsTo k p (userBase + i)
      (k.regions ((k.procs p).imageRegions.getD (i / pageSize) 0)).start
      (pageU ||| pageR ||| pageW ||| pageX) := by
  have hlt := h.images_lt
  rw [hl.length] at hlt
  have hip : i / pageSize < (k.procs p).imageRegions.length := by
    rw [hl.length]
    unfold pageSize at hi ⊢
    omega
  obtain ⟨_, _, ht, _⟩ := h.tree
  have hmem : (k.procs p).imageRegions.getD (i / pageSize) 0 ∈ (k.procs p).imageRegions := by
    rw [List.getD_eq_getElem _ _ hip]
    exact List.getElem_mem hip
  obtain ⟨_, _, _, h4, h5⟩ := h.hold.page (ht.image_mem hmem)
  have hv : (userBase + i) / 4096 = imageVpn + i / pageSize := by
    unfold imageVpn userBase pageSize
    omega
  refine h.mapsTo ?_ (by omega) h4 (by decide) (by rw [hv, imageMap_of_image hip]; rfl)
  unfold maxRegions at hlt
  unfold pageSize at hi
  unfold userBase
  omega

/-- A page that nobody used before, and that nobody but the process has now. -/
structure FreshPage (k k' : Kernel) (p r : Nat) : Prop where
  was : (k.regions r).state ≠ .allocated
  now : r < maxRegions ∧ (k'.regions r).state = .allocated ∧ (k'.regions r).size = pageSize
  mine : r ∈ (k'.procs p).appended
  /-- No block that is in use overlaps it. -/
  apart : ∀ s, s < maxRegions → (k'.regions s).state = .allocated → s ≠ r →
    (k'.regions s).start + (k'.regions s).size ≤ (k'.regions r).start
      ∨ (k'.regions r).start + (k'.regions r).size ≤ (k'.regions s).start

theorem Laid.freshPage (h : Laid L k₀ p V k (imageMap L k p)) {r : Nat}
    (hr : r ∈ (k.procs p).imageRegions) : FreshPage k₀ k p r := by
  obtain ⟨_, _, ht, _⟩ := h.tree
  have hmem := ht.image_mem hr
  obtain ⟨h1, h2, h3⟩ := h.hold.pages r hmem
  exact ⟨h.fresh r hmem, ⟨h1, h2, h3⟩, hmem,
    fun s hs hst hne => Partition.disjoint h.hold.part hs h1 hne hst h2⟩

/-- No two pages of the image are the same. -/
theorem Laid.images_nodup (h : Laid L k₀ p V k M) : (k.procs p).imageRegions.Nodup := by
  obtain ⟨_, _, ht, _⟩ := h.tree
  exact (List.nodup_append.mp (List.nodup_cons.mp (ht.nodup h.hold)).2).2.1

theorem getD_inj {l : List Nat} (hl : l.Nodup) {i j : Nat} (hi : i < l.length) (hj : j < l.length)
    (he : l.getD i 0 = l.getD j 0) : i = j := by
  rw [List.getD_eq_getElem _ _ hi, List.getD_eq_getElem _ _ hj] at he
  exact hl.getElem_inj_iff.mp he

/-! ## Nobody else reaches the new pages -/

/-- A page of the image is reached by no other process. -/
theorem Inv.image_private {X : Nat → Prop} (h : Inv L X k) (hl : Live k p) {q va e r : Nat}
    (hr : r ∈ (k.procs p).imageRegions) (hq : q ≠ p) (hm : MapsUser k q va e) :
    ptePage e ≠ (k.regions r).start := by
  obtain ⟨root, T, hs⟩ := h.spaces p hl.1 hl.2
  have hmine : Holds k (.proc p) r := ⟨hl.1, hs.tree.image_mem hr⟩
  have hpage : PageOf k r (k.regions r).start := h.own.pageOf (by simp) hmine
  intro he
  rcases h.user_page hm with himg | ⟨s, hat⟩
  · obtain ⟨r', hp', hh', _⟩ := himg.holds h hm.1
    rw [he] at hp'
    rw [← PageOf.unique h.own hpage hp'] at hh'
    have heq := h.own.ledger.excl hh' hmine
    injection heq with heq
    exact hq heq
  · obtain ⟨hp', hh'⟩ := hat.holds
    rw [he] at hp'
    rw [← PageOf.unique h.own hpage hp'] at hh'
    cases h.own.ledger.excl hh' hmine

/-! ## The whole space -/

/--
**`create_process` builds exactly the intended address space**, in every state the kernel
reaches: the kernel's and the devices' pages onto themselves, the image from `USER_BASE` on
in fresh pages, nothing else. The image's bytes are read there, and zeros to the end of its
last page. If the images created so far fit their records, no other process reaches the
new pages.
-/
theorem createProcess_space {tr : List Event} (h : Run (Booted L) (Step L) tr k)
    (hc : createProcess L k image = .ok (p, k')) :
    (∀ a, a % pageSize = 0 → kernelBase ≤ a → a < L.freeRamEnd →
      MapsTo k' p a a (pageR ||| pageW ||| pageX))
    ∧ (∀ d, d ∈ devicePages → MapsTo k' p d d (pageR ||| pageW))
    ∧ (∃ region : Nat → Nat,
      (∀ i, i * pageSize < image.length →
        MapsTo k' p (userBase + i * pageSize) (k'.regions (region i)).start
          (pageU ||| pageR ||| pageW ||| pageX) ∧ FreshPage k k' p (region i))
      ∧ (∀ i j, i * pageSize < image.length → j * pageSize < image.length →
        region i = region j → i = j)
      ∧ (GuardedRun L (tr ++ [.create image p]) k' → ∀ i, i * pageSize < image.length →
        ∀ q va e, q ≠ p → MapsUser k' q va e → ptePage e ≠ (k'.regions (region i)).start))
    ∧ (∀ va, va < 2 ^ 32 →
      ¬ (kernelBase ≤ va / pageSize * pageSize ∧ va / pageSize * pageSize < L.freeRamEnd) →
      va / pageSize * pageSize ∉ devicePages →
      ¬ (userBase ≤ va ∧ (va - userBase) / pageSize * pageSize < image.length) →
      translate k' p va = none)
    ∧ (∀ i, i < imagePages image.length * pageSize → ∃ e, translate k' p (userBase + i) = some e
      ∧ k'.mem (ptePage e + i % pageSize) = image.getD i 0) := by
  obtain ⟨hlaid, hload⟩ := laid_createProcess (part_run h) hc
  have hlt := hlaid.images_lt
  have hmem : ∀ i, i * pageSize < image.length →
      (k'.procs p).imageRegions.getD i 0 ∈ (k'.procs p).imageRegions := by
    intro i hi
    have hil : i < (k'.procs p).imageRegions.length := by
      rw [hload.length]; exact lt_imagePages.mpr hi
    rw [List.getD_eq_getElem _ _ hil]
    exact List.getElem_mem hil
  refine ⟨?_, ?_, ⟨fun i => (k'.procs p).imageRegions.getD i 0, ?_, ?_, ?_⟩, ?_, ?_⟩
  · intro a hal h1 h2
    have ha : a < 2 ^ 32 := by
      have := L.end_lt
      unfold Layout.freeRamEnd at h2
      omega
    have hv : a / 4096 * 4096 = a := by unfold pageSize at hal; omega
    refine hlaid.mapsTo ha ha hal (by decide) ?_
    rw [imageMap_of_kernel hlt, hv]
    · unfold kernelVpn kernelBase pageSize at *
      omega
    · unfold kernelPages
      unfold kernelVpn kernelBase pageSize at *
      omega
  · intro d hd
    obtain ⟨h1, h2⟩ := devicePage_ok hd
    exact hlaid.mapsTo h1 h1 h2 (by decide) (imageMap_of_device hlt hd)
  · intro i hi
    have hpage : i * pageSize / pageSize = i := Nat.mul_div_cancel i (by decide)
    have hm := hlaid.mapsTo_image hload (i := i * pageSize)
      (Nat.mul_lt_mul_of_pos_right (lt_imagePages.mpr hi) (by decide))
    rw [hpage] at hm
    exact ⟨hm, hlaid.freshPage (hmem i hi)⟩
  · intro i j hi hj he
    refine getD_inj hlaid.images_nodup ?_ ?_ he
    · rw [hload.length]; exact lt_imagePages.mpr hi
    · rw [hload.length]; exact lt_imagePages.mpr hj
  · intro hg i hi q va e hq hm
    have hl : Live k' p := by
      refine ⟨(createProcess_ok hc).1, ?_⟩
      rw [(made_createProcess hc).state]
      decide
    exact (inv_run hg).image_private hl (hmem i hi) hq hm
  · intro va hva h1 h2 h3
    have hz : imageMap L k' p (va / 4096) = 0 := by
      refine imageMap_of_none h1 h2 ?_
      rintro ⟨h4, h5⟩
      rw [hload.length] at h5
      have h6 : (va - userBase) / pageSize < imagePages image.length := by
        unfold imageVpn userBase pageSize at *
        omega
      refine h3 ⟨?_, lt_imagePages.mp h6⟩
      unfold imageVpn userBase pageSize at *
      omega
    rw [hlaid.translate_eq hva, hz, if_pos (Nat.zero_and _)]
  · intro i hi
    obtain ⟨e, h1, h2, _⟩ := hlaid.mapsTo_image hload hi
    refine ⟨e, h1, ?_⟩
    have hip : i / pageSize < imagePages image.length := by
      unfold pageSize at hi ⊢
      omega
    have hbyte := hload.bytes _ hip (i % pageSize) (Nat.mod_lt _ (by decide))
    rw [h2]
    exact hbyte.trans (pageBytes_image image)

/-- A process with an image of three bytes reads them, and a zero after them. -/
theorem createProcess_space_small :
    ∃ k k', createProcess sampleLayout k [1, 2, 3] = .ok (1, k')
      ∧ (∃ e, translate k' 1 (userBase + 2) = some e ∧ k'.mem (ptePage e + 2) = 3)
      ∧ (∃ e, translate k' 1 (userBase + 4095) = some e ∧ k'.mem (ptePage e + 4095) = 0)
      ∧ translate k' 1 (userBase + 4096) = none := by
  obtain ⟨k, n, hb, hn, ho, _⟩ := boot_ok (L := sampleLayout) (fun _ => 0) (by decide)
  have hneed : driverPages.length + regionsNeeded sampleLayout 0
      + regionsNeeded sampleLayout [1, 2, 3].length < maxRegions - 1 := by decide
  obtain ⟨k', _, hs, _⟩ := ho.create [1, 2, 3] (by decide) (by decide) (by omega) (by decide)
  cases hs with
  | create hc =>
      have hrun : Run (Booted sampleLayout) (Step sampleLayout) [] k := .start ⟨_, hb⟩
      obtain ⟨_, _, _, hnone, hbytes⟩ := createProcess_space hrun hc
      exact ⟨k, k', hc, hbytes 2 (by decide), hbytes 4095 (by decide),
        hnone _ (by decide) (by decide) (by decide) (by decide)⟩

end

end Os1000.Proof
