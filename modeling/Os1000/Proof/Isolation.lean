import Os1000.Proof.Progress

/-!
# What user mode can reach

The page tables and the tables of the kernel are tied together by the invariant, so
that one leaf word decides whose page it is. A word with the U bit is either an image
page of the process itself or the page of an object in the process's window, and in
both cases the page is a region of its own with that one owner. Two processes reach
the same page only through an object both have attached, and no process reaches a
page table, a page that is free or anything outside of free RAM.
-/

namespace Os1000.Proof

open Os1000 Lib

/-- Process `p` maps `va` for user mode, by the leaf word `e`. -/
def MapsUser (k : Kernel) (p va e : Nat) : Prop :=
  Live k p ∧ va < 2 ^ 32 ∧ walk k.mem (k.procs p).pageTable va = some e ∧ e &&& pageU ≠ 0

/-- Region `r` is allocated and consists of the page at `a`. -/
def PageOf (k : Kernel) (r a : Nat) : Prop :=
  r < maxRegions ∧ (k.regions r).state = .allocated ∧ (k.regions r).start = a
    ∧ (k.regions r).size = pageSize

/-- The page at `a` is an image page of process `p`, and `p` has it in its record. -/
def ImagePage (k : Kernel) (p a : Nat) : Prop :=
  ∃ r n, PageOf k r a ∧ r ∈ (k.procs p).imageRegions
    ∧ n < procRegionMax ∧ (k.procs p).regions n = r

/-- The page at `a` is the page of object `s`, and `p` has that object attached. -/
def AttachedPage (k : Kernel) (p s a : Nat) : Prop :=
  s < shmMax ∧ (k.shmTable s).used = true ∧ (k.shmTable s).pa = a
    ∧ PageOf k (k.shmTable s).regionIdx a
    ∧ ∃ i, i < procShmMax ∧ Names k (k.shmTable s).id p i

/-- The page at `a` is a page table of process `q`. -/
def TablePage (k : Kernel) (q a : Nat) : Prop :=
  a = (k.procs q).pageTable
    ∨ ∃ v1, v1 < 1024 ∧ entry1 k q v1 &&& pageV ≠ 0 ∧ a = ptePage (entry1 k q v1)

section

variable {L : Layout} {X : Nat → Prop} {k : Kernel} {p q s i va e a r : Nat}

theorem Own.pageOf (ho : Own L X k) {o : Owner} (hne : o ≠ .driver) (hr : Holds k o r) :
    PageOf k r (k.regions r).start := by
  obtain ⟨h1, h2, h3⟩ := ho.ledger.valid hr
  exact ⟨h1, h2, rfl, h3 hne⟩

/-- A page belongs to one region. -/
theorem PageOf.unique (ho : Own L X k) {r' : Nat} (h : PageOf k r a) (h' : PageOf k r' a) :
    r = r' := by
  by_contra hne
  have := ho.part.disjoint h.1 h'.1 hne h.2.1 h'.2.1
  have := h.2.2
  have := h'.2.2
  have : 0 < pageSize := by decide
  omega

theorem PageOf.aligned (ho : Own L X k) (h : PageOf k r a) : a % 4096 = 0 ∧ a < 2 ^ 32 := by
  have huse : InUse k.regions r := ⟨h.1, by rw [h.2.1]; decide⟩
  have h1 := (ho.part.aligned r huse).1
  have h2 := ho.part.stop_lt huse
  rw [h.2.2.1] at h1 h2
  exact ⟨h1, by omega⟩

theorem Own.object_page (ho : Own L X k) (hs : s < shmMax) (hu : (k.shmTable s).used = true) :
    PageOf k (k.shmTable s).regionIdx (k.shmTable s).pa := by
  rw [ho.shmPa s hs hu]
  exact ho.pageOf (o := .shm s) (by simp) ⟨hs, hu, rfl⟩

/-! ## Reading the leaf words -/

theorem Space.walk_eq {root : Nat} {T : Nat → Option Nat} (h : Space L k p root T)
    (ho : Own L X k) (hp : p < procsMax) (hva : va < 2 ^ 32) :
    walk k.mem (k.procs p).pageTable va
      = if spaceMap L k p (va / 4096) &&& pageV = 0 then none
        else some (spaceMap L k p (va / 4096)) :=
  Proof.walk_eq h.tree.sv32 (h.tree.tables_ok (ho.hold hp)) hva

/-- The kernel and the devices are not mapped for user mode. -/
theorem baseMap_not_user (L : Layout) (v : Nat) : baseMap L v &&& pageU = 0 := by
  unfold baseMap deviceMap kernelMap
  split
  · rw [pte_and (by decide) (by decide)]; decide
  · split
    · rw [pte_and (by decide) (by decide)]; decide
    · exact Nat.zero_and _

/-- **A leaf word with the U bit is an image page's or an attached object's.** -/
theorem Inv.user_leaf (h : Inv L X k) (hm : MapsUser k p va e) :
    (∃ r, r ∈ (k.procs p).imageRegions ∧ e = pte (k.regions r).start imageFlags)
      ∨ ∃ s i, s < shmMax ∧ (k.shmTable s).used = true ∧ i < procShmMax
        ∧ Names k (k.shmTable s).id p i ∧ e = pte (k.shmTable s).pa windowFlags := by
  obtain ⟨⟨hp, hst⟩, hva, hw, hu⟩ := hm
  obtain ⟨root, T, hsp⟩ := h.spaces p hp hst
  rw [hsp.walk_eq h.own hp hva] at hw
  split at hw
  · cases hw
  · injection hw with he
    unfold spaceMap at he
    split at he
    · -- a slot of the window: in use, since the word is not zero
      rename_i hwin
      right
      by_cases hus : ((k.procs p).shmMappings (va / 4096 - windowVpn)).used = 0
      · rw [windowWord_of_unused hus] at he
        rw [← he] at hu
        exact absurd (Nat.zero_and _) hu
      · obtain ⟨s, hs, hso, hid⟩ := h.counted.named p hp _ (by omega) hus
        rw [windowWord_of_used h.ids hus hs hso hid] at he
        exact ⟨s, _, hs, hso, by omega, ⟨hus, hid.symm⟩, he.symm⟩
    · left
      unfold imageMap at he
      split at he
      · rename_i hin
        refine ⟨_, ?_, he.symm⟩
        rw [List.getD_eq_getElem _ _ (by omega)]
        exact List.getElem_mem _
      · rw [← he] at hu
        exact absurd (baseMap_not_user L _) hu

theorem Inv.image_page (h : Inv L X k) (hp : p < procsMax) (hst : (k.procs p).state ≠ .unused)
    (hr : r ∈ (k.procs p).imageRegions) : ImagePage k p (k.regions r).start := by
  obtain ⟨root, T, hsp⟩ := h.spaces p hp hst
  obtain ⟨n, hn, hget⟩ := List.mem_iff_getElem.mp (hsp.early r hr)
  have hlt : n < procRegionMax := by
    rw [List.length_take] at hn
    omega
  refine ⟨r, n, ?_, hr, hlt, ?_⟩
  · exact h.own.pageOf (o := .proc p) (by simp) ⟨hp, hsp.tree.image_mem hr⟩
  · refine (h.own.recorded p hp).entry n r hlt ?_
    rw [← List.getElem?_take_of_lt hlt, List.getElem?_eq_getElem hn, hget]

theorem Inv.attached_page (h : Inv L X k) (hs : s < shmMax)
    (hu : (k.shmTable s).used = true) (hi : i < procShmMax) (hn : Names k (k.shmTable s).id p i) :
    AttachedPage k p s (k.shmTable s).pa :=
  ⟨hs, hu, rfl, h.own.object_page hs hu, i, hi, hn⟩

/-- The page that a user mapping reaches. -/
theorem Inv.user_page (h : Inv L X k) (hm : MapsUser k p va e) :
    ImagePage k p (ptePage e) ∨ ∃ s, AttachedPage k p s (ptePage e) := by
  rcases h.user_leaf hm with ⟨r, hr, rfl⟩ | ⟨s, i, hs, hu, hi, hn, rfl⟩
  · obtain ⟨⟨hp, hst⟩, _⟩ := hm
    have hpage := h.image_page hp hst hr
    obtain ⟨r', n, hpo, _⟩ := id hpage
    obtain ⟨h1, h2⟩ := hpo.aligned h.own
    rw [ptePage_pte h1 h2 (by decide)]
    exact Or.inl hpage
  · have hpage := h.attached_page hs hu hi hn
    obtain ⟨h1, h2⟩ := hpage.2.2.2.1.aligned h.own
    rw [ptePage_pte h1 h2 (by decide)]
    exact Or.inr ⟨s, hpage⟩

/-! ## The window -/

theorem spaceMap_slotAddr (hi : i < procShmMax) :
    spaceMap L k p (slotAddr i / 4096) = windowWord k p i := by
  have hv : slotAddr i / 4096 = windowVpn + i := by
    have hw : windowVpn = 0x1700 := by decide
    rw [hw]
    unfold slotAddr shmUserBase shmPageSize pageSize
    omega
  unfold spaceMap
  rw [hv, if_pos ⟨Nat.le_add_right _ _, by omega⟩, Nat.add_sub_cancel_left]

/-- What the hardware finds at slot `i` of the window. -/
theorem Inv.walk_slot (h : Inv L X k) (hl : Live k p) (hi : i < procShmMax) :
    walk k.mem (k.procs p).pageTable (slotAddr i)
      = if windowWord k p i &&& pageV = 0 then none else some (windowWord k p i) := by
  obtain ⟨root, T, hsp⟩ := h.spaces p hl.1 hl.2
  rw [hsp.walk_eq h.own hl.1 (slotAddr_lt hi), spaceMap_slotAddr hi]

/-- Only a process in use has anything attached. -/
theorem Inv.live_of_used (h : Inv L X k) (hp : p < procsMax) (hi : i < procShmMax)
    (hu : ((k.procs p).shmMappings i).used ≠ 0) : Live k p := by
  refine ⟨hp, fun hst => hu ?_⟩
  rw [(h.settled.blank p hp hst).2 i hi]
  rfl

theorem Inv.walk_used (h : Inv L X k) (hp : p < procsMax) (hi : i < procShmMax)
    (hu : ((k.procs p).shmMappings i).used ≠ 0) (hs : s < shmMax)
    (hus : (k.shmTable s).used = true)
    (hid : (k.shmTable s).id = ((k.procs p).shmMappings i).shmId) :
    walk k.mem (k.procs p).pageTable (slotAddr i) = some (pte (k.shmTable s).pa windowFlags) := by
  rw [h.walk_slot (h.live_of_used hp hi hu) hi, windowWord_of_used h.ids hu hs hus hid]
  refine if_neg ?_
  rw [pte_and (by decide) (by decide)]
  decide

theorem Inv.walk_unused (h : Inv L X k) (hl : Live k p) (hi : i < procShmMax)
    (hu : ((k.procs p).shmMappings i).used = 0) :
    walk k.mem (k.procs p).pageTable (slotAddr i) = none := by
  rw [h.walk_slot hl hi, windowWord_of_unused hu]
  exact if_pos (Nat.zero_and _)

/-! ## Owners -/

theorem ImagePage.holds (h : ImagePage k p a) (hinv : Inv L X k) (hl : Live k p) :
    ∃ r, PageOf k r a ∧ Holds k (.proc p) r ∧ r ∈ (k.procs p).imageRegions := by
  obtain ⟨r, n, hpo, hr, _⟩ := h
  obtain ⟨root, T, hsp⟩ := hinv.spaces p hl.1 hl.2
  exact ⟨r, hpo, ⟨hl.1, hsp.tree.image_mem hr⟩, hr⟩

theorem AttachedPage.holds (h : AttachedPage k p s a) :
    PageOf k (k.shmTable s).regionIdx a ∧ Holds k (.shm s) (k.shmTable s).regionIdx :=
  ⟨h.2.2.2.1, h.1, h.2.1, rfl⟩

/-- A page table is a page of its process, and not one of its image. -/
theorem TablePage.holds (h : TablePage k q a) (hinv : Inv L X k) (hl : Live k q) :
    ∃ r, PageOf k r a ∧ Holds k (.proc q) r ∧ r ∉ (k.procs q).imageRegions := by
  obtain ⟨root, T, hsp⟩ := hinv.spaces q hl.1 hl.2
  have htree := hsp.tree
  have key : ∀ r, IsTable root T r → r ∈ (k.procs q).appended → a = (k.regions r).start →
      ∃ r, PageOf k r a ∧ Holds k (.proc q) r ∧ r ∉ (k.procs q).imageRegions := by
    intro r ht hm ha
    have hh : Holds k (.proc q) r := ⟨hl.1, hm⟩
    refine ⟨r, ?_, hh, fun hi => htree.image_not_table (hinv.own.hold hl.1) hi ht⟩
    rw [ha]
    exact hinv.own.pageOf (by simp) hh
  rcases h with h | ⟨v1, hv, hval, h⟩
  · exact key root (Or.inl rfl) htree.root_mem (h.trans htree.pageTable)
  · cases hT : T v1 with
    | none => exact absurd hT ((htree.entry1_valid hv).mp hval)
    | some t =>
        have hm := htree.table_mem hv hT
        refine key t (Or.inr ⟨v1, hv, hT⟩) hm ?_
        obtain ⟨_, _, _, h4, h5⟩ := hinv.own.page hl.1 hm
        rw [h, htree.entry1_eq hv, tableAddr_some hT]
        exact ptePage_linkWord h4 (by omega)

/-- A user page is not a page table of any process. -/
theorem Inv.user_not_table (h : Inv L X k) (hm : MapsUser k p va e) (hl : Live k q) :
    ¬ TablePage k q (ptePage e) := by
  intro ht
  obtain ⟨r, hpo, hh, hni⟩ := ht.holds h hl
  rcases h.user_page hm with hi | ⟨s, ha⟩
  · obtain ⟨r', hpo', hh', hr'⟩ := hi.holds h hm.1
    obtain rfl := hpo.unique h.own hpo'
    have := h.own.ledger.excl hh hh'
    injection this with e
    subst e
    exact hni hr'
  · obtain ⟨hpo', hh'⟩ := ha.holds
    obtain rfl := hpo.unique h.own hpo'
    have := h.own.ledger.excl hh hh'
    cases this

/-- Two processes meet only in an object that both have attached. -/
theorem Inv.user_shared (h : Inv L X k) {va' e' : Nat} (hpq : p ≠ q) (hm : MapsUser k p va e)
    (hm' : MapsUser k q va' e') (he : ptePage e = ptePage e') :
    ∃ s, AttachedPage k p s (ptePage e) ∧ AttachedPage k q s (ptePage e) := by
  have h1 := h.user_page hm
  have h2 := h.user_page hm'
  rw [← he] at h2
  rcases h1 with hi | ⟨s, ha⟩
  · obtain ⟨r, hpo, hh, _⟩ := hi.holds h hm.1
    rcases h2 with hi' | ⟨s', ha'⟩
    · obtain ⟨r', hpo', hh', _⟩ := hi'.holds h hm'.1
      obtain rfl := hpo.unique h.own hpo'
      have := h.own.ledger.excl hh hh'
      injection this with e
      exact absurd e hpq
    · obtain ⟨hpo', hh'⟩ := ha'.holds
      obtain rfl := hpo.unique h.own hpo'
      cases h.own.ledger.excl hh hh'
  · obtain ⟨hpo, hh⟩ := ha.holds
    rcases h2 with hi' | ⟨s', ha'⟩
    · obtain ⟨r', hpo', hh', _⟩ := hi'.holds h hm'.1
      obtain rfl := hpo.unique h.own hpo'
      cases h.own.ledger.excl hh hh'
    · obtain ⟨hpo', hh'⟩ := ha'.holds
      have hrr := hpo.unique h.own hpo'
      rw [← hrr] at hh'
      have := h.own.ledger.excl hh hh'
      injection this with e
      subst e
      exact ⟨s, ha, ha'⟩

/-- A user page is in free RAM, but not in a block that is free. -/
theorem Inv.user_in_ram (h : Inv L X k) (hm : MapsUser k p va e) :
    L.freeRam ≤ ptePage e ∧ ptePage e + pageSize ≤ L.freeRamEnd
      ∧ ∀ f, f < maxRegions → (k.regions f).state = .free →
        ptePage e + pageSize ≤ (k.regions f).start
          ∨ (k.regions f).start + (k.regions f).size ≤ ptePage e := by
  obtain ⟨r, hpo⟩ : ∃ r, PageOf k r (ptePage e) := by
    rcases h.user_page hm with ⟨r, _, hpo, _⟩ | ⟨s, ha⟩
    · exact ⟨r, hpo⟩
    · exact ⟨_, ha.2.2.2.1⟩
  have huse : InUse k.regions r := ⟨hpo.1, by rw [hpo.2.1]; decide⟩
  obtain ⟨h1, h2⟩ := h.own.part.tiles.bounds r huse
  unfold startOf at h1
  unfold stopOf at h2
  rw [hpo.2.2.1] at h1 h2
  rw [hpo.2.2.2] at h2
  refine ⟨h1, h2, ?_⟩
  intro f hf hfree
  have hne : r ≠ f := by
    rintro rfl
    rw [hpo.2.1] at hfree
    cases hfree
  have hap := h.own.part.tiles.apart r f huse ⟨hf, by rw [hfree]; decide⟩ hne
  unfold startOf stopOf at hap
  rw [hpo.2.2.1, hpo.2.2.2] at hap
  exact hap

end

/--
**User memory is isolated.** In every state of every run: a user mapping of a live process reaches
an image page that the process has in its record or the page of an object it has attached, and
that page is an allocated region of its own; two processes that reach the same page have the same
object attached; and no user mapping reaches a page table, a free page or the kernel.
-/
theorem user_memory_isolated {L : Layout} {tr : List Event} {k : Kernel} (h : GuardedRun L tr k) :
    (∀ p va e, MapsUser k p va e →
      ImagePage k p (ptePage e) ∨ ∃ s, AttachedPage k p s (ptePage e))
    ∧ (∀ p q va va' e e', p ≠ q → MapsUser k p va e → MapsUser k q va' e' →
      ptePage e = ptePage e' →
      ∃ s, AttachedPage k p s (ptePage e) ∧ AttachedPage k q s (ptePage e))
    ∧ (∀ p q va e, MapsUser k p va e → Live k q → ¬ TablePage k q (ptePage e))
    ∧ ∀ p va e, MapsUser k p va e →
      L.freeRam ≤ ptePage e ∧ ptePage e + pageSize ≤ L.freeRamEnd
        ∧ ∀ f, f < maxRegions → (k.regions f).state = .free →
          ptePage e + pageSize ≤ (k.regions f).start
            ∨ (k.regions f).start + (k.regions f).size ≤ ptePage e := by
  have hinv := inv_run h
  exact ⟨fun _ _ _ hm => hinv.user_page hm,
    fun _ _ _ _ _ _ hpq hm hm' he => hinv.user_shared hpq hm hm' he,
    fun _ _ _ _ hm hl => hinv.user_not_table hm hl, fun _ _ _ hm => hinv.user_in_ram hm⟩

/-- Process 1 reaches the object it has made and attached at the start of its window. -/
theorem user_memory_isolated_attached :
    ∃ tr k e, GuardedRun sampleLayout tr k ∧ MapsUser k 1 shmUserBase e
      ∧ (ImagePage k 1 (ptePage e) ∨ ∃ s, AttachedPage k 1 s (ptePage e)) := by
  obtain ⟨k, n, hrun, _, h, _, hn, _, ⟨hu, hid, _⟩, _⟩ :=
    attached_run (L := sampleLayout) (by decide) (by decide)
  have hw := h.inv.walk_used (p := 1) (i := 0) (by decide) (by decide) hn.1
    (show 0 < shmMax by decide) hu (by rw [hid, hn.2])
  have hm : MapsUser k 1 shmUserBase (pte (k.shmTable 0).pa windowFlags) := by
    refine ⟨h.live (by decide) (by decide), by decide, hw, ?_⟩
    rw [pte_and (by decide) (by decide)]
    decide
  exact ⟨_, k, _, hrun, hm, (user_memory_isolated hrun).1 1 shmUserBase _ hm⟩

end Os1000.Proof
