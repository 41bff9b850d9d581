import Os1000.Proof.Hold

/-!
# A process's page tables, and who owns the pages they are in

`Tree k p root T M` ties together three things about process `p`: the regions it has
appended are its root table, its second-level tables and its image pages, each once;
`page_table` is the root's address; and memory holds, in those pages, the tree with
leaf words `M`. `map_page` and `unmap_page` then are updates of `M` at one page number.
-/

namespace Os1000.Proof

open Os1000 Lib

/-- The addresses of the second-level tables, given their regions. -/
def tableAddr (k : Kernel) (T : Nat → Option Nat) (i : Nat) : Option Nat :=
  (T i).map fun t => (k.regions t).start

/-- The regions of the second-level tables. -/
def tables (T : Nat → Option Nat) : List Nat := (List.range 1024).filterMap T

/-- The page tables of process `p`: root region, table regions and leaf words. -/
structure Tree (k : Kernel) (p root : Nat) (T : Nat → Option Nat) (M : Nat → Nat) : Prop where
  /-- What the process owns is its tables and its image. -/
  perm : (k.procs p).appended.Perm (root :: (tables T ++ (k.procs p).imageRegions))
  /-- The root is where the process says. -/
  pageTable : (k.procs p).pageTable = (k.regions root).start
  /-- The pages hold the tree. -/
  sv32 : Sv32 k.mem (k.procs p).pageTable (tableAddr k T) M

section

variable {L : Layout} {X : Nat → Prop} {k k' : Kernel} {p root : Nat} {T : Nat → Option Nat}
  {M : Nat → Nat}

theorem mem_tables {t : Nat} : t ∈ tables T ↔ ∃ i, i < 1024 ∧ T i = some t := by
  unfold tables
  rw [List.mem_filterMap]
  simp [List.mem_range]

theorem tableAddr_some {i t : Nat} (h : T i = some t) :
    tableAddr k T i = some (k.regions t).start := by
  unfold tableAddr; rw [h]; rfl

theorem tableAddr_none {i : Nat} (h : T i = none) : tableAddr k T i = none := by
  unfold tableAddr; rw [h]; rfl

theorem of_tableAddr_some {i a : Nat} (h : tableAddr k T i = some a) :
    ∃ t, T i = some t ∧ (k.regions t).start = a := by
  unfold tableAddr at h
  exact Option.map_eq_some_iff.mp h

theorem Tree.root_mem (h : Tree k p root T M) : root ∈ (k.procs p).appended :=
  h.perm.mem_iff.mpr List.mem_cons_self

theorem Tree.table_mem (h : Tree k p root T M) {i t : Nat} (hi : i < 1024) (ht : T i = some t) :
    t ∈ (k.procs p).appended :=
  h.perm.mem_iff.mpr (List.mem_cons_of_mem _
    (List.mem_append_left _ (mem_tables.mpr ⟨i, hi, ht⟩)))

theorem Tree.image_mem (h : Tree k p root T M) {r : Nat} (hr : r ∈ (k.procs p).imageRegions) :
    r ∈ (k.procs p).appended :=
  h.perm.mem_iff.mpr (List.mem_cons_of_mem _ (List.mem_append_right _ hr))

theorem Tree.length_eq (h : Tree k p root T M) : (k.procs p).appended.length
    = 1 + (tables T).length + (k.procs p).imageRegions.length := by
  rw [h.perm.length_eq, List.length_cons, List.length_append]
  omega

/-- Regions in different roles are different. -/
theorem Tree.nodup (h : Tree k p root T M) (hh : Hold L k p) :
    (root :: (tables T ++ (k.procs p).imageRegions)).Nodup :=
  h.perm.nodup_iff.mp hh.nodup

/-- A region is a page table of the process. -/
def IsTable (root : Nat) (T : Nat → Option Nat) (r : Nat) : Prop :=
  r = root ∨ ∃ i, i < 1024 ∧ T i = some r

theorem IsTable.mem (h : Tree k p root T M) {r : Nat} (hr : IsTable root T r) :
    r ∈ (k.procs p).appended := by
  rcases hr with rfl | ⟨i, hi, ht⟩
  · exact h.root_mem
  · exact h.table_mem hi ht

theorem Tree.image_not_table (h : Tree k p root T M) (hh : Hold L k p)
    {r : Nat} (hr : r ∈ (k.procs p).imageRegions) : ¬ IsTable root T r := by
  have hnd := h.nodup hh
  rintro (rfl | ⟨i, hi, ht⟩)
  · exact (List.nodup_cons.mp hnd).1 (List.mem_append_right _ hr)
  · have h2 := (List.nodup_append.mp (List.nodup_cons.mp hnd).2).2.2
    exact h2 r (mem_tables.mpr ⟨i, hi, ht⟩) r hr rfl

/-- What another owner holds is not a table of this process. -/
theorem Tree.other_not_table (h : Tree k p root T M) (ho : Own L X k) (hp : p < procsMax)
    {o : Owner} {r : Nat} (hne : o ≠ .proc p) (hr : Holds k o r) : ¬ IsTable root T r := by
  intro ht
  have hmine : Holds k (.proc p) r := ⟨hp, ht.mem h⟩
  exact hne (ho.ledger.excl hr hmine)

/-- A held page is a page: aligned, of page size, below 2^32. -/
theorem Own.page (ho : Own L X k) (hp : p < procsMax) {r : Nat}
    (hr : r ∈ (k.procs p).appended) : r < maxRegions ∧ (k.regions r).state = .allocated
      ∧ (k.regions r).size = 4096 ∧ (k.regions r).start % 4096 = 0
      ∧ (k.regions r).start + 4096 < 2 ^ 32 := (ho.hold hp).page hr

/-- A page of another process is a page in use, and not a table of this one. -/
theorem Tree.other_page {q r : Nat} (h : Tree k p root T M) (ho : Own L X k) (hp : p < procsMax)
    (hq : q < procsMax) (hqp : q ≠ p) (hr : r ∈ (k.procs q).appended) :
    r < maxRegions ∧ (k.regions r).state = .allocated ∧ ¬ IsTable root T r := by
  obtain ⟨h1, h2, _⟩ := ho.page hq hr
  refine ⟨h1, h2, h.other_not_table ho hp (o := .proc q) ?_ ⟨hq, hr⟩⟩
  intro e
  injection e with e
  exact hqp e

theorem Tree.tables_ok (h : Tree k p root T M) (hh : Hold L k p) :
    ∀ i a, i < 1024 → tableAddr k T i = some a → a % 4096 = 0 ∧ a < 2 ^ 32 := by
  intro i a hi ha
  obtain ⟨t, ht, rfl⟩ := of_tableAddr_some ha
  obtain ⟨_, _, _, h4, h5⟩ := hh.page (h.table_mem hi ht)
  exact ⟨h4, by omega⟩

/-- Memory holds the same tree while the pages of the tables are the same. -/
theorem Tree.sv32_same (h : Tree k p root T M) (hh : Hold L k p)
    (hpage : ∀ r, IsTable root T r → SamePage k k' r) :
    Sv32 k'.mem (k.procs p).pageTable (tableAddr k' T) M
      ∧ (k.procs p).pageTable = (k'.regions root).start := by
  have hroot := hpage root (Or.inl rfl)
  have hfr : Sv32 k'.mem (k.procs p).pageTable (tableAddr k T) M := by
    refine h.sv32.frame ?_ ?_
    · intro x h1 h2
      rw [h.pageTable] at h1 h2
      have h3 := (hh.page h.root_mem).2.2.1
      exact hroot.2 x h1 (by omega)
    · intro i a hi ha x h1 h2
      obtain ⟨t, ht, rfl⟩ := of_tableAddr_some ha
      have h3 := (hh.page (h.table_mem hi ht)).2.2.1
      exact (hpage t (Or.inr ⟨i, hi, ht⟩)).2 x h1 (by omega)
  refine ⟨hfr.congrTables fun i hi => ?_, by rw [hroot.1]; exact h.pageTable⟩
  cases ht : T i with
  | none => rw [tableAddr_none ht, tableAddr_none ht]
  | some t => rw [tableAddr_some ht, tableAddr_some ht, (hpage t (Or.inr ⟨i, hi, ht⟩)).1]

/-- A tree is the same while its pages and the process's lists are. -/
theorem Tree.frame (h : Tree k p root T M) (hh : Hold L k p)
    (hpage : ∀ r, IsTable root T r → SamePage k k' r)
    (happ : (k'.procs p).appended = (k.procs p).appended)
    (himg : (k'.procs p).imageRegions = (k.procs p).imageRegions)
    (hpt : (k'.procs p).pageTable = (k.procs p).pageTable) : Tree k' p root T M := by
  obtain ⟨h1, h2⟩ := h.sv32_same hh hpage
  exact ⟨by rw [happ, himg]; exact h.perm, hpt.trans h2, by rw [hpt]; exact h1⟩

/-! ## Leaf words -/

/-- The first-level word the kernel reads is the one of the tree. -/
theorem Tree.entry1_eq (h : Tree k p root T M) {v1 : Nat} (hv : v1 < 1024) :
    entry1 k p v1 = rootWord (tableAddr k T v1) := h.sv32.link v1 hv

theorem Tree.entry1_valid (h : Tree k p root T M) {v1 : Nat} (hv : v1 < 1024) :
    entry1 k p v1 &&& pageV ≠ 0 ↔ T v1 ≠ none := by
  rw [h.entry1_eq hv]
  cases ht : T v1 with
  | none => rw [tableAddr_none ht]; simp [rootWord]
  | some t =>
      rw [tableAddr_some ht]
      simp only [rootWord, ne_eq, reduceCtorEq, not_false_eq_true, iff_true]
      rw [linkWord_and (by decide)]
      decide

/-- The state in which a leaf word is written, where there is a table for it. -/
theorem Tree.leafed (h : Tree k p root T M) (hh : Hold L k p) {va e t : Nat}
    (hva : va < 2 ^ 32) (he : e < 2 ^ 32) (ht : T (vpn1 va) = some t) :
    Tree (leafed k p va e) p root T (Function.update M (va / 4096) e) := by
  obtain ⟨_, _, _, h4, h5⟩ := hh.page (h.table_mem (vpn1_lt va) ht)
  have haddr : ptePage (entry1 k p (vpn1 va)) = (k.regions t).start := by
    rw [h.entry1_eq (vpn1_lt va), tableAddr_some ht]
    exact ptePage_linkWord h4 (by omega)
  refine ⟨h.perm, h.pageTable, ?_⟩
  have := h.sv32.setLeaf (vpn1_lt va) (tableAddr_some ht) (vpn0_lt va) he
  rw [vpn_eq hva] at this
  unfold Proof.leafed
  rw [haddr]
  exact this

/-- Writing a leaf word touches nothing but the table it is in. -/
theorem Tree.leafed_same (h : Tree k p root T M) (hh : Hold L k p)
    {va e t r : Nat} (ht : T (vpn1 va) = some t) (hr : r < maxRegions)
    (hst : (k.regions r).state = .allocated) (hne : r ≠ t) :
    SamePage k (Proof.leafed k p va e) r := by
  obtain ⟨h1, h2, h3, h4, h5⟩ := hh.page (h.table_mem (vpn1_lt va) ht)
  have haddr : ptePage (entry1 k p (vpn1 va)) = (k.regions t).start := by
    rw [h.entry1_eq (vpn1_lt va), tableAddr_some ht]
    exact ptePage_linkWord h4 (by omega)
  have hlt := vpn0_lt va
  unfold Proof.leafed
  rw [haddr]
  exact store_samePage hh.part hr h1 hne hst h2 (by omega) (by omega)

/-! ## A new table -/

/-- Filling an empty place of `T` adds one table. -/
theorem tables_update {v1 t : Nat} (hv : v1 < 1024) (hT : T v1 = none) :
    (tables (Function.update T v1 (some t))).Perm (t :: tables T) := by
  have key : ∀ l : List Nat, l.Nodup → v1 ∈ l →
      (l.filterMap (Function.update T v1 (some t))).Perm (t :: l.filterMap T) := by
    intro l
    induction l with
    | nil => intro _ hm; cases hm
    | cons a l ih =>
        intro hnd hm
        obtain ⟨hna, hnd'⟩ := List.nodup_cons.mp hnd
        by_cases ha : a = v1
        · subst ha
          have hsame : l.filterMap (Function.update T a (some t)) = l.filterMap T := by
            refine List.filterMap_congr fun b hb => ?_
            have hba : b ≠ a := fun e => hna (e ▸ hb)
            exact Function.update_of_ne hba ..
          rw [List.filterMap_cons_some (Function.update_self ..), List.filterMap_cons_none hT,
            hsame]
        · have hm' : v1 ∈ l := (List.mem_cons.mp hm).resolve_left (Ne.symm ha)
          have hup : Function.update T v1 (some t) a = T a := Function.update_of_ne ha ..
          cases hTa : T a with
          | none =>
              rw [List.filterMap_cons_none (by rw [hup, hTa]), List.filterMap_cons_none hTa]
              exact ih hnd' hm'
          | some b =>
              rw [List.filterMap_cons_some (by rw [hup, hTa]), List.filterMap_cons_some hTa]
              exact ((ih hnd' hm').cons b).trans (List.Perm.swap t b _)
  exact key _ List.nodup_range (List.mem_range.mpr hv)

/-- A page is taken that is not for this process. -/
theorem Tree.alloc (h : Tree k p root T M) (hh : Hold L k p) {pa idx : Nat} {r : Ram}
    (ha : allocPages k.toRam 1 = .ok (pa, idx, r)) : Tree { k with toRam := r } p root T M := by
  refine h.frame hh (fun i hi => ?_) rfl rfl rfl
  obtain ⟨h1, h2, _⟩ := hh.pages i (hi.mem h)
  exact alloc_samePage hh.part (by decide) ha h1 h2

/-- `map_page` links a new table at a place where there was none. -/
theorem Tree.linked (h : Tree k p root T M) (hh : Hold L k p) (hp : p < procsMax)
    {v1 pt idx : Nat} {r : Ram} (hv : v1 < 1024) (hT : T v1 = none)
    (ha : allocPages k.toRam 1 = .ok (pt, idx, r)) :
    Tree (Proof.linked L k p v1 pt idx r) p root (Function.update T v1 (some idx)) M := by
  have hs := allocPages_spec ha
  have hh1 := hh.record ha
  have hzero := fun x => hh.record_zero (x := x) hp ha
  have hsame := fun i => hh.record_samePage (i := i) hp ha
  have happ := recordRegion_appended L { k with toRam := r } p idx
  have hpage := recordRegion_pageTable L { k with toRam := r } p idx
  have himg := recordRegion_imageRegions L { k with toRam := r } p idx
  have hreg := recordRegion_table L { k with toRam := r } p idx
  unfold Proof.linked
  obtain ⟨k1, hk1⟩ : ∃ k1, k1 = recordRegion L { k with toRam := r } p idx := ⟨_, rfl⟩
  rw [← hk1] at hh1 hzero hsame happ hpage himg hreg ⊢
  dsimp only at happ hpage himg hreg ⊢
  have hmem : ∀ {x}, x ∈ (k.procs p).appended → x ∈ (k1.procs p).appended := by
    intro x hx; rw [happ]; exact List.mem_append_left _ hx
  have hnew : idx ∈ (k1.procs p).appended := by rw [happ]; simp
  have hfresh : ∀ {x}, x ∈ (k.procs p).appended → x ≠ idx :=
    fun hx => alloc_ne ha (hh.pages _ hx).2.1
  have hpt : (k1.regions idx).start = pt := by rw [hreg, hs.entry]
  obtain ⟨_, _, _, _, hlt⟩ := hh1.page hnew
  have htables : ∀ i, IsTable root T i → SamePage k k1 i := fun i hi => by
    obtain ⟨h1, h2, _⟩ := hh.pages i (hi.mem h)
    exact hsame i h1 h2
  obtain ⟨hsv, hrootpt⟩ := h.sv32_same hh htables
  refine ⟨?_, ?_, ?_⟩
  · -- one more region, and it is one more table
    show (k1.procs p).appended.Perm (root :: (_ ++ (k1.procs p).imageRegions))
    rw [happ, himg]
    have hperm := (h.perm.append_right [idx]).trans List.perm_append_comm
    refine hperm.trans ((List.Perm.swap root idx _).trans (List.Perm.cons root ?_))
    exact ((tables_update hv hT).symm.append_right _)
  · show (k1.procs p).pageTable = (k1.regions root).start
    rw [hpage]; exact hrootpt
  · show Sv32 (store32 k1.mem ((k.procs p).pageTable + 4 * v1) (linkTo pt)) (k1.procs p).pageTable
      (tableAddr k1 (Function.update T v1 (some idx))) M
    have hT1 : tableAddr k1 (Function.update T v1 (some idx))
        = Function.update (tableAddr k1 T) v1 (some pt) := by
      funext i
      by_cases hi : i = v1
      · subst hi
        rw [Function.update_self, tableAddr_some (Function.update_self ..), hpt]
      · rw [Function.update_of_ne hi]
        unfold tableAddr
        rw [Function.update_of_ne hi]
    rw [hT1, linkTo_eq, hpage]
    refine hsv.addTable hv (tableAddr_none hT) (linkWord_lt (by omega)) hzero ?_ ?_
    · rw [hrootpt, ← hpt]
      exact hh1.apart (hmem h.root_mem) hnew (hfresh h.root_mem)
    · intro j b hj hb
      obtain ⟨t, ht, rfl⟩ := of_tableAddr_some hb
      rw [← hpt]
      exact hh1.apart hnew (hmem (h.table_mem hj ht)) (hfresh (h.table_mem hj ht)).symm

/-- Linking a new table touches no page but the root's. -/
theorem Tree.linked_same (h : Tree k p root T M) (hh : Hold L k p) (hp : p < procsMax)
    {v1 pt idx i : Nat} {r : Ram} (hv : v1 < 1024)
    (ha : allocPages k.toRam 1 = .ok (pt, idx, r)) (hi : i < maxRegions)
    (hst : (k.regions i).state = .allocated) (hne : i ≠ root) :
    SamePage k (Proof.linked L k p v1 pt idx r) i := by
  have hh1 := hh.record ha
  have hsame := fun i => hh.record_samePage (i := i) hp ha
  have happ := recordRegion_appended L { k with toRam := r } p idx
  unfold Proof.linked
  obtain ⟨k1, hk1⟩ : ∃ k1, k1 = recordRegion L { k with toRam := r } p idx := ⟨_, rfl⟩
  rw [← hk1] at hh1 hsame happ ⊢
  dsimp only at happ ⊢
  have hroot : root ∈ (k1.procs p).appended := by
    rw [happ]
    exact List.mem_append_left _ h.root_mem
  obtain ⟨g1, g2, g3, _, _⟩ := hh1.page hroot
  have h1 := hsame i hi hst
  have hrs : (k1.regions root).start = (k.procs p).pageTable := by
    obtain ⟨h2, h3, _⟩ := hh.page h.root_mem
    rw [h.pageTable, (hsame root h2 h3).1]
  refine h1.trans ?_
  exact store_samePage hh1.part hi g1 hne (by rw [h1.1]; exact hst) g2 (by omega) (by omega)

/-! ## `map_page` and `unmap_page` -/

/-- What changing the leaf word of `va` to `e` does, when the tables go from `T` to `T'`. -/
structure Updates (L : Layout) (k : Kernel) (p root : Nat) (T : Nat → Option Nat) (M : Nat → Nat)
    (va e : Nat) (k' : Kernel) (T' : Nat → Option Nat) : Prop where
  hold : Hold L k' p
  tree : Tree k' p root T' (Function.update M (va / 4096) e)
  /-- At most one table was added, the one for `va`. -/
  others : ∀ v, v ≠ vpn1 va → T' v = T v
  kept : T (vpn1 va) ≠ none → T' = T ∧ (k'.procs p).appended = (k.procs p).appended
  length : (k'.procs p).appended.length ≤ (k.procs p).appended.length + 1
  /-- No page was written that is not a table of the process. -/
  same : ∀ r, r < maxRegions → (k.regions r).state = .allocated → ¬ IsTable root T r →
    SamePage k k' r
  /-- Entries in use stay as they are, and what the process gained was not in use. -/
  entries : ∀ r, (k.regions r).state = .allocated → k'.regions r = k.regions r
  gained : ∀ r, r ∈ (k'.procs p).appended →
    r ∈ (k.procs p).appended ∨ (k.regions r).state = .unused
  images : (k'.procs p).imageRegions = (k.procs p).imageRegions

/-- A leaf word is written where there is a table for it. -/
theorem Tree.updates_leafed (h : Tree k p root T M) (hh : Hold L k p) {va e : Nat}
    (hva : va < 2 ^ 32) (he : e < 2 ^ 32) (hT : T (vpn1 va) ≠ none) :
    Updates L k p root T M va e (Proof.leafed k p va e) T := by
  obtain ⟨t, ht⟩ := Option.ne_none_iff_exists'.mp hT
  refine ⟨hh.setMem _, h.leafed hh hva he ht, fun _ _ => rfl, fun _ => ⟨rfl, rfl⟩,
    Nat.le_succ _, ?_, fun _ _ => rfl, fun _ => Or.inl, rfl⟩
  intro r hr hst hnt
  refine h.leafed_same hh ht hr hst ?_
  rintro rfl
  exact hnt (Or.inr ⟨_, vpn1_lt va, ht⟩)

/-- **`map_page` updates the map at one page number.** -/
theorem Tree.updates_mapPage (h : Tree k p root T M) (hh : Hold L k p) (hp : p < procsMax)
    {va pa fl : Nat} (hva : va < 2 ^ 32) (hpa : pa < 2 ^ 32) (hfl : fl < 1024)
    (hm : mapPage L k p va pa fl = .ok k') :
    ∃ T', Updates L k p root T M va (pte pa fl) k' T' := by
  obtain ⟨_, _, k1, he, rfl⟩ := mapPage_ok hm
  have hlt := pte_lt hpa hfl
  rcases ensureTable_ok he with ⟨hv, rfl⟩ | ⟨hv, pt, idx, r, ha, rfl⟩
  · exact ⟨T, h.updates_leafed hh hva hlt ((h.entry1_valid (vpn1_lt va)).mp hv)⟩
  · have hT : T (vpn1 va) = none := by
      by_contra hne
      exact (h.entry1_valid (vpn1_lt va)).mpr hne hv
    have h1 := h.linked hh hp (vpn1_lt va) hT ha
    have hh1 : Hold L (Proof.linked L k p (vpn1 va) pt idx r) p := (hh.record ha).setMem _
    have hT1 : Function.update T (vpn1 va) (some idx) (vpn1 va) ≠ none := by
      rw [Function.update_self]; exact Option.some_ne_none _
    have h2 := h1.updates_leafed hh1 hva hlt hT1
    have happ : ((Proof.linked L k p (vpn1 va) pt idx r).procs p).appended
        = (k.procs p).appended ++ [idx] := recordRegion_appended L { k with toRam := r } p idx
    have himg : ((Proof.linked L k p (vpn1 va) pt idx r).procs p).imageRegions
        = (k.procs p).imageRegions := recordRegion_imageRegions L { k with toRam := r } p idx
    have hreg : (Proof.linked L k p (vpn1 va) pt idx r).regions = r.regions :=
      recordRegion_table L { k with toRam := r } p idx
    refine ⟨_, h2.hold, h2.tree, fun v hne => Function.update_of_ne hne ..,
      fun hne => absurd hT hne, ?_, ?_, ?_, ?_, ?_⟩
    · rw [(h2.kept hT1).2, happ, List.length_append, List.length_singleton]
    · intro i hi hst hnt
      have hs1 := h.linked_same hh hp (vpn1_lt va) ha hi hst (fun e => hnt (Or.inl e))
      refine hs1.trans (h2.same i hi (by rw [hs1.1]; exact hst) ?_)
      -- the new table is not a page that was in use before
      rintro (rfl | ⟨v, hv1, hv2⟩)
      · exact hnt (Or.inl rfl)
      · by_cases hvv : v = vpn1 va
        · rw [hvv, Function.update_self] at hv2
          injection hv2 with hv2
          exact alloc_ne ha hst hv2.symm
        · rw [Function.update_of_ne hvv] at hv2
          exact hnt (Or.inr ⟨v, hv1, hv2⟩)
    · intro i hst
      have hkeep := (allocPages_spec ha).keeps i hst
      rw [h2.entries i (by rw [hreg, hkeep]; exact hst), hreg, hkeep]
    · intro i hi
      rw [(h2.kept hT1).2, happ, List.mem_append, List.mem_singleton] at hi
      exact hi.imp_right fun e => by rw [e]; exact (allocPages_spec ha).wasUnused
    · rw [h2.images, himg]

/-- **`unmap_page` clears the map at one page number.** -/
theorem Tree.updates_unmapPage (h : Tree k p root T M) (hh : Hold L k p) {va : Nat}
    (hva : va < 2 ^ 32) (hm : unmapPage k p va = .ok k') : Updates L k p root T M va 0 k' T := by
  rcases unmapPage_ok hm with ⟨hv, rfl⟩ | ⟨hv, rfl⟩
  · have hT : T (vpn1 va) = none := by
      by_contra hne
      exact (h.entry1_valid (vpn1_lt va)).mpr hne hv
    -- without a table the entry was zero all along
    have hz := h.sv32.bare _ (vpn1_lt va) (tableAddr_none hT) _ (vpn0_lt va)
    rw [vpn_eq hva] at hz
    refine ⟨hh, ?_, fun _ _ => rfl, fun _ => ⟨rfl, rfl⟩, Nat.le_succ _,
      fun r _ _ _ => SamePage.refl _ r, fun _ _ => rfl, fun _ => Or.inl, rfl⟩
    rw [← hz, Function.update_eq_self]
    exact h
  · exact h.updates_leafed hh hva (by decide) ((h.entry1_valid (vpn1_lt va)).mp hv)

/-- The same, where everybody's regions and the mappings of the process are in order too. -/
structure Remaps (L : Layout) (X : Nat → Prop) (k : Kernel) (p root : Nat)
    (T : Nat → Option Nat) (M : Nat → Nat) (va e : Nat) (k' : Kernel) (T' : Nat → Option Nat) :
    Prop where
  own : Own L X k'
  tree : Tree k' p root T' (Function.update M (va / 4096) e)
  /-- At most one table was added, the one for `va`. -/
  others : ∀ v, v ≠ vpn1 va → T' v = T v
  kept : T (vpn1 va) ≠ none → T' = T ∧ (k'.procs p).appended = (k.procs p).appended
  /-- No page was written that is not a table of the process. -/
  same : ∀ r, r < maxRegions → (k.regions r).state = .allocated → ¬ IsTable root T r →
    SamePage k k' r
  /-- Entries in use stay as they are, and what the process gained was not in use. -/
  entries : ∀ r, (k.regions r).state = .allocated → k'.regions r = k.regions r
  gained : ∀ r, r ∈ (k'.procs p).appended →
    r ∈ (k.procs p).appended ∨ (k.regions r).state = .unused
  mappings : (k'.procs p).shmMappings = (k.procs p).shmMappings
  images : (k'.procs p).imageRegions = (k.procs p).imageRegions

theorem Updates.remaps {va e : Nat} {T' : Nat → Option Nat} (h : Updates L k p root T M va e k' T')
    (ho : Own L X k') (hmap : (k'.procs p).shmMappings = (k.procs p).shmMappings) :
    Remaps L X k p root T M va e k' T' :=
  ⟨ho, h.tree, h.others, h.kept, h.same, h.entries, h.gained, hmap, h.images⟩

/-- For `map_page` there must be room in the record for the table it may have to add. -/
theorem Tree.remaps_mapPage (h : Tree k p root T M) (ho : Own L X k) (hp : p < procsMax)
    {va pa fl : Nat} (hva : va < 2 ^ 32) (hpa : pa < 2 ^ 32) (hfl : fl < 1024)
    (hroom : T (vpn1 va) = none → (k.procs p).appended.length ≤ procRegionMax)
    (hm : mapPage L k p va pa fl = .ok k') :
    ∃ T', Remaps L X k p root T M va (pte pa fl) k' T' := by
  obtain ⟨T', hu⟩ := h.updates_mapPage (ho.hold hp) hp hva hpa hfl hm
  have hlen : (k'.procs p).appended.length ≤ procRegionMax + 1 := by
    by_cases hT : T (vpn1 va) = none
    · exact Nat.le_trans hu.length (Nat.succ_le_succ (hroom hT))
    · rw [(hu.kept hT).2]
      exact (ho.recorded p hp).len
  obtain ⟨ho', hmap⟩ := ownIf_mapPage hp (fun _ => ⟨ho, rfl⟩) hm hlen
  exact ⟨T', hu.remaps ho' hmap⟩

theorem Tree.remaps_unmapPage (h : Tree k p root T M) (ho : Own L X k) (hp : p < procsMax)
    {va : Nat} (hva : va < 2 ^ 32) (hm : unmapPage k p va = .ok k') :
    Remaps L X k p root T M va 0 k' T := by
  refine (h.updates_unmapPage (ho.hold hp) hva hm).remaps (own_unmapPage ho hm) ?_
  rw [(unmapPage_shmTable hm).2.1]

/-! ## Making a tree -/

/-- A fresh page table page is an empty tree. -/
theorem tree_allocPageTable (hh : Hold L k p) (hp : p < procsMax)
    (happ : (k.procs p).appended = []) (himg : (k.procs p).imageRegions = [])
    (hpt : allocPageTable L k p = .ok k') :
    ∃ root, Hold L k' p ∧ Tree k' p root (fun _ => none) (fun _ => 0)
      ∧ (k.regions root).state = .unused ∧ (k'.procs p).appended = [root]
      ∧ (∀ r, r < maxRegions → (k.regions r).state = .allocated → SamePage k k' r)
      ∧ (k'.procs p).imageRegions = [] := by
  obtain ⟨pt, idx, r, ha, hk'⟩ := allocPageTable_ok hpt
  have hs := allocPages_spec ha
  -- setting `page_table` first changes nothing that recording the region looks at
  obtain ⟨k0, hk0⟩ : ∃ k0, k0 = k.setProc p fun q => { q with pageTable := pt } := ⟨_, rfl⟩
  have hh0 : Hold L k0 p := by rw [hk0]; exact hh.setProc rfl rfl
  have ha0 : allocPages k0.toRam 1 = .ok (pt, idx, r) := by rw [hk0]; exact ha
  have hproc0 : k0.procs p = { k.procs p with pageTable := pt } := by rw [hk0]; exact setProc_self ..
  have hk' : k' = recordRegion L { k0 with toRam := r } p idx := by rw [hk', hk0]; rfl
  have hreg : k'.regions = r.regions := by rw [hk']; exact recordRegion_table L _ p idx
  have hpage : (k'.procs p).pageTable = pt := by
    rw [hk', recordRegion_pageTable]
    dsimp only
    rw [hproc0]
  have happ' : (k'.procs p).appended = [idx] := by
    rw [hk', recordRegion_appended]
    dsimp only
    rw [hproc0, happ]
    rfl
  have himg' : (k'.procs p).imageRegions = [] := by
    rw [hk', recordRegion_imageRegions]
    dsimp only
    rw [hproc0]
    exact himg
  refine ⟨idx, by rw [hk']; exact hh0.record ha0, ⟨?_, ?_, ?_⟩, hs.wasUnused, happ', ?_, himg'⟩
  · have htab : tables (fun _ => none) = [] := by
      unfold tables
      exact List.filterMap_eq_nil_iff.mpr fun _ _ => rfl
    rw [happ', himg', htab]
    exact List.Perm.refl _
  · rw [hpage, hreg, hs.entry]
  · rw [hpage]
    refine sv32_empty fun x hx1 hx2 => ?_
    rw [hk']
    exact hh0.record_zero hp ha0 hx1 hx2
  · intro i hi hst
    have hsame := hh0.record_samePage hp ha0 (i := i) hi (by rw [hk0]; exact hst)
    rw [← hk', hk0] at hsame
    exact hsame

/-- A page holds `bs` from its start on, and zeros behind. -/
def PageBytes (m : Mem) (a : Nat) (bs : List UInt8) : Prop :=
  ∀ x, x < 4096 → m (a + x) = bs.getD x 0

/-- A page that is the same holds the same. -/
theorem PageBytes.samePage {i : Nat} {bs : List UInt8} (h : PageBytes k.mem (k.regions i).start bs)
    (hs : SamePage k k' i) (hsize : (k.regions i).size = 4096) :
    PageBytes k'.mem (k'.regions i).start bs := by
  intro x hx
  rw [hs.1, hs.2 _ (by omega) (by omega)]
  exact h x hx

/-- A new image page holds the bytes it was filled with. -/
theorem imaged_bytes (hh : Hold L k p) (hp : p < procsMax) {page region : Nat} {r : Ram}
    (bytes : List UInt8) (ha : allocPages k.toRam 1 = .ok (page, region, r)) :
    PageBytes (imaged L k p page region r bytes).mem page bytes := by
  intro x hx
  show writeBytes (recordRegion L { k with toRam := r } p region).mem page bytes (page + x) = _
  rw [writeBytes_apply, if_pos (by omega), Nat.add_sub_cancel_left,
    hh.record_zero hp ha (by omega) (by omega), List.getD_eq_getElem?_getD]

/-- A new image page, filled and not mapped yet, changes nothing in the tree. -/
theorem Tree.imaged (h : Tree k p root T M) (hh : Hold L k p) (hp : p < procsMax)
    {page region : Nat} {r : Ram} {bytes : List UInt8} (hb : bytes.length ≤ pageSize)
    (ha : allocPages k.toRam 1 = .ok (page, region, r)) :
    Hold L (imaged L k p page region r bytes) p
      ∧ Tree (Proof.imaged L k p page region r bytes) p root T M
      ∧ (∀ i, i < maxRegions → (k.regions i).state = .allocated →
        SamePage k (Proof.imaged L k p page region r bytes) i)
      ∧ ((Proof.imaged L k p page region r bytes).procs p).appended
        = (k.procs p).appended ++ [region]
      ∧ ((Proof.imaged L k p page region r bytes).procs p).imageRegions
        = (k.procs p).imageRegions ++ [region]
      ∧ (Proof.imaged L k p page region r bytes).regions region = ⟨page, 4096, .allocated⟩ := by
  have hs := allocPages_spec ha
  have hh1 := hh.record ha
  have hsame1 := fun i => hh.record_samePage (i := i) hp ha
  have happ := recordRegion_appended L { k with toRam := r } p region
  have hpage := recordRegion_pageTable L { k with toRam := r } p region
  have himg := recordRegion_imageRegions L { k with toRam := r } p region
  have hreg := recordRegion_table L { k with toRam := r } p region
  unfold Proof.imaged
  obtain ⟨k1, hk1⟩ : ∃ k1, k1 = recordRegion L { k with toRam := r } p region := ⟨_, rfl⟩
  rw [← hk1] at hh1 hsame1 happ hpage himg hreg ⊢
  dsimp only at happ hpage himg hreg ⊢
  rw [setProc_self]
  have hh2 : Hold L (k1.setProc p fun q => { q with imageRegions := q.imageRegions ++ [region] }) p :=
    hh1.setProc rfl rfl
  have hentry : k1.regions region = ⟨page, 4096, .allocated⟩ := by
    rw [hreg, hs.entry, required_one]
  -- the bytes go to the new page, which no other region overlaps
  have hsame : ∀ i, i < maxRegions → (k.regions i).state = .allocated →
      SamePage k { k1.setProc p fun q => { q with imageRegions := q.imageRegions ++ [region] } with
        mem := writeBytes k1.mem page bytes } i := by
    intro i hi hst
    have g1 := hsame1 i hi hst
    have hpg : page = (k1.regions region).start := by rw [hentry]
    have hfit : bytes.length ≤ (k1.regions region).size := by rw [hentry]; exact hb
    have g2 := writeBytes_samePage hh1.part hi hs.lt (alloc_ne ha hst) (by rw [g1.1]; exact hst)
      (by rw [hentry]) hfit
    rw [← hpg] at g2
    exact ⟨(g1.trans g2).1, (g1.trans g2).2⟩
  refine ⟨hh2.setMem _, ?_, hsame, happ, by rw [himg], hentry⟩
  obtain ⟨hsv, hroot⟩ := h.sv32_same hh fun i hi => by
    obtain ⟨h1, h2, _⟩ := hh.pages i (hi.mem h)
    exact hsame i h1 h2
  have hself : (k1.setProc p fun q => { q with imageRegions := q.imageRegions ++ [region] }).procs p
      = { k1.procs p with imageRegions := (k1.procs p).imageRegions ++ [region] } := setProc_self ..
  refine ⟨?_, ?_, ?_⟩
  · dsimp only
    rw [hself]
    dsimp only
    rw [happ, himg, ← List.append_assoc, ← List.cons_append]
    exact h.perm.append_right [region]
  · dsimp only
    rw [hself]
    dsimp only
    rw [hpage]
    exact hroot
  · dsimp only
    rw [hself]
    dsimp only
    rw [hpage]
    exact hsv

end

end Os1000.Proof
