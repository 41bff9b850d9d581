import Os1000.Proof.Overflow

/-!
# What `map_page` and `unmap_page` do to the translation

The law of page tables, from as little as it can be proved from: the valid entries of a
process's first level point to different pages that were recorded for it, and no page is
recorded for two processes. What the entries hold otherwise, and what the leaf words are,
does not matter. `map_page` then changes the translation of one page of one process, and
so does `unmap_page`, and the condition holds again.

A call has at most two steps. Linking a new table changes no translation at all: where it
is linked nothing was valid before, and a page of zeros has no valid entry either. Writing
a leaf word changes the translation of its own page.
-/

namespace Os1000.Proof

open Os1000 Lib

/-- The leaf entry that process `p` has for `va`. -/
def translate (k : Kernel) (p va : Nat) : Option Nat := walk k.mem (k.procs p).pageTable va

/-- `a` is the address of a page that was recorded for process `p`. -/
def OwnPage (k : Kernel) (p a : Nat) : Prop :=
  ∃ r, r ∈ (k.procs p).appended ∧ a = (k.regions r).start

/-- **The page tables of a process are its own pages.** -/
structure OwnTables (L : Layout) (k : Kernel) (p : Nat) : Prop where
  hold : Hold L k p
  root : OwnPage k p (k.procs p).pageTable
  /-- A valid first-level entry points to a table. -/
  pointer : ∀ i, i < 1024 → entry1 k p i &&& pageV ≠ 0 →
    entry1 k p i &&& (pageR ||| pageW ||| pageX) = 0
  /-- The table is a page of the process, and not the root. -/
  table : ∀ i, i < 1024 → entry1 k p i &&& pageV ≠ 0 →
    OwnPage k p (ptePage (entry1 k p i)) ∧ ptePage (entry1 k p i) ≠ (k.procs p).pageTable
  /-- No table is used twice. -/
  distinct : ∀ i j, i < 1024 → j < 1024 → i ≠ j → entry1 k p i &&& pageV ≠ 0 →
    entry1 k p j &&& pageV ≠ 0 → ptePage (entry1 k p i) ≠ ptePage (entry1 k p j)

/-- Every process has page tables of its own, and no page belongs to two processes. -/
structure PageTables (L : Layout) (k : Kernel) : Prop where
  own : ∀ p, Live k p → OwnTables L k p
  apart : ∀ p q r, Live k p → Live k q → p ≠ q → r ∈ (k.procs p).appended →
    r ∉ (k.procs q).appended

section

variable {L : Layout} {k k' : Kernel} {p q a b : Nat}

theorem OwnPage.apart (ha : OwnPage k p a) (hb : OwnPage k p b) (hh : Hold L k p) (hne : a ≠ b) :
    Apart a b := by
  obtain ⟨r, hr, rfl⟩ := ha
  obtain ⟨s, hs, rfl⟩ := hb
  exact hh.apart hr hs fun h => hne (by rw [h])

/-- The words of a page are the same while the page is. -/
theorem OwnPage.word (ha : OwnPage k p a) (hh : Hold L k p)
    (hsame : ∀ r, r ∈ (k.procs p).appended → SamePage k k' r) {j : Nat} (hj : j < 1024) :
    load32 k'.mem (a + 4 * j) = load32 k.mem (a + 4 * j) := by
  obtain ⟨r, hr, rfl⟩ := ha
  have hsize := (hh.page hr).2.2.1
  exact load32_congr fun x h1 h2 => (hsame r hr).2 x (by omega) (by omega)

theorem OwnPage.same (ha : OwnPage k p a)
    (hsame : ∀ r, r ∈ (k.procs p).appended → SamePage k k' r)
    (happ : ∀ r, r ∈ (k.procs p).appended → r ∈ (k'.procs p).appended) : OwnPage k' p a := by
  obtain ⟨r, hr, rfl⟩ := ha
  exact ⟨r, happ r hr, by rw [(hsame r hr).1]⟩

/-- A word stored in another page is not seen in this one. -/
theorem load_apart {m : Mem} {i j e : Nat} (h : Apart a b) (hi : i < 1024) (hj : j < 1024) :
    load32 (store32 m (b + 4 * j) e) (a + 4 * i) = load32 m (a + 4 * i) := by
  unfold Apart at h
  exact load32_store32_of_disjoint (by omega)

/-- The hardware reads one word of each level. -/
theorem OwnTables.translate_eq (h : OwnTables L k p) (va : Nat) :
    translate k p va = if entry1 k p (vpn1 va) &&& pageV = 0 then none
      else if load32 k.mem (ptePage (entry1 k p (vpn1 va)) + 4 * vpn0 va) &&& pageV = 0 then none
      else some (load32 k.mem (ptePage (entry1 k p (vpn1 va)) + 4 * vpn0 va)) := by
  show (if entry1 k p (vpn1 va) &&& pageV = 0 then none
    else if entry1 k p (vpn1 va) &&& (pageR ||| pageW ||| pageX) ≠ 0 then
      some (entry1 k p (vpn1 va))
    else if load32 k.mem (ptePage (entry1 k p (vpn1 va)) + 4 * vpn0 va) &&& pageV = 0 then none
    else some (load32 k.mem (ptePage (entry1 k p (vpn1 va)) + 4 * vpn0 va))) = _
  by_cases hv : entry1 k p (vpn1 va) &&& pageV = 0
  · rw [if_pos hv, if_pos hv]
  · rw [if_neg hv, if_neg hv, if_neg (fun hne => hne (h.pointer _ (vpn1_lt va) hv))]

theorem OwnTables.translate_none (h : OwnTables L k p) {va : Nat}
    (hv : entry1 k p (vpn1 va) &&& pageV = 0) : translate k p va = none := by
  rw [h.translate_eq, if_pos hv]

/-- Nothing about a process changes while its pages and its record do not. -/
theorem OwnTables.frame (h : OwnTables L k q) (hpart : Partition L k'.regions)
    (hproc : k'.procs q = k.procs q)
    (hsame : ∀ r, r ∈ (k.procs q).appended → SamePage k k' r) :
    OwnTables L k' q ∧ ∀ va, translate k' q va = translate k q va := by
  have hentry : ∀ i, i < 1024 → entry1 k' q i = entry1 k q i := by
    intro i hi
    unfold entry1
    rw [hproc]
    exact h.root.word h.hold hsame hi
  have hpage : ∀ {a}, OwnPage k q a → OwnPage k' q a :=
    fun ha => ha.same hsame fun r hr => by rw [hproc]; exact hr
  have hown : OwnTables L k' q := by
    refine ⟨h.hold.other hpart hproc fun r hr => (hsame r hr).1, ?_, ?_, ?_, ?_⟩
    · rw [hproc]; exact hpage h.root
    · intro i hi hv
      rw [hentry i hi] at hv ⊢
      exact h.pointer i hi hv
    · intro i hi hv
      rw [hentry i hi] at hv ⊢
      rw [hproc]
      exact (h.table i hi hv).imp hpage id
    · intro i j hi hj hij hvi hvj
      rw [hentry i hi] at hvi ⊢
      rw [hentry j hj] at hvj ⊢
      exact h.distinct i j hi hj hij hvi hvj
  refine ⟨hown, fun va => ?_⟩
  rw [hown.translate_eq, h.translate_eq, hentry _ (vpn1_lt va)]
  by_cases hv : entry1 k q (vpn1 va) &&& pageV = 0
  · rw [if_pos hv, if_pos hv]
  · rw [(h.table _ (vpn1_lt va) hv).1.word h.hold hsame (vpn0_lt va)]

/-! ## One step for the process itself -/

/-- What a step for process `p` does: it changes the translation of pages in `D` only. -/
structure Rewrites (L : Layout) (k : Kernel) (p : Nat) (D : Nat → Prop) (k' : Kernel) : Prop where
  tables : OwnTables L k' p
  others : ∀ va, va < 2 ^ 32 → ¬ D (va / pageSize) → translate k' p va = translate k p va
  /-- Nobody else's page is touched. -/
  same : ∀ r, r < maxRegions → (k.regions r).state = .allocated → r ∉ (k.procs p).appended →
    SamePage k k' r
  gained : ∀ r, r ∈ (k'.procs p).appended →
    r ∈ (k.procs p).appended ∨ (k.regions r).state = .unused

/-- A step that changes no translation, and one that changes those in `D`. -/
theorem Rewrites.trans {D : Nat → Prop} {k1 : Kernel} (h : Rewrites L k p (fun _ => False) k1)
    (h' : Rewrites L k1 p D k') (happ : (k'.procs p).appended = (k1.procs p).appended) :
    Rewrites L k p D k' where
  tables := h'.tables
  others va hva hD := (h'.others va hva hD).trans (h.others va hva id)
  same r hr hst hn := by
    have h1 := h.same r hr hst hn
    refine h1.trans (h'.same r hr (by rw [h1.1]; exact hst) fun hm => ?_)
    rcases h.gained r hm with hin | hu
    · exact hn hin
    · rw [hst] at hu; cases hu
  gained r hm := h.gained r (by rw [← happ]; exact hm)

/-- A word is written into a table that is there. -/
theorem OwnTables.leafed (h : OwnTables L k p) {va e : Nat} (hva : va < 2 ^ 32) (he : e < 2 ^ 32)
    (hv : entry1 k p (vpn1 va) &&& pageV ≠ 0) :
    Rewrites L k p (fun v => v = va / pageSize) (leafed k p va e)
      ∧ translate (Proof.leafed k p va e) p va = if e &&& pageV = 0 then none else some e := by
  obtain ⟨hown, hne⟩ := h.table _ (vpn1_lt va) hv
  have hap : Apart (k.procs p).pageTable (ptePage (entry1 k p (vpn1 va))) :=
    h.root.apart hown h.hold hne.symm
  -- the root is another page, so the first level stays
  have hentry : ∀ i, i < 1024 → entry1 (Proof.leafed k p va e) p i = entry1 k p i :=
    fun i hi => load_apart hap hi (vpn0_lt va)
  have htab : OwnTables L (Proof.leafed k p va e) p := by
    refine ⟨h.hold.setMem _, h.root, ?_, ?_, ?_⟩
    · intro i hi hvi
      rw [hentry i hi] at hvi ⊢
      exact h.pointer i hi hvi
    · intro i hi hvi
      rw [hentry i hi] at hvi ⊢
      exact h.table i hi hvi
    · intro i j hi hj hij hvi hvj
      rw [hentry i hi] at hvi ⊢
      rw [hentry j hj] at hvj ⊢
      exact h.distinct i j hi hj hij hvi hvj
  refine ⟨⟨htab, ?_, ?_, fun r hr => Or.inl hr⟩, ?_⟩
  · intro va' hva' hD
    rw [htab.translate_eq, h.translate_eq, hentry _ (vpn1_lt va')]
    by_cases hv' : entry1 k p (vpn1 va') &&& pageV = 0
    · rw [if_pos hv', if_pos hv']
    · have hword : load32 (Proof.leafed k p va e).mem
          (ptePage (entry1 k p (vpn1 va')) + 4 * vpn0 va')
          = load32 k.mem (ptePage (entry1 k p (vpn1 va')) + 4 * vpn0 va') := by
        by_cases h1 : vpn1 va' = vpn1 va
        · -- the same table, but another word of it
          have h0 : vpn0 va' ≠ vpn0 va := by
            intro h0
            refine hD ?_
            have g1 := vpn_eq hva'
            have g2 := vpn_eq hva
            unfold pageSize
            rw [h1, h0] at g1
            omega
          rw [h1]
          exact load32_store32_of_disjoint (by omega)
        · have hap' := (h.table _ (vpn1_lt va') hv').1.apart hown h.hold
            (h.distinct _ _ (vpn1_lt va') (vpn1_lt va) h1 hv' hv)
          exact load_apart hap' (vpn0_lt va') (vpn0_lt va)
      rw [hword]
  · intro r hr hst hn
    obtain ⟨t, ht, hstart⟩ := hown
    obtain ⟨h1, h2, h3, _, _⟩ := h.hold.page ht
    have hlt := vpn0_lt va
    exact store_samePage h.hold.part hr h1 (fun heq => hn (by rw [heq]; exact ht)) hst h2
      (by omega) (by omega)
  · have hword : load32 (Proof.leafed k p va e).mem
        (ptePage (entry1 k p (vpn1 va)) + 4 * vpn0 va) = e := load32_store32 he
    rw [htab.translate_eq, hentry _ (vpn1_lt va), if_neg hv, hword]

/-- A new table is linked where nothing was valid. -/
theorem OwnTables.linked (h : OwnTables L k p) (hp : p < procsMax) {v1 pt idx : Nat} {r : Ram}
    (hv1 : v1 < 1024) (hv : entry1 k p v1 &&& pageV = 0)
    (ha : allocPages k.toRam 1 = .ok (pt, idx, r)) :
    Rewrites L k p (fun _ => False) (linked L k p v1 pt idx r)
      ∧ entry1 (Proof.linked L k p v1 pt idx r) p v1 &&& pageV ≠ 0 := by
  have hs := allocPages_spec ha
  have hh1 := h.hold.record ha
  have hzero := fun x => h.hold.record_zero (x := x) hp ha
  have hsame := fun i => h.hold.record_samePage (i := i) hp ha
  have happ := recordRegion_appended L { k with toRam := r } p idx
  have hpage := recordRegion_pageTable L { k with toRam := r } p idx
  have hreg := recordRegion_table L { k with toRam := r } p idx
  unfold Proof.linked
  obtain ⟨k1, hk1⟩ : ∃ k1, k1 = recordRegion L { k with toRam := r } p idx := ⟨_, rfl⟩
  rw [← hk1] at hh1 hzero hsame happ hpage hreg ⊢
  dsimp only at happ hpage hreg ⊢
  obtain ⟨k2, hk2⟩ : ∃ k2 : Kernel, k2 =
    { k1 with mem := store32 k1.mem ((k.procs p).pageTable + 4 * v1) (linkTo pt) } := ⟨_, rfl⟩
  rw [← hk2]
  have hmem2 : k2.mem = store32 k1.mem ((k.procs p).pageTable + 4 * v1) (linkTo pt) := by rw [hk2]
  have hproc2 : k2.procs = k1.procs := by rw [hk2]
  have hreg2 : k2.regions = k1.regions := by rw [hk2]
  have hh2 : Hold L k2 p := by rw [hk2]; exact hh1.setMem _
  have hmine : ∀ i, i ∈ (k.procs p).appended → SamePage k k1 i := fun i hi =>
    hsame i (h.hold.pages i hi).1 (h.hold.pages i hi).2.1
  have hold1 : ∀ {a}, OwnPage k p a → OwnPage k1 p a := fun hpg => hpg.same hmine fun i hi => by
    rw [happ]; exact List.mem_append_left _ hi
  have hold2 : ∀ {a}, OwnPage k1 p a → OwnPage k2 p a := by
    rintro a ⟨i, hi, rfl⟩
    exact ⟨i, by rw [hproc2]; exact hi, by rw [hreg2]⟩
  have hroot := hold1 h.root
  have hnew : OwnPage k1 p pt := ⟨idx, by rw [happ]; simp, by rw [hreg, hs.entry]⟩
  have hidx := hh1.page (r := idx) (by rw [happ]; simp)
  rw [show (k1.regions idx).start = pt by rw [hreg, hs.entry]] at hidx
  -- the new page is not one the process had
  have hfresh : ∀ {a}, OwnPage k p a → a ≠ pt := by
    rintro a ⟨i, hi, rfl⟩ heq
    have hne := alloc_ne ha (h.hold.pages i hi).2.1
    have hap := hh1.apart (r := i) (s := idx) (by rw [happ]; exact List.mem_append_left _ hi)
      (by rw [happ]; simp) hne
    rw [(hmine i hi).1, hreg, hs.entry] at hap
    unfold Apart at hap
    dsimp only at hap
    omega
  have hlink : linkTo pt = linkWord pt := linkTo_eq pt
  have hpt : ptePage (linkTo pt) = pt := by rw [hlink]; exact ptePage_linkWord hidx.2.2.2.1 (by omega)
  have hentry1 : entry1 k2 p v1 = linkTo pt := by
    unfold entry1
    rw [hproc2, hpage, hmem2]
    exact load32_store32 (by rw [hlink]; exact linkWord_lt (by omega))
  have hentry : ∀ i, i < 1024 → i ≠ v1 → entry1 k2 p i = entry1 k p i := by
    intro i hi hne
    unfold entry1
    rw [hproc2, hpage, hmem2, load32_store32_of_disjoint (by omega)]
    exact h.root.word h.hold hmine hi
  have hvalid : entry1 k2 p v1 &&& pageV ≠ 0 := by
    rw [hentry1, hlink, linkWord_and (by decide)]
    decide
  have htab : OwnTables L k2 p := by
    refine ⟨hh2, by rw [hproc2, hpage]; exact hold2 hroot, ?_, ?_, ?_⟩
    · intro i hi hvi
      by_cases hiv : i = v1
      · rw [hiv, hentry1, hlink, linkWord_and (by decide)]
        decide
      · rw [hentry i hi hiv] at hvi ⊢
        exact h.pointer i hi hvi
    · intro i hi hvi
      rw [hproc2, hpage]
      by_cases hiv : i = v1
      · rw [hiv, hentry1, hpt]
        exact ⟨hold2 hnew, (hfresh h.root).symm⟩
      · rw [hentry i hi hiv] at hvi ⊢
        exact (h.table i hi hvi).imp (fun g => hold2 (hold1 g)) id
    · intro i j hi hj hij hvi hvj
      by_cases hiv : i = v1
      · have hjv : j ≠ v1 := fun e => hij (hiv.trans e.symm)
        rw [hentry j hj hjv] at hvj ⊢
        rw [hiv, hentry1, hpt]
        exact (hfresh (h.table j hj hvj).1).symm
      · rw [hentry i hi hiv] at hvi ⊢
        by_cases hjv : j = v1
        · rw [hjv, hentry1, hpt]
          exact hfresh (h.table i hi hvi).1
        · rw [hentry j hj hjv] at hvj ⊢
          exact h.distinct i j hi hj hij hvi hvj
  refine ⟨⟨htab, ?_, ?_, ?_⟩, hvalid⟩
  · intro va _ _
    rw [htab.translate_eq]
    by_cases hvv : vpn1 va = v1
    · -- nothing is valid in a page of zeros
      have hword : load32 k2.mem (pt + 4 * vpn0 va) = 0 := by
        have hlt := vpn0_lt va
        have hap := hroot.apart hnew hh1 (hfresh h.root)
        rw [hmem2, load_apart hap.symm hlt hv1]
        exact load32_zero fun x h1 h2 => hzero x (by omega) (by omega)
      rw [hvv, if_neg hvalid, hentry1, hpt, hword, if_pos (Nat.zero_and _),
        h.translate_none (by rw [hvv]; exact hv)]
    · rw [hentry _ (vpn1_lt va) hvv, h.translate_eq]
      by_cases hv' : entry1 k p (vpn1 va) &&& pageV = 0
      · rw [if_pos hv', if_pos hv']
      · obtain ⟨g1, g2⟩ := h.table _ (vpn1_lt va) hv'
        have hap := (hold1 g1).apart hroot hh1 g2
        rw [hmem2, load_apart hap (vpn0_lt va) hv1, g1.word h.hold hmine (vpn0_lt va)]
  · intro i hi hst hn
    have h1 := hsame i hi hst
    obtain ⟨t, ht, hstart⟩ := h.root
    obtain ⟨g1, g2, g3, _, _⟩ := h.hold.page ht
    have ht1 := (hmine t ht).1
    rw [hk2]
    refine h1.trans (store_samePage hh1.part hi g1 (fun heq => hn (by rw [heq]; exact ht))
      (by rw [h1.1]; exact hst) (by rw [ht1]; exact g2) ?_ ?_)
    · rw [ht1]; omega
    · rw [ht1]; omega
  · intro i hi
    rw [hproc2, happ, List.mem_append, List.mem_singleton] at hi
    exact hi.imp_right fun e => by rw [e]; exact hs.wasUnused

/-! ## The calls -/

/-- **`map_page` for the process itself.** -/
theorem OwnTables.mapPage (h : OwnTables L k p) (hp : p < procsMax) {va pa fl : Nat}
    (hva : va < 2 ^ 32) (hpa : pa < 2 ^ 32) (hfl : fl < 1024)
    (hm : mapPage L k p va pa fl = .ok k') :
    Rewrites L k p (fun v => v = va / pageSize) k' ∧ translate k' p va = some (pte pa fl) := by
  obtain ⟨_, _, k1, he, rfl⟩ := mapPage_ok hm
  have hlt := pte_lt hpa hfl
  rcases ensureTable_ok he with ⟨hv, rfl⟩ | ⟨hv, pt, idx, r, ha, rfl⟩
  · obtain ⟨h1, h2⟩ := h.leafed hva hlt hv
    rw [if_neg (pte_valid hfl)] at h2
    exact ⟨h1, h2⟩
  · obtain ⟨h1, hv1⟩ := h.linked hp (vpn1_lt va) hv ha
    obtain ⟨h2, h3⟩ := h1.tables.leafed hva hlt hv1
    rw [if_neg (pte_valid hfl)] at h3
    exact ⟨h1.trans h2 rfl, h3⟩

/-- **`unmap_page` for the process itself.** -/
theorem OwnTables.unmapPage (h : OwnTables L k p) {va : Nat} (hva : va < 2 ^ 32)
    (hm : unmapPage k p va = .ok k') :
    Rewrites L k p (fun v => v = va / pageSize) k' ∧ translate k' p va = none := by
  rcases unmapPage_ok hm with ⟨hv, rfl⟩ | ⟨hv, rfl⟩
  · exact ⟨⟨h, fun _ _ _ => rfl, fun i _ _ _ => SamePage.refl _ i, fun _ => Or.inl⟩,
      h.translate_none hv⟩
  · obtain ⟨h1, h2⟩ := h.leafed (e := 0) hva (by decide) hv
    rw [if_pos (Nat.zero_and _)] at h2
    exact ⟨h1, h2⟩

/-- What holds for the process holds for all of them. -/
theorem PageTables.rewrites {D : Nat → Prop} (h : PageTables L k) (hl : Live k p)
    (hr : Rewrites L k p D k') (hk : Keep p k k') :
    PageTables L k' ∧ ∀ q, Live k q → q ≠ p → ∀ va, translate k' q va = translate k q va := by
  have hlive : ∀ {q}, Live k' q → Live k q := by
    intro q hq
    by_cases hqp : q = p
    · rw [hqp]; exact hl
    · unfold Live at hq ⊢
      rwa [hk.procs q hqp] at hq
  have hother : ∀ q, Live k q → q ≠ p → OwnTables L k' q
      ∧ ∀ va, translate k' q va = translate k q va := by
    intro q hq hqp
    refine (h.own q hq).frame hr.tables.hold.part (hk.procs q hqp) fun r hmem => ?_
    obtain ⟨h1, h2, _⟩ := (h.own q hq).hold.pages r hmem
    exact hr.same r h1 h2 (h.apart q p r hq hl hqp hmem)
  -- a page that the process gained was nobody's
  have hapart : ∀ q r, Live k q → q ≠ p → r ∈ (k'.procs p).appended →
      r ∉ (k.procs q).appended := by
    intro q r hq hqp hr' hq'
    rcases hr.gained r hr' with hin | hu
    · exact h.apart p q r hl hq hqp.symm hin hq'
    · rw [((h.own q hq).hold.pages r hq').2.1] at hu
      cases hu
  refine ⟨⟨fun q hq => ?_, fun q s r hq hs hqs hr' => ?_⟩, fun q hq hqp => (hother q hq hqp).2⟩
  · by_cases hqp : q = p
    · rw [hqp]; exact hr.tables
    · exact (hother q (hlive hq) hqp).1
  · by_cases hqp : q = p
    · have hsp : s ≠ p := fun e => hqs (hqp.trans e.symm)
      rw [hk.procs s hsp]
      rw [hqp] at hr'
      exact hapart s r (hlive hs) hsp hr'
    · rw [hk.procs q hqp] at hr'
      by_cases hsp : s = p
      · rw [hsp]
        exact fun hin => hapart q r (hlive hq) hqp hin hr'
      · rw [hk.procs s hsp]
        exact h.apart q s r (hlive hq) (hlive hs) hqs hr'

/-! ## Where the condition holds -/

theorem Tree.ownTables {root : Nat} {T : Nat → Option Nat} {M : Nat → Nat}
    (h : Tree k p root T M) (hh : Hold L k p) : OwnTables L k p := by
  -- a valid entry is the link to a table
  have hlink : ∀ i, i < 1024 → entry1 k p i &&& pageV ≠ 0 → ∃ t, T i = some t
      ∧ entry1 k p i = linkWord (k.regions t).start ∧ ptePage (entry1 k p i) = (k.regions t).start := by
    intro i hi hv
    obtain ⟨t, ht⟩ := Option.ne_none_iff_exists'.mp ((h.entry1_valid hi).mp hv)
    have he : entry1 k p i = linkWord (k.regions t).start := by
      rw [h.entry1_eq hi, tableAddr_some ht]
      rfl
    obtain ⟨_, _, _, h4, h5⟩ := hh.page (h.table_mem hi ht)
    exact ⟨t, ht, he, by rw [he]; exact ptePage_linkWord h4 (by omega)⟩
  refine ⟨hh, ⟨root, h.root_mem, h.pageTable⟩, ?_, ?_, ?_⟩
  · intro i hi hv
    obtain ⟨t, _, he, _⟩ := hlink i hi hv
    rw [he, linkWord_and (by decide)]
    decide
  · intro i hi hv
    obtain ⟨t, ht, _, hp⟩ := hlink i hi hv
    refine ⟨⟨t, h.table_mem hi ht, hp⟩, ?_⟩
    have hap := h.sv32.rootApart i _ hi (tableAddr_some ht)
    unfold Apart at hap
    omega
  · intro i j hi hj hij hvi hvj
    obtain ⟨t, ht, _, hpt⟩ := hlink i hi hvi
    obtain ⟨u, hu, _, hpu⟩ := hlink j hj hvj
    have hap := h.sv32.tableApart i j _ _ hi hj hij (tableAddr_some ht) (tableAddr_some hu)
    unfold Apart at hap
    omega

theorem Inv.pageTables {X : Nat → Prop} (h : Inv L X k) : PageTables L k := by
  refine ⟨fun p hl => ?_, fun p q r hp hq hpq hr hr' => ?_⟩
  · obtain ⟨root, T, hs⟩ := h.spaces p hl.1 hl.2
    exact hs.tree.ownTables (h.own.hold hl.1)
  · have hmine : Holds k (.proc p) r := ⟨hp.1, hr⟩
    have hyours : Holds k (.proc q) r := ⟨hq.1, hr'⟩
    have he := h.own.ledger.excl hmine hyours
    injection he with he
    exact hpq he

/-- **Every state of a guarded run has its page tables in order.** -/
theorem pageTables_run {tr : List Event} (h : GuardedRun L tr k) : PageTables L k :=
  (inv_run h).pageTables

/-! ## The law -/

/-- The flags of a leaf word that was made from `fl`. -/
theorem pte_flags {pa fl : Nat} (hfl : fl < 1024) : pte pa fl &&& 0x3ff = fl ||| pageV := by
  rw [pte_and hfl (by decide), show (0x3ff : Nat) = 2 ^ 10 - 1 by rfl,
    Nat.and_two_pow_sub_one_eq_mod]
  exact Nat.mod_eq_of_lt (or_lt hfl (by decide))

/--
**The page table law.** Whether or not a table had to be added: after `map_page` the
page translates to `pa` with the flags given and `PAGE_V`, after `unmap_page` to nothing;
no other page of the process and no page of another process translates differently; and
the tables are as they must be for the next call.
-/
theorem page_table_update {va : Nat} (h : PageTables L k) (hl : Live k p) (hva : va < 2 ^ 32) :
    (∀ pa fl k', pa < 2 ^ 32 → fl < 1024 → fl &&& (pageR ||| pageW ||| pageX) ≠ 0 →
      va % pageSize = 0 → pa % pageSize = 0 → mapPage L k p va pa fl = .ok k' →
      (∃ e, translate k' p va = some e ∧ ptePage e = pa ∧ e &&& 0x3ff = fl ||| pageV)
      ∧ (∀ va', va' < 2 ^ 32 → va' / pageSize ≠ va / pageSize →
        translate k' p va' = translate k p va')
      ∧ (∀ q, Live k q → q ≠ p → ∀ va', va' < 2 ^ 32 → translate k' q va' = translate k q va')
      ∧ PageTables L k')
    ∧ (∀ k', va % pageSize = 0 → unmapPage k p va = .ok k' →
      translate k' p va = none
      ∧ (∀ va', va' < 2 ^ 32 → va' / pageSize ≠ va / pageSize →
        translate k' p va' = translate k p va')
      ∧ (∀ q, Live k q → q ≠ p → ∀ va', va' < 2 ^ 32 → translate k' q va' = translate k q va')
      ∧ PageTables L k') := by
  refine ⟨fun pa fl k' hpa hfl _ _ hal hm => ?_, fun k' _ hm => ?_⟩
  · obtain ⟨hr, ht⟩ := (h.own p hl).mapPage hl.1 hva hpa hfl hm
    obtain ⟨h1, h2⟩ := h.rewrites hl hr (grow_mapPage hm).keep
    exact ⟨⟨_, ht, ptePage_pte hal hpa hfl, pte_flags hfl⟩, hr.others,
      fun q hq hqp va' _ => h2 q hq hqp va', h1⟩
  · obtain ⟨hr, ht⟩ := (h.own p hl).unmapPage hva hm
    obtain ⟨h1, h2⟩ := h.rewrites hl hr (keep_unmapPage hm)
    exact ⟨ht, hr.others, fun q hq hqp va' _ => h2 q hq hqp va', h1⟩

/-- The first object a process attaches, mapped and unmapped; its window has no table before. -/
theorem page_table_update_window :
    ∃ k pa k' k'', PageTables sampleLayout k ∧ Live k 1 ∧ translate k 1 shmUserBase = none
      ∧ mapPage sampleLayout k 1 shmUserBase pa windowFlags = .ok k'
      ∧ (∃ e, translate k' 1 shmUserBase = some e ∧ ptePage e = pa
        ∧ e &&& 0x3ff = windowFlags ||| pageV)
      ∧ unmapPage k' 1 shmUserBase = .ok k'' ∧ translate k'' 1 shmUserBase = none := by
  obtain ⟨k, n, _, hn, h, _, hmap, ⟨hu, _⟩, _⟩ :=
    gotten_run (L := sampleLayout) (by decide) (by decide)
  have hl : Live k 1 := h.live (by decide) (by decide)
  obtain ⟨k', _, hm, _⟩ := h.shmAttach (p := 1) (i := 0) hl (show 0 < shmMax by decide) hu
    (by decide) (hmap 1 0 (by decide) (by decide)) (fun j hj => absurd hj (Nat.not_lt_zero j))
    (by have : driverPages.length + 2 * regionsNeeded sampleLayout 0 + 3 < maxRegions := by decide
        omega) (by decide)
  have hslot : slotAddr 0 = shmUserBase := by decide
  have hnone : translate k 1 (slotAddr 0) = none :=
    h.inv.walk_unused hl (show 0 < procShmMax by decide) (hmap 1 0 (by decide) (by decide))
  rw [hslot] at hm hnone
  obtain ⟨pa, hpa⟩ : ∃ pa, (k.shmTable 0).pa = pa := ⟨_, rfl⟩
  have hlt := h.inv.own.pa_lt (show 0 < shmMax by decide) hu
  rw [hpa] at hm hlt
  have hva : shmUserBase < 2 ^ 32 := by decide
  obtain ⟨he, _, _, ht'⟩ := (page_table_update h.inv.pageTables hl hva).1 pa windowFlags k' hlt
    (by decide) (by decide) (by decide) (mapPage_ok hm).2.1 hm
  have hl' : Live k' 1 := by
    refine ⟨hl.1, ?_⟩
    rw [(grow_mapPage hm).keep.state]
    exact hl.2
  obtain ⟨k'', hun⟩ := unmapPage_of_aligned (k := k') (p := 1) (show shmUserBase % pageSize = 0 by decide)
  obtain ⟨hnone', _⟩ := (page_table_update ht' hl' hva).2 k'' (by decide) hun
  exact ⟨k, pa, k', k'', h.inv.pageTables, hl, hnone, hm, he, hun, hnone'⟩

end

end Os1000.Proof
