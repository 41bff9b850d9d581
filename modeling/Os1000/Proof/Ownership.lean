import Os1000.Proof.Table
import Os1000.Lib.Slots

/-!
# Every region has one owner

Three kinds of owner keep region indices: the drivers, the processes (in
`appended`, of which `regions` is the copy the C code works with) and the shared
memory objects. The ledger of who holds what is in order in every state the kernel
reaches: no index is held twice, and every index held is an allocated entry. Since
`release_pages` only fails on an entry that is not allocated, nothing the kernel
gives back is ever refused.

The converse, that every allocated entry has an owner, is relative to a set `X` of
entries that have been written off. Nothing ever enters that set except when a
process exits, and then only what `release_process` overlooks.

The whole argument is about the allocator's table. What the page tables contain
does not matter for it, and neither do the reference counts.
-/

namespace Os1000.Proof

open Os1000 Lib

/-- Who may hold a region index. -/
inductive Owner where
  | driver
  | proc (p : Nat)
  | shm (s : Nat)
  deriving DecidableEq

/-- Owner `o` holds region index `r`. -/
def Holds (k : Kernel) : Owner → Nat → Prop
  | .driver, r => r ∈ k.driverRegions
  | .proc p, r => p < procsMax ∧ r ∈ (k.procs p).appended
  | .shm s, r => s < shmMax ∧ (k.shmTable s).used = true ∧ (k.shmTable s).regionIdx = r

theorem holds_driver {k : Kernel} {r : Nat} : Holds k .driver r ↔ r ∈ k.driverRegions := Iff.rfl

theorem holds_proc {k : Kernel} {p r : Nat} :
    Holds k (.proc p) r ↔ p < procsMax ∧ r ∈ (k.procs p).appended := Iff.rfl

theorem holds_shm {k : Kernel} {s r : Nat} : Holds k (.shm s) r ↔
    s < shmMax ∧ (k.shmTable s).used = true ∧ (k.shmTable s).regionIdx = r := Iff.rfl

/-- Index `r` is an allocated entry, and a single page unless a driver has it. -/
def Good (t : Regions) (o : Owner) (r : Nat) : Prop :=
  r < maxRegions ∧ (t r).state = .allocated ∧ (o ≠ .driver → (t r).size = pageSize)

/-- The ownership invariant, with the entries in `X` written off. -/
structure Own (L : Layout) (X : Nat → Prop) (k : Kernel) : Prop where
  /-- The table partitions free RAM. -/
  part : Partition L k.regions
  /-- No index is held twice, and all are allocated. -/
  ledger : Ledger (Holds k) (Good k.regions)
  /-- What is allocated is held or written off. -/
  covered : ∀ r, r < maxRegions → (k.regions r).state = .allocated → X r ∨ ∃ o, Holds k o r
  /-- A process holds no index twice. -/
  nodup : ∀ p, p < procsMax → (k.procs p).appended.Nodup
  /-- The drivers hold no index twice. -/
  driverNodup : k.driverRegions.Nodup
  /-- What the C code recorded is what was appended. -/
  recorded : ∀ p, p < procsMax → Recorded (k.procs p)
  /-- An object's page is the one its region describes. -/
  shmPa : ∀ s, s < shmMax → (k.shmTable s).used = true →
    (k.shmTable s).pa = (k.regions (k.shmTable s).regionIdx).start
  /-- A mapping in use lies at its slot's place in the window. -/
  window : ∀ p, p < procsMax → ∀ i, i < procShmMax → ((k.procs p).shmMappings i).used ≠ 0 →
    ((k.procs p).shmMappings i).vaddr = slotAddr i

section

variable {L : Layout} {X X' : Nat → Prop} {k k' : Kernel} {p : Nat}

theorem Own.of_holds (h : Own L X k) {o : Owner} {r : Nat} (hr : Holds k o r) :
    r < maxRegions ∧ (k.regions r).state = .allocated :=
  ⟨(h.ledger.valid hr).1, (h.ledger.valid hr).2.1⟩

/-- A process's page is one page. -/
theorem Own.size_eq (h : Own L X k) {r : Nat} (hp : p < procsMax)
    (hr : r ∈ (k.procs p).appended) : (k.regions r).size = pageSize :=
  (h.ledger.valid (o := .proc p) ⟨hp, hr⟩).2.2 (by simp)

/-- Recording more than is written off is no obstacle. -/
theorem Own.mono (h : Own L X k) (hX : ∀ r, X r → X' r) : Own L X' k :=
  { h with covered := fun r hr ha => (h.covered r hr ha).imp_left (hX r) }

/-! ## Changes that acquire and release nothing -/

/-- Nobody's holdings have changed. -/
theorem Own.same (h : Own L X k) (hr : k'.regions = k.regions)
    (hp : ∀ p, p < procsMax → (k'.procs p).appended = (k.procs p).appended)
    (hrec : ∀ p, p < procsMax → Recorded (k'.procs p))
    (hd : k'.driverRegions = k.driverRegions)
    (hs : ∀ s, s < shmMax → (k'.shmTable s).used = (k.shmTable s).used
      ∧ (k'.shmTable s).regionIdx = (k.shmTable s).regionIdx
      ∧ (k'.shmTable s).pa = (k.shmTable s).pa)
    (hw : ∀ p, p < procsMax → ∀ i, i < procShmMax → ((k'.procs p).shmMappings i).used ≠ 0 →
      ((k'.procs p).shmMappings i).vaddr = slotAddr i) : Own L X k' := by
  have hH : ∀ o r, Holds k' o r ↔ Holds k o r := by
    intro o r
    cases o with
    | driver => rw [holds_driver, holds_driver, hd]
    | proc p =>
        refine and_congr_right fun hlt => ?_
        rw [hp p hlt]
    | shm s =>
        refine and_congr_right fun hlt => ?_
        obtain ⟨g1, g2, _⟩ := hs s hlt
        rw [g1, g2]
  refine ⟨hr ▸ h.part, ?_, ?_, ?_, hd ▸ h.driverNodup, hrec, ?_, hw⟩
  · rw [hr]
    exact h.ledger.shrink (fun o r hh => (hH o r).mp hh) (fun _ _ _ hg => hg)
  · intro r hlt ha
    rw [hr] at ha
    exact (h.covered r hlt ha).imp_right fun ⟨o, ho⟩ => ⟨o, (hH o r).mpr ho⟩
  · intro p hlt
    rw [hp p hlt]; exact h.nodup p hlt
  · intro s hlt hu
    obtain ⟨g1, g2, g3⟩ := hs s hlt
    rw [hr, g2, g3]
    exact h.shmPa s hlt (g1 ▸ hu)

/-- Memory contents do not matter. -/
theorem Own.setMem (h : Own L X k) (m : Mem) : Own L X { k with mem := m } :=
  h.same rfl (fun _ _ => rfl) h.recorded rfl (fun _ _ => ⟨rfl, rfl, rfl⟩) h.window

/-- Neither do a process's other fields. -/
theorem Own.setProc (h : Own L X k) (p : Nat) {f : Process → Process}
    (ha : (f (k.procs p)).appended = (k.procs p).appended)
    (hreg : (f (k.procs p)).regions = (k.procs p).regions)
    (hidx : (f (k.procs p)).currentIdx = (k.procs p).currentIdx)
    (hm : ∀ i, i < procShmMax → ((f (k.procs p)).shmMappings i).used ≠ 0 →
      ((f (k.procs p)).shmMappings i).vaddr = slotAddr i) :
    Own L X (k.setProc p f) := by
  refine h.same rfl ?_ ?_ rfl (fun _ _ => ⟨rfl, rfl, rfl⟩) ?_
  · intro q _
    by_cases hq : q = p
    · subst hq; rw [setProc_self]; exact ha
    · rw [setProc_of_ne _ _ _ hq]
  · intro q hlt
    by_cases hq : q = p
    · subst hq
      rw [setProc_self]
      obtain ⟨r1, r2, r3, r4⟩ := h.recorded q hlt
      exact ⟨by rw [ha]; exact r1, by rw [ha, hreg]; exact r2, by rw [ha, hidx]; exact r3,
        by rw [ha, hidx]; exact r4⟩
    · rw [setProc_of_ne _ _ _ hq]; exact h.recorded q hlt
  · intro q hlt
    by_cases hq : q = p
    · subst hq; rw [setProc_self]; exact hm
    · rw [setProc_of_ne _ _ _ hq]; exact h.window q hlt

theorem Own.setMapping (h : Own L X k) (p : Nat) {i : Nat} {m : ShmMapping} (hp : p < procsMax)
    (hm : m.used ≠ 0 → m.vaddr = slotAddr i) : Own L X (k.setMapping p i m) := by
  refine h.setProc p rfl rfl rfl ?_
  intro j hj hu
  dsimp only at hu ⊢
  by_cases hji : j = i
  · subst hji
    rw [Function.update_self] at hu ⊢
    exact hm hu
  · rw [Function.update_of_ne hji] at hu ⊢
    exact h.window p hp j hj hu

theorem Own.setRefcount (h : Own L X k) (s : Nat) (n : Int) :
    Own L X (k.setObj s { k.shmTable s with refcount := n }) := by
  refine h.same rfl (fun _ _ => rfl) h.recorded rfl ?_ h.window
  intro s' _
  by_cases hs : s' = s
  · subst hs; rw [setObj_self]; exact ⟨rfl, rfl, rfl⟩
  · rw [setObj_of_ne _ _ _ hs]; exact ⟨rfl, rfl, rfl⟩

/-! ## Giving up -/

/--
Owner `o` gives up all it holds, `is`, and the allocator has these entries back. The
process or the object behind `o` is only known by what is left of it.
-/
theorem Own.giveBack (h : Own L X k) {o : Owner} {is : List Nat}
    (hrel : Released L k.toRam is k'.toRam)
    (hmine : ∀ i, i ∈ is → Holds k o i)
    (hlost : ∀ i, Holds k o i → i ∉ is → X' i) (hX : ∀ i, X i → X' i)
    (hgone : ∀ i, ¬ Holds k' o i) (hH : ∀ o' i, o' ≠ o → (Holds k' o' i ↔ Holds k o' i))
    (hnd : ∀ p, p < procsMax → (k'.procs p).appended.Nodup)
    (hdn : k'.driverRegions = k.driverRegions)
    (hrec : ∀ p, p < procsMax → Recorded (k'.procs p))
    (hs : ∀ s, s < shmMax → (k'.shmTable s).used = true → k'.shmTable s = k.shmTable s)
    (hw : ∀ p, p < procsMax → ∀ i, i < procShmMax → ((k'.procs p).shmMappings i).used ≠ 0 →
      ((k'.procs p).shmMappings i).vaddr = slotAddr i) : Own L X' k' := by
  have hheld : ∀ o' i, Holds k' o' i → Holds k o' i ∧ i ∉ is := by
    intro o' i hh
    have hne : o' ≠ o := fun e => hgone i (e ▸ hh)
    have hk := (hH o' i hne).mp hh
    exact ⟨hk, fun hi => hne (h.ledger.excl hk (hmine i hi))⟩
  have hentry : ∀ o' i, Holds k' o' i → k'.regions i = k.regions i := by
    intro o' i hh
    obtain ⟨hk, hi⟩ := hheld o' i hh
    exact hrel.keep i hi (h.of_holds hk).2
  refine ⟨hrel.part, ?_, ?_, hnd, hdn ▸ h.driverNodup, hrec, ?_, hw⟩
  · refine h.ledger.shrink (fun o' i hh => (hheld o' i hh).1) ?_
    intro o' i hh hg
    unfold Good
    rw [hentry o' i hh]
    exact hg
  · intro i hi ha
    obtain ⟨hk, hni⟩ := hrel.back i ha
    rcases h.covered i hi hk with hx | ⟨o', ho'⟩
    · exact Or.inl (hX i hx)
    · by_cases hoo : o' = o
      · exact Or.inl (hlost i (hoo ▸ ho') hni)
      · exact Or.inr ⟨o', (hH o' i hoo).mpr ho'⟩
  · intro s hlt hu
    have he := hs s hlt hu
    rw [hentry (.shm s) _ ⟨hlt, hu, rfl⟩, he]
    exact h.shmPa s hlt (he ▸ hu)

/-! ## Acquiring -/

/-- Allocating hands out an index that nobody holds. -/
theorem Own.alloc_fresh (h : Own L X k) {numPages paddr idx : Nat} {r : Ram}
    (ha : allocPages k.toRam numPages = .ok (paddr, idx, r)) (o : Owner) : ¬ Holds k o idx := by
  intro hh
  have h1 := (h.of_holds hh).2
  rw [(allocPages_spec ha).wasUnused] at h1
  cases h1

/-- Owner `o` has acquired the region just allocated. -/
theorem Own.acquire (h : Own L X k) {numPages paddr idx : Nat} {r : Ram} {o : Owner}
    (ha : allocPages k.toRam numPages = .ok (paddr, idx, r))
    (hreq : u32 (numPages * pageSize) ≠ 0) (hone : o ≠ .driver → numPages = 1)
    (hr : k'.regions = r.regions)
    (hH : ∀ o' i, Holds k' o' i ↔ Holds k o' i ∨ (o' = o ∧ i = idx))
    (hnd : ∀ p, p < procsMax → (k'.procs p).appended.Nodup) (hdn : k'.driverRegions.Nodup)
    (hrec : ∀ p, p < procsMax → Recorded (k'.procs p))
    (hs : ∀ s, s < shmMax → (k'.shmTable s).used = true → k'.shmTable s = k.shmTable s
      ∨ ((k'.shmTable s).regionIdx = idx ∧ (k'.shmTable s).pa = paddr))
    (hw : ∀ p, p < procsMax → ∀ i, i < procShmMax → ((k'.procs p).shmMappings i).used ≠ 0 →
      ((k'.procs p).shmMappings i).vaddr = slotAddr i) : Own L X k' := by
  have hspec := allocPages_spec ha
  refine ⟨hr ▸ partition_alloc h.part hreq (allocPages_ok.mp ha).1, ?_, ?_, hnd, hdn, hrec, ?_, hw⟩
  · rw [hr]
    refine h.ledger.acquire (o := o) (n := idx) ?_ (fun o' i hh => (hH o' i).mp hh) ?_ ?_
    · rintro o' ⟨_, hst, _⟩
      rw [hspec.wasUnused] at hst
      cases hst
    · rintro o' i ⟨h1, h2, h3⟩
      have e := hspec.keeps i h2
      exact ⟨h1, e ▸ h2, fun ho => e ▸ h3 ho⟩
    · refine ⟨hspec.lt, by rw [hspec.entry], fun ho => ?_⟩
      rw [hspec.entry, hone ho]
      exact show u32 (1 * pageSize) = pageSize by decide
  · intro i hi hst
    rw [hr] at hst
    rcases hspec.only i hst with rfl | e
    · exact Or.inr ⟨o, (hH o i).mpr (Or.inr ⟨rfl, rfl⟩)⟩
    · refine (h.covered i hi (e ▸ hst)).imp_right ?_
      rintro ⟨o', ho'⟩
      exact ⟨o', (hH o' i).mpr (Or.inl ho')⟩
  · intro s hlt hu
    rw [hr]
    rcases hs s hlt hu with e | ⟨e1, e2⟩
    · rw [e] at hu ⊢
      rw [hspec.keeps _ (h.of_holds (o := .shm s) ⟨hlt, hu, rfl⟩).2]
      exact h.shmPa s hlt hu
    · rw [e1, e2, hspec.entry]

/-- While the record has room, recording is `Process.record`. -/
theorem Own.recordRegion_eq (h : Own L X k) (hp : p < procsMax)
    (hlen : (k.procs p).appended.length ≤ procRegionMax) (r : Ram) (idx : Nat) :
    recordRegion L { k with toRam := r } p idx
      = ({ k with toRam := r } : Kernel).setProc p fun q => Process.record q idx := by
  refine Proof.recordRegion_eq L idx ?_
  show (k.procs p).currentIdx ≤ procRegionMax
  rw [(h.recorded p hp).idx hlen]
  exact hlen

/-- Allocating one page and recording it in process `p`. -/
theorem Own.record (h : Own L X k) {paddr idx : Nat} {r : Ram} (hp : p < procsMax)
    (hlen : (k.procs p).appended.length ≤ procRegionMax)
    (ha : allocPages k.toRam 1 = .ok (paddr, idx, r)) :
    Own L X (recordRegion L { k with toRam := r } p idx) := by
  rw [h.recordRegion_eq hp hlen]
  have hfresh := h.alloc_fresh ha
  have hself : ((({ k with toRam := r } : Kernel).setProc p fun q => Process.record q idx).procs p)
      = Process.record (k.procs p) idx := setProc_self ..
  have hother : ∀ q, q ≠ p →
      (({ k with toRam := r } : Kernel).setProc p fun q => Process.record q idx).procs q
        = k.procs q := fun q hq => setProc_of_ne _ _ _ hq
  refine h.acquire (o := .proc p) ha (by decide) (fun _ => rfl) rfl ?_ ?_ h.driverNodup ?_
    (fun _ _ _ => Or.inl rfl) ?_
  · intro o i
    cases o with
    | driver => exact ⟨Or.inl, fun hh => hh.elim id fun e => absurd e.1 (by simp)⟩
    | shm s => exact ⟨Or.inl, fun hh => hh.elim id fun e => absurd e.1 (by simp)⟩
    | proc q =>
        rw [holds_proc, holds_proc]
        by_cases hq : q = p
        · subst hq
          rw [hself, record_appended, List.mem_append, List.mem_singleton]
          simp [hp]
        · rw [hother q hq]
          simp [hq]
  · intro q hlt
    by_cases hq : q = p
    · subst hq
      rw [hself, record_appended]
      refine List.nodup_append.mpr ⟨h.nodup q hlt, by simp, ?_⟩
      intro a ha' b hb
      rw [List.mem_singleton] at hb
      subst hb
      rintro rfl
      exact hfresh (.proc q) ⟨hlt, ha'⟩
    · rw [hother q hq]; exact h.nodup q hlt
  · intro q hlt
    by_cases hq : q = p
    · subst hq
      rw [hself]
      exact recorded_record (h.recorded q hlt) hlen
    · rw [hother q hq]; exact h.recorded q hlt
  · intro q hlt i hi
    by_cases hq : q = p
    · subst hq
      rw [hself, record_shmMappings]
      exact h.window q hlt i hi
    · rw [hother q hq]; exact h.window q hlt i hi

/-- Creating a shared memory object in a free slot. -/
theorem Own.created (h : Own L X k) {s pa idx : Nat} {key : Int} {r : Ram} (hs : s < shmMax)
    (hu : (k.shmTable s).used = false) (ha : allocPages k.toRam 1 = .ok (pa, idx, r)) :
    Own L X (created k s key pa idx r) := by
  have hself : (Proof.created k s key pa idx r).shmTable s = newObject k key pa idx :=
    Function.update_self ..
  have hother : ∀ s', s' ≠ s → (Proof.created k s key pa idx r).shmTable s' = k.shmTable s' :=
    fun s' hs' => Function.update_of_ne hs' ..
  refine h.acquire (o := .shm s) ha (by decide) (fun _ => rfl) rfl ?_ h.nodup h.driverNodup
    h.recorded ?_ h.window
  · intro o i
    cases o with
    | driver => exact ⟨Or.inl, fun hh => hh.elim id fun e => absurd e.1 (by simp)⟩
    | proc q => exact ⟨Or.inl, fun hh => hh.elim id fun e => absurd e.1 (by simp)⟩
    | shm s' =>
        rw [holds_shm, holds_shm]
        by_cases hq : s' = s
        · subst hq
          rw [hself, hu]
          simp [newObject, hs, eq_comm]
        · rw [hother s' hq]
          simp [hq]
  · intro s' _ _
    by_cases hq : s' = s
    · subst hq
      rw [hself]
      exact Or.inr ⟨rfl, rfl⟩
    · exact Or.inl (hother s' hq)

/-- A driver's allocation at boot. -/
theorem Own.driven (h : Own L X k) {n pa idx : Nat} {r : Ram}
    (hreq : u32 (n * pageSize) ≠ 0) (ha : allocPages k.toRam n = .ok (pa, idx, r)) :
    Own L X (driven k idx r) := by
  have hfresh := h.alloc_fresh ha
  refine h.acquire (o := .driver) ha hreq (fun hne => absurd rfl hne) rfl ?_ h.nodup ?_
    h.recorded (fun _ _ _ => Or.inl rfl) h.window
  · intro o i
    cases o with
    | driver =>
        show i ∈ k.driverRegions ++ [idx] ↔ i ∈ k.driverRegions ∨ _
        rw [List.mem_append, List.mem_singleton]
        simp
    | shm s => exact ⟨Or.inl, fun hh => hh.elim id fun e => absurd e.1 (by simp)⟩
    | proc q => exact ⟨Or.inl, fun hh => hh.elim id fun e => absurd e.1 (by simp)⟩
  · show (k.driverRegions ++ [idx]).Nodup
    refine List.nodup_append.mpr ⟨h.driverNodup, by simp, ?_⟩
    intro a ha' b hb
    rw [List.mem_singleton] at hb
    subst hb
    rintro rfl
    exact hfresh .driver ha'

end

end Os1000.Proof
