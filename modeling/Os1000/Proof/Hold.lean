import Mathlib.Data.List.Perm.Subperm
import Os1000.Proof.Pages

/-!
# What one process holds

Page tables are about one process at a time: it is enough that the regions recorded for
it are one-page blocks, each once, of a table that is in order. `Hold` says so, and says
that `current_idx` names a word of the process's own slot, within `regions` or past its
end, so that recording another region is seen in no page. Who holds the other blocks, and
whether the record is still readable, does not matter here.
-/

namespace Os1000.Proof

open Os1000 Lib

/-- The regions of process `p` are pages, and the next one is recorded in its slot. -/
structure Hold (L : Layout) (k : Kernel) (p : Nat) : Prop where
  part : Partition L k.regions
  pages : ∀ r, r ∈ (k.procs p).appended →
    r < maxRegions ∧ (k.regions r).state = .allocated ∧ (k.regions r).size = pageSize
  nodup : (k.procs p).appended.Nodup
  /-- Past the end of `regions` it has been overwritten with a region index once. -/
  index : (k.procs p).currentIdx ≤ maxRegions + (k.procs p).appended.length

section

variable {L : Layout} {X : Nat → Prop} {k k' : Kernel} {p : Nat}

/-- A page that is held is a page: aligned, of page size, below 2^32. -/
theorem Hold.page (h : Hold L k p) {r : Nat} (hr : r ∈ (k.procs p).appended) :
    r < maxRegions ∧ (k.regions r).state = .allocated ∧ (k.regions r).size = 4096
      ∧ (k.regions r).start % 4096 = 0 ∧ (k.regions r).start + 4096 < 2 ^ 32 := by
  obtain ⟨h1, h2, h3⟩ := h.pages r hr
  have huse : InUse k.regions r := ⟨h1, by rw [h2]; decide⟩
  have h4 := (h.part.aligned r huse).1
  have h5 := h.part.stop_lt huse
  rw [h3] at h5
  exact ⟨h1, h2, h3, h4, h5⟩

/-- The table has no more entries than it has. -/
theorem Hold.length_le (h : Hold L k p) : (k.procs p).appended.length ≤ maxRegions := by
  have hsub : (k.procs p).appended.Subperm (List.range maxRegions) :=
    h.nodup.subperm fun r hr => List.mem_range.mpr (h.pages r hr).1
  have := hsub.length_le
  rwa [List.length_range] at this

/-- The pages of two regions of one process do not overlap. -/
theorem Hold.apart (h : Hold L k p) {r s : Nat} (hr : r ∈ (k.procs p).appended)
    (hs : s ∈ (k.procs p).appended) (hne : r ≠ s) :
    Apart (k.regions r).start (k.regions s).start := by
  obtain ⟨h1, h2, h3, _, _⟩ := h.page hr
  obtain ⟨g1, g2, g3, _, _⟩ := h.page hs
  have := Partition.disjoint h.part h1 g1 hne h2 g2
  unfold Apart
  omega

theorem Hold.setMem (h : Hold L k p) (m : Mem) : Hold L { k with mem := m } p :=
  ⟨h.part, h.pages, h.nodup, h.index⟩

theorem Hold.setProc (h : Hold L k p) {f : Process → Process}
    (happ : (f (k.procs p)).appended = (k.procs p).appended)
    (hidx : (f (k.procs p)).currentIdx = (k.procs p).currentIdx) : Hold L (k.setProc p f) p := by
  refine ⟨h.part, ?_, ?_, ?_⟩
  · rw [setProc_self, happ]; exact h.pages
  · rw [setProc_self, happ]; exact h.nodup
  · rw [setProc_self, happ, hidx]; exact h.index

/-- Another process has been worked on, and the entries of this one are as they were. -/
theorem Hold.other (h : Hold L k p) (hpart : Partition L k'.regions)
    (hproc : k'.procs p = k.procs p)
    (hreg : ∀ r, r ∈ (k.procs p).appended → k'.regions r = k.regions r) : Hold L k' p := by
  refine ⟨hpart, ?_, by rw [hproc]; exact h.nodup, by rw [hproc]; exact h.index⟩
  rw [hproc]
  intro r hr
  rw [hreg r hr]
  exact h.pages r hr

/-- A process that has just been reset holds nothing. -/
theorem hold_nil (hpart : Partition L k.regions) (happ : (k.procs p).appended = [])
    (hidx : (k.procs p).currentIdx = 0) : Hold L k p := by
  refine ⟨hpart, ?_, ?_, ?_⟩
  · rw [happ]; exact fun _ hr => absurd hr List.not_mem_nil
  · rw [happ]; exact List.nodup_nil
  · rw [hidx]; exact Nat.zero_le _

theorem Own.hold (ho : Own L X k) (hp : p < procsMax) : Hold L k p := by
  refine ⟨ho.part, fun r hr => ?_, ho.nodup p hp, ?_⟩
  · obtain ⟨h1, h2⟩ := ho.of_holds (o := .proc p) ⟨hp, hr⟩
    exact ⟨h1, h2, ho.size_eq hp hr⟩
  · have hrec := ho.recorded p hp
    by_cases hlen : (k.procs p).appended.length ≤ procRegionMax
    · rw [hrec.idx hlen]
      exact Nat.le_add_left _ _
    · -- the last index was written over `current_idx`
      have hlt : procRegionMax < (k.procs p).appended.length := by omega
      have hget := List.getElem?_eq_getElem hlt
      rw [hrec.overrun _ hget]
      have := (ho.of_holds (o := .proc p) ⟨hp, List.getElem_mem hlt⟩).1
      omega

/-! ## Recording one more page -/

section Record

variable {pa idx : Nat} {r : Ram}

theorem required_one : u32 (1 * pageSize) = 4096 := by decide

theorem Hold.index_lt (h : Hold L k p) : (k.procs p).currentIdx < stackWord + 2048 := by
  have h1 := h.length_le
  have h2 := h.index
  have h3 : maxRegions = 128 := rfl
  omega

/-- Nothing that was in use is the new region. -/
theorem alloc_ne {i : Nat} (ha : allocPages k.toRam 1 = .ok (pa, idx, r))
    (hst : (k.regions i).state = .allocated) : i ≠ idx := by
  rintro rfl
  rw [(allocPages_spec ha).wasUnused] at hst
  cases hst

/-- **A page is allocated and recorded.** -/
theorem Hold.record (h : Hold L k p) (ha : allocPages k.toRam 1 = .ok (pa, idx, r)) :
    Hold L (recordRegion L { k with toRam := r } p idx) p := by
  have hs := allocPages_spec ha
  have hreg := recordRegion_table L { k with toRam := r } p idx
  have happ := recordRegion_appended L { k with toRam := r } p idx
  refine ⟨?_, ?_, ?_, ?_⟩
  · rw [hreg]
    exact partition_alloc h.part (by decide) (allocPages_ok.mp ha).1
  · rw [hreg, happ]
    intro i hi
    rcases List.mem_append.mp hi with hi | hi
    · obtain ⟨h1, h2, h3⟩ := h.pages i hi
      dsimp only
      rw [hs.keeps i h2]
      exact ⟨h1, h2, h3⟩
    · rw [List.mem_singleton.mp hi]
      dsimp only
      rw [hs.entry]
      exact ⟨hs.lt, rfl, required_one⟩
  · rw [happ]
    refine List.nodup_append.mpr ⟨h.nodup, List.nodup_singleton _, ?_⟩
    intro a ha' b hb
    rw [List.mem_singleton.mp hb]
    exact alloc_ne ha (h.pages a ha').2.1
  · rw [happ, List.length_append, List.length_singleton, recordRegion_currentIdx]
    have hlt := hs.lt
    split
    · omega
    · have hidx := h.index
      have hle := h.length_le
      dsimp only
      rw [u32_of_lt (by unfold maxRegions at hidx hle; omega)]
      omega

/-- Its bytes are zero. -/
theorem Hold.record_zero (h : Hold L k p) (hp : p < procsMax)
    (ha : allocPages k.toRam 1 = .ok (pa, idx, r)) {x : Nat} (h1 : pa ≤ x) (h2 : x < pa + 4096) :
    (recordRegion L { k with toRam := r } p idx).mem x = 0 := by
  have hs := allocPages_spec ha
  have hpart := partition_alloc h.part (by decide) (allocPages_ok.mp ha).1
  have hge := hpart.ge_freeRam (i := idx) ⟨hs.lt, by rw [hs.entry]; simp⟩
  rw [hs.entry] at hge
  dsimp only at hge
  have htop := stackTop_le L hp
  have hm : (recordRegion L { k with toRam := r } p idx).mem x = r.mem x :=
    recordRegion_mem (L := L) (k := { k with toRam := r }) h.index_lt x (by omega)
  rw [hm, hs.mem, required_one, fill_apply, if_pos ⟨h1, h2⟩]

/-- No page that was in use is touched. -/
theorem Hold.record_samePage (h : Hold L k p) (hp : p < procsMax)
    (ha : allocPages k.toRam 1 = .ok (pa, idx, r)) {i : Nat} (hi : i < maxRegions)
    (hst : (k.regions i).state = .allocated) :
    SamePage k (recordRegion L { k with toRam := r } p idx) i := by
  have h1 := alloc_samePage h.part (by decide) ha hi hst
  refine h1.trans (stack_samePage (L := L) hp ?_ (recordRegion_table L _ p idx) ?_ hi ?_)
  · exact partition_alloc h.part (by decide) (allocPages_ok.mp ha).1
  · exact recordRegion_mem h.index_lt
  · rw [h1.1]; exact hst

end Record

end

end Os1000.Proof
