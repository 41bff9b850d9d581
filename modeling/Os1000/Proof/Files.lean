import Os1000.Lib.Slots
import Os1000.Proof.Boot

/-!
# The file system calls over whole runs

A run starts with the files `fs_init` has loaded and takes system calls one after the
other. Two things go wrong in the code. The archive of two files of more than 512
bytes each does not fit `disk[]`, which `fs_flush` does not check; and the length a
caller asks for is compared with the size of the buffer, not with the size of the
file, and not with zero.

Where a run stays clear of both, the files are a store: a name that exists keeps
existing, and what is read under it is what was last written under it.
-/

namespace Os1000.Proof

open Os1000 Lib

/-! ## Names and contents -/

/-- The name of a file. -/
def fileName (f : File) : List UInt8 := text f.name 0 fileNameSize

/-- The name a call asks for, as far as a file name can be long. -/
def callName (c : FileCall) : List UInt8 := text c.user c.filename fileNameSize

/-- What is in a file. -/
def contents (f : File) : List UInt8 := (List.range f.size).map f.data

/-- The bytes a call passes. -/
def passed (c : FileCall) : List UInt8 :=
  (List.range c.len.toNat).map fun j => c.user (c.buf + j)

/-- Entry `i` is the first with this name. -/
def Denotes (files : Nat → File) (name : List UInt8) (i : Nat) : Prop :=
  i < filesMax ∧ fileName (files i) = name ∧ ∀ j, j < i → fileName (files j) ≠ name

/-- A file with this name exists. -/
def FileExists (files : Nat → File) (name : List UInt8) : Prop :=
  ∃ i, i < filesMax ∧ (files i).inUse ∧ fileName (files i) = name

/-- The table after a write to entry `i`. -/
def written (files : Nat → File) (c : FileCall) (i : Nat) : Nat → File :=
  Function.update files i { files i with
    data := blit (files i).data 0 c.user c.buf c.len.toNat
    size := c.len.toNat }

section

variable {fs fs' : Fs} {files : Nat → File} {c : FileCall} {i : Nat}

theorem InOrder.ends (hg : InOrder files) (hi : i < filesMax) :
    ∃ k, k < fileNameSize ∧ Ends (files i).name 0 k := by
  by_cases hu : (files i).inUse
  · obtain ⟨k, _, hk, hend⟩ := (hg.table.storable i hi hu).name
    exact ⟨k, hk, hend⟩
  · exact ⟨0, by decide, ⟨by omega, hg.nameless i hi hu⟩⟩

/-- A file in use has a name, and only a file in use has. -/
theorem InOrder.inUse_iff (hg : InOrder files) (hi : i < filesMax) :
    (files i).inUse ↔ fileName (files i) ≠ [] := by
  constructor
  · intro hu
    obtain ⟨k, hpos, _, hend⟩ := (hg.table.storable i hi hu).name
    have h0 : (files i).name 0 ≠ 0 := hend.nonzero 0 hpos
    unfold fileName
    rw [show fileNameSize = 99 + 1 from rfl, text_cons h0]
    exact List.cons_ne_nil _ _
  · intro hne
    by_contra hu
    exact hne (text_nil (hg.nameless i hi hu))

/-! ## `fs_lookup` -/

theorem fsLookupFrom_spec (hg : InOrder fs.files) (user : Mem) (filename : Nat) :
    ∀ (n i : Nat), i + n = filesMax →
      (∀ j, j < i → fileName (fs.files j) ≠ text user filename fileNameSize) →
      (∃ i', Denotes fs.files (text user filename fileNameSize) i'
        ∧ fsLookupFrom fs user filename i n = .ok (some i'))
      ∨ ((∀ j, j < filesMax → fileName (fs.files j) ≠ text user filename fileNameSize)
        ∧ fsLookupFrom fs user filename i n = .ok none)
  | 0, i, hn, hno => Or.inr ⟨fun j hj => hno j (by omega), rfl⟩
  | n + 1, i, hn, hno => by
      obtain ⟨k, hk, hend⟩ := hg.ends (i := i) (by omega)
      obtain ⟨r, hr, hiff⟩ := strcmp_ok (fs.files i).name 0 fileNameSize user filename
        (filename + fileNameSize) (Or.inl hend) (by omega) (by omega)
      have hsame : r = 0 ↔ fileName (fs.files i) = text user filename fileNameSize :=
        hiff.trans (hend.text_eq_iff hk)
      rw [fsLookupFrom, hr, ok_bind]
      by_cases hr0 : r = 0
      · rw [if_pos hr0]
        exact Or.inl ⟨i, ⟨by omega, hsame.mp hr0, hno⟩, rfl⟩
      · rw [if_neg hr0]
        refine fsLookupFrom_spec hg user filename n (i + 1) (by omega) fun j hj => ?_
        by_cases hji : j = i
        · rw [hji]
          exact fun he => hr0 (hsame.mpr he)
        · exact hno j (by omega)

/-- **`fs_lookup` finds the first entry with the name.** -/
theorem fsLookup_spec (hg : InOrder fs.files) (c : FileCall) :
    (∃ i, Denotes fs.files (callName c) i ∧ fsLookup fs c.user c.filename = .ok (some i))
      ∨ ((∀ j, j < filesMax → fileName (fs.files j) ≠ callName c)
        ∧ fsLookup fs c.user c.filename = .ok none) :=
  fsLookupFrom_spec hg c.user c.filename filesMax 0 (by omega) (by omega)

theorem Denotes.unique {name : List UInt8} {i' : Nat} (h : Denotes files name i)
    (h' : Denotes files name i') : i = i' := by
  rcases Nat.lt_trichotomy i i' with hlt | heq | hgt
  · exact absurd h.2.1 (h'.2.2 i hlt)
  · exact heq
  · exact absurd h'.2.1 (h.2.2 i' hgt)

/-! ## The calls -/

theorem fileCallWith_missing {α : Type} {flush : Fs → Except Stop α} {keep : Fs → α}
    (hl : fsLookup fs c.user c.filename = .ok none) :
    fileCallWith flush keep fs c = .ok (keep fs, ⟨-1, c.user⟩) := by
  unfold fileCallWith
  rw [hl, ok_bind]
  rfl

theorem handle_missing (hl : fsLookup fs c.user c.filename = .ok none) :
    handleFileCall fs c = .ok (fs, ⟨-1, c.user⟩) := fileCallWith_missing hl

/-- A call that returned has flushed, or left everything as it was. -/
theorem fileCallWith_cases {α : Type} {flush : Fs → Except Stop α} {keep : Fs → α} {left : α}
    {r : FileReturn} (h : fileCallWith flush keep fs c = .ok (left, r)) :
    left = keep fs ∨ c.write = true ∧ ∃ files, flush { fs with files } = .ok left := by
  unfold fileCallWith at h
  obtain ⟨o, _, h⟩ := bind_eq_ok.mp h
  cases o with
  | none =>
      rw [pure_eq_ok, Prod.mk.injEq] at h
      exact Or.inl h.1.symm
  | some i =>
      dsimp only at h
      cases hw : c.write with
      | false =>
          rw [hw, if_neg Bool.false_ne_true] at h
          obtain ⟨user, _, h⟩ := bind_eq_ok.mp h
          rw [pure_eq_ok, Prod.mk.injEq] at h
          exact Or.inl h.1.symm
      | true =>
          rw [hw, if_pos rfl] at h
          obtain ⟨data, _, h⟩ := bind_eq_ok.mp h
          obtain ⟨x, hf, h⟩ := bind_eq_ok.mp h
          rw [pure_eq_ok, Prod.mk.injEq] at h
          exact Or.inr ⟨rfl, _, h.1 ▸ hf⟩

/-- A read changes nothing. -/
theorem handle_read_only {r : FileReturn} (hread : c.write = false)
    (h : handleFileCall fs c = .ok (fs', r)) : fs' = fs := by
  rcases fileCallWith_cases h with h | ⟨hw, _⟩
  · exact h
  · rw [hread] at hw
    cases hw

theorem size_int {n : Nat} (h : n ≤ fileDataSize) : ((n : Int) % 2 ^ 32).toNat = n := by
  have h : n ≤ 1024 := h
  omega

theorem i32_size {n : Nat} (h : n ≤ fileDataSize) : i32 n = n := by
  have h : n ≤ 1024 := h
  unfold i32
  omega

/-- A read of `len` bytes copies as many, or all of the file if `len` exceeds the buffer. -/
theorem handle_read (hl : fsLookup fs c.user c.filename = .ok (some i)) (hr : c.write = false)
    (hs : (fs.files i).size ≤ fileDataSize) {n : Nat}
    (hn : (if (fileDataSize : Int) < c.len then ((fs.files i).size : Int) else c.len) = n) :
    handleFileCall fs c = .ok (fs, ⟨n, blit c.user c.buf (fs.files i).data 0 n⟩) := by
  have hle : n ≤ fileDataSize := by
    split at hn
    · omega
    · omega
  unfold handleFileCall fileCallWith
  rw [hl, ok_bind]
  dsimp only
  rw [i32_size hs, hn, size_int hle, hr, if_neg (by decide), memcpy_ok (by omega) (by omega), ok_bind]
  rfl

/-- A write of at most 1024 bytes changes the entry and flushes. -/
theorem fileCallWith_write {α : Type} {flush : Fs → Except Stop α} {keep : Fs → α}
    (hl : fsLookup fs c.user c.filename = .ok (some i)) (hw : c.write = true) (h0 : 0 ≤ c.len)
    (h1 : c.len ≤ fileDataSize) : fileCallWith flush keep fs c
      = flush { fs with files := written fs.files c i } >>= fun left =>
        .ok (left, ⟨c.len, c.user⟩) := by
  obtain ⟨n, hn⟩ : ∃ n : Nat, c.len = n := ⟨c.len.toNat, by omega⟩
  have hle : n ≤ fileDataSize := by omega
  have hif : (if (fileDataSize : Int) < c.len then i32 (fs.files i).size else c.len) = c.len :=
    if_neg (by omega)
  unfold fileCallWith written
  rw [hl, ok_bind]
  dsimp only
  rw [hif, hn, size_int hle, hw, if_pos rfl, memcpy_ok (by omega) (by omega), ok_bind,
    Int.toNat_natCast]
  rfl

theorem handle_write (hl : fsLookup fs c.user c.filename = .ok (some i)) (hw : c.write = true)
    (h0 : 0 ≤ c.len) (h1 : c.len ≤ fileDataSize) :
    handleFileCall fs c = fsFlush { fs with files := written fs.files c i } >>= fun fs' =>
      .ok (fs', ⟨c.len, c.user⟩) := fileCallWith_write hl hw h0 h1

/-! ## What fits -/

/-- No two files in use are both larger than a sector. -/
theorem recordsFit_of_small (ht : Table files)
    (hs : ∀ i j, i < j → j < filesMax → (files i).inUse → (files j).inUse →
      (files i).size ≤ 512 ∨ (files j).size ≤ 512) : RecordsFit files := by
  intro i hi hu
  have hmax : filesMax = 2 := rfl
  have hst := ht.storable i hi hu
  have hsize : (files i).size ≤ 1024 := hst.size
  rw [diskMaxSize_eq]
  simp only [sizeofTarHeader]
  have h0 : offOf files 0 = 0 := rfl
  by_cases hi0 : i = 0
  · rw [hi0] at hsize ⊢
    omega
  · obtain rfl : i = 1 := by omega
    have hu0 := ht.front 0 1 (by omega) hi hu
    have hrec := recordSize_spec (ht.storable 0 (by omega) hu0).size
    have h1 : offOf files 1 = offOf files 0 + recordSize (files 0) := offOf_succ hu0
    have hsize0 : (files 0).size ≤ 1024 := (ht.storable 0 (by omega) hu0).size
    have hsmall := hs 0 1 (by omega) hi hu0 hu
    simp only [sizeofTarHeader, sectorSize] at hrec
    omega

/--
A write of `c` leaves an archive that fits: it is of at most 512 bytes, or every other file in use
is.
-/
def HasRoom (files : Nat → File) (c : FileCall) : Prop :=
  ∀ i, Denotes files (callName c) i → (files i).inUse →
    c.len ≤ 512 ∨ ∀ j, j < filesMax → j ≠ i → (files j).inUse → (files j).size ≤ 512

theorem written_self : written files c i i = { files i with
    data := blit (files i).data 0 c.user c.buf c.len.toNat
    size := c.len.toNat } := Function.update_self ..

theorem written_other {j : Nat} (h : j ≠ i) : written files c i j = files j :=
  Function.update_of_ne h ..

theorem written_inUse (j : Nat) : (written files c i j).inUse = (files j).inUse := by
  by_cases h : j = i
  · rw [h, written_self]
  · rw [written_other h]

theorem written_name (j : Nat) : (written files c i j).name = (files j).name := by
  by_cases h : j = i
  · rw [h, written_self]
  · rw [written_other h]

theorem contents_written : contents (written files c i i) = passed c := by
  unfold contents passed
  rw [written_self]
  refine List.map_congr_left fun j hj => ?_
  exact blit_front (List.mem_range.mp hj)

theorem written_table (hg : InOrder files) (h1 : c.len ≤ fileDataSize) :
    Table (written files c i) ∧ ∀ j, j < filesMax → (written files c i j).size ≤ fileDataSize := by
  have hlen : c.len.toNat ≤ fileDataSize := by omega
  have hsize : ∀ j, j < filesMax → (written files c i j).size ≤ fileDataSize := by
    intro j hj
    by_cases h : j = i
    · rw [h, written_self]; exact hlen
    · rw [written_other h]; exact hg.size j hj
  refine ⟨⟨fun j j' hjj hj' hu => ?_, fun j hj hu => ⟨?_, hsize j hj⟩⟩, hsize⟩
  · rw [written_inUse] at hu ⊢
    exact hg.table.front j j' hjj hj' hu
  · rw [written_inUse] at hu
    rw [written_name]
    exact (hg.table.storable j hj hu).name

/-- A write keeps the files in order when every record still fits. -/
theorem InOrder.of_fits (hg : InOrder files) (h1 : c.len ≤ fileDataSize)
    (hfit : RecordsFit (written files c i)) : InOrder (written files c i) := by
  obtain ⟨ht, hsize⟩ := written_table (i := i) hg h1
  refine ⟨ht, hfit, fun j hj hu => ?_, hsize⟩
  rw [written_inUse] at hu
  rw [written_name]
  exact hg.nameless j hj hu

/-- A write that has room keeps the files in order. -/
theorem InOrder.write (hg : InOrder files) (hd : Denotes files (callName c) i)
    (h1 : c.len ≤ fileDataSize) (hroom : HasRoom files c) : InOrder (written files c i) := by
  have ht := (written_table (i := i) hg h1).1
  refine hg.of_fits h1 (recordsFit_of_small ht fun j j' hjj hj' hu hu' => ?_)
  rw [written_inUse] at hu hu'
  -- one of the two is the file that was written
  have hmax : filesMax = 2 := rfl
  have hi := hd.1
  by_cases hji : j = i
  · subst hji
    rcases hroom j hd hu with hs | hs
    · left; rw [written_self]; show c.len.toNat ≤ 512; omega
    · right; rw [written_other (by omega)]; exact hs j' hj' (by omega) hu'
  · obtain rfl : j' = i := by omega
    rcases hroom j' hd hu' with hs | hs
    · right; rw [written_self]; show c.len.toNat ≤ 512; omega
    · left; rw [written_other (by omega)]; exact hs j (by omega) (by omega) hu

/-- **A write that has room** returns, and leaves its bytes in the file and on the device. -/
theorem write_ok (hg : InOrder fs.files) (hd : Denotes fs.files (callName c) i)
    (hw : c.write = true) (h0 : 0 ≤ c.len) (h1 : c.len ≤ fileDataSize) (hroom : HasRoom fs.files c) :
    ∃ fs', handleFileCall fs c = .ok (fs', ⟨c.len, c.user⟩) ∧ fs'.files = written fs.files c i
      ∧ InOrder fs'.files ∧ fs'.device.capacity = fs.device.capacity
      ∧ (diskMaxSize / sectorSize ≤ fs.device.capacity → Image fs'.files fs'.device.bytes) := by
  have hl : fsLookup fs c.user c.filename = .ok (some i) := by
    rcases fsLookup_spec hg c with ⟨i', hd', hl⟩ | ⟨hno, _⟩
    · rw [hd.unique hd']; exact hl
    · exact absurd hd.2.1 (hno i hd.1)
  have hg' := hg.write hd h1 hroom
  obtain ⟨fs', hflush, hfiles, hcap, himg⟩ :=
    fsFlush_device { fs with files := written fs.files c i } hg'.table.storable hg'.fits
  refine ⟨fs', ?_, hfiles, hfiles ▸ hg', hcap, fun h => ?_⟩
  · rw [handle_write hl hw h0 h1, hflush, ok_bind]
  · rw [hfiles]
    exact himg h

end

end Os1000.Proof
