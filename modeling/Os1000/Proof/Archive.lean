import Os1000.Proof.Common

/-!
# The archive on the disk

`fs_flush` lays the files out one record after the other: a header of one sector, the
data, and zeroes up to the next sector. `fs_init` finds them again by computing the
same offsets from the sizes it reads, and stops at the first header without a name.

`Member` says that a record is there. A record that was written stays there, because
everything written later lies behind it, and whatever is behind the last record is
zero. That is all `fs_init` needs to get every file back.
-/

namespace Os1000.Proof

open Os1000 Lib

/-! ## Layout -/

theorem diskMaxSize_eq : diskMaxSize = 2560 := by decide

/-- The space a file takes in the archive. -/
def recordSize (f : File) : Nat := alignUp (u32 (sizeofTarHeader + f.size)) sectorSize

/-- Where the record of file `i` begins. -/
def offOf (files : Nat → File) : Nat → Nat
  | 0 => 0
  | i + 1 => offOf files i + if (files i).inUse then recordSize (files i) else 0

/-- A file that can be stored: it has a name that ends inside its array, and a size that fits. -/
structure Storable (f : File) : Prop where
  name : ∃ k, 0 < k ∧ k < fileNameSize ∧ Ends f.name 0 k
  size : f.size ≤ fileDataSize

/-- A file `fs_flush` can write: a name, maybe none, that ends inside its array, and a size that fits. -/
structure Writable (f : File) : Prop where
  name : ∃ k, k < fileNameSize ∧ Ends f.name 0 k
  size : f.size ≤ fileDataSize

theorem Storable.writable {f : File} (h : Storable f) : Writable f := by
  obtain ⟨k, _, hk⟩ := h.name
  exact ⟨⟨k, hk⟩, h.size⟩

/-- The files in use come first, and can be stored. -/
structure Table (files : Nat → File) : Prop where
  front : ∀ i j, i < j → j < filesMax → (files j).inUse → (files i).inUse
  storable : ∀ i, i < filesMax → (files i).inUse → Storable (files i)

/-- Every record ends inside `disk[]`. -/
def RecordsFit (files : Nat → File) : Prop :=
  ∀ i, i < filesMax → (files i).inUse →
    offOf files i + sizeofTarHeader + (files i).size ≤ diskMaxSize

/-- The record of `f` is at `off`. -/
structure Member (disk : Mem) (off : Nat) (f : File) : Prop where
  name : ∀ k, k < fileNameSize → Ends f.name 0 k → ∀ j, j ≤ k → disk (off + nameAt + j) = f.name j
  magic : ∀ j, j ≤ ustar.length → disk (off + magicAt + j) = literal ustar j
  size : octValue disk (off + sizeAt) sizeofSize 0 = f.size
  data : ∀ j, j < f.size → disk (off + sizeofTarHeader + j) = f.data j

/-- `disk[]` holds the archive of these files. -/
structure Image (files : Nat → File) (disk : Mem) : Prop where
  member : ∀ i, i < filesMax → (files i).inUse → Member disk (offOf files i) (files i)
  zero : ∀ x, offOf files filesMax ≤ x → x < diskMaxSize → disk x = 0

/-- The archive of these files begins with these bytes: what `fs_init` looks at. -/
structure OnDisk (files : Nat → File) (bytes : Mem) : Prop where
  member : ∀ i, i < filesMax → (files i).inUse → Member bytes (offOf files i) (files i)
  /-- Where a record would follow, there is no name. -/
  stop : ∀ i, i < filesMax → ¬ (files i).inUse → bytes (offOf files i) = 0

section

variable {files : Nat → File} {f : File} {disk disk' : Mem} {off i j : Nat}

theorem recordSize_spec (h : f.size ≤ fileDataSize) :
    sizeofTarHeader + f.size ≤ recordSize f
      ∧ recordSize f < sizeofTarHeader + f.size + sectorSize ∧ recordSize f % sectorSize = 0 := by
  unfold recordSize alignUp u32
  simp only [sizeofTarHeader, sectorSize, fileDataSize] at *
  omega

theorem offOf_le (h : i ≤ j) : offOf files i ≤ offOf files j := by
  induction h with
  | refl => exact Nat.le_refl _
  | step _ ih => exact Nat.le_trans ih (Nat.le_add_right _ _)

theorem offOf_succ (hu : (files i).inUse) : offOf files (i + 1) = offOf files i + recordSize (files i) := by
  rw [offOf, if_pos hu]

theorem offOf_succ_unused (hu : ¬ (files i).inUse) : offOf files (i + 1) = offOf files i := by
  rw [offOf, if_neg hu, Nat.add_zero]

/-- Files past the last that is in use take no space. -/
theorem Table.offOf_eq (ht : Table files) (hu : ¬ (files i).inUse) (hij : i ≤ j)
    (hj : j ≤ filesMax) : offOf files j = offOf files i := by
  induction hij with
  | refl => rfl
  | @step m him ih =>
      have hm : ¬ (files m).inUse := by
        intro h
        rcases Nat.lt_or_eq_of_le him with hlt | heq
        · exact hu (ht.front i m hlt hj h)
        · exact hu (heq ▸ h)
      rw [offOf_succ_unused hm]
      exact ih (Nat.le_of_succ_le hj)

/-- What fits with its padding fits. -/
theorem Table.fits (ht : Table files) (h : offOf files filesMax ≤ diskMaxSize) : RecordsFit files := by
  intro i hi hu
  have h1 := (recordSize_spec (ht.storable i hi hu).size).1
  have h2 : offOf files (i + 1) ≤ offOf files filesMax := offOf_le hi
  rw [offOf_succ hu] at h2
  omega

/-- A record depends on its own bytes only. -/
theorem Member.congr (hm : Member disk off f)
    (he : ∀ x, off ≤ x → x < off + sizeofTarHeader + f.size → disk' x = disk x) :
    Member disk' off f where
  name k hk hend j hj := by
    rw [he _ (by omega) (by simp only [sizeofTarHeader, nameAt, fileNameSize] at *; omega)]
    exact hm.name k hk hend j hj
  magic j hj := by
    rw [he _ (by omega) ?_]
    · exact hm.magic j hj
    · have : ustar.length = 5 := by decide
      simp only [sizeofTarHeader, magicAt]
      omega
  size := by
    rw [← hm.size]
    refine octValue_congr fun i hi => he _ (by omega) ?_
    simp only [sizeofTarHeader, sizeAt, sizeofSize] at *
    omega
  data j hj := by
    rw [he _ (by omega) (by omega)]
    exact hm.data j hj

/-! ## Writing one record -/

/-- The header `fs_flush` has written when it comes to the checksum. -/
def blankHeader (disk : Mem) (off : Nat) (f : File) (k : Nat) : Mem :=
  let d := blit disk off (fun _ => 0) 0 sizeofTarHeader
  let d := blit d (off + nameAt) f.name 0 (k + 1)
  let d := blit d (off + modeAt) (literal (ascii ['0', '0', '0', '6', '4', '4'])) 0 7
  let d := blit d (off + magicAt) (literal ustar) 0 6
  let d := blit d (off + versionAt) (literal (ascii ['0', '0'])) 0 3
  let d := blit d (off + typeAt) (fun _ => 48) 0 1
  blit d (off + sizeAt) (octal sizeofSize f.size) 0 sizeofSize

/-- The checksum it computes from that: the eight bytes of the field count as spaces. -/
def headerSum (disk : Mem) (off : Nat) (f : File) (k : Nat) : Nat :=
  32 * sizeofChecksum + byteSum (blankHeader disk off f k) off sizeofTarHeader

/-- The header `fs_flush` writes for a file with a name of `k` bytes, with the checksum it computed. -/
def headerImage (disk : Mem) (off : Nat) (f : File) (k checksum : Nat) : Mem :=
  blit (blankHeader disk off f k) (off + checksumAt) (octal 6 checksum) 0 6

/-- The whole record: the header and the data behind it. -/
def recordImage (disk : Mem) (off : Nat) (f : File) (k checksum : Nat) : Mem :=
  blit (headerImage disk off f k checksum) (off + sizeofTarHeader) f.data 0 f.size

/-- As long as the header lies inside `disk[]`, `fs_flush` comes to copy the data. -/
theorem flushFile_header (disk : Mem) (off : Nat) {k : Nat} (hk : k < fileNameSize) (hend : Ends f.name 0 k)
    (hs : f.size ≤ fileDataSize) (hfit : off + sizeofTarHeader ≤ diskMaxSize) :
    flushFile disk off f = memcpy (headerImage disk off f k (headerSum disk off f k))
      (off + sizeofTarHeader) diskMaxSize f.data 0 fileDataSize f.size := by
  have hmode : Ends (literal (ascii ['0', '0', '0', '6', '4', '4'])) 0 6 :=
    ends_literal (by decide)
  have hmagic : Ends (literal ustar) 0 5 := ends_literal (by decide)
  have hversion : Ends (literal (ascii ['0', '0'])) 0 2 := ends_literal (by decide)
  have hsize : i32 (f.size : Int) = (f.size : Nat) := by
    unfold i32
    simp only [fileDataSize] at hs
    omega
  rw [diskMaxSize_eq] at hfit
  have h512 : sizeofTarHeader = 512 := rfl
  unfold flushFile
  rw [diskMaxSize_eq, memset_ok (by omega), ok_bind,
    strcpy_ok hend (by omega) (by simp only [nameAt, fileNameSize] at *; omega), ok_bind,
    strcpy_ok hmode (by omega) (by simp only [modeAt]; omega), ok_bind,
    strcpy_ok hmagic (by omega) (by simp only [magicAt]; omega), ok_bind,
    strcpy_ok hversion (by omega) (by simp only [versionAt]; omega), ok_bind,
    storeAt_ok (by simp only [typeAt]; omega), ok_bind, update_eq_blit,
    hsize, putOctal_ok f.size (by simp only [sizeAt, sizeofSize]; omega), ok_bind,
    sumBytes_eq (by omega), ok_bind, putOctal_ok _ (by simp only [checksumAt]; omega), ok_bind]
  rfl

theorem headerImage_outside {k checksum x : Nat} (hk : k < fileNameSize)
    (h : x < off ∨ off + sizeofTarHeader ≤ x) : headerImage disk off f k checksum x = disk x := by
  simp only [sizeofTarHeader, fileNameSize] at h hk
  unfold headerImage blankHeader
  simp only [nameAt, modeAt, magicAt, versionAt, typeAt, sizeAt, sizeofSize, checksumAt,
    sizeofTarHeader]
  rw [blit_outside (by omega), blit_outside (by omega), blit_outside (by omega),
    blit_outside (by omega), blit_outside (by omega), blit_outside (by omega),
    blit_outside (by omega), blit_outside (by omega)]

theorem recordImage_outside {k checksum x : Nat} (hk : k < fileNameSize)
    (h : x < off ∨ off + sizeofTarHeader + f.size ≤ x) :
    recordImage disk off f k checksum x = disk x := by
  unfold recordImage
  rw [blit_outside (by omega), headerImage_outside hk (by omega)]

theorem recordImage_member {k checksum : Nat} (hk : k < fileNameSize) (hend : Ends f.name 0 k)
    (hs : f.size ≤ fileDataSize) : Member (recordImage disk off f k checksum) off f where
  name k' hk' hend' j hj := by
    have hkk : k' = k := hend.unique hend'
    subst hkk
    simp only [fileNameSize] at hk
    unfold recordImage headerImage blankHeader
    simp only [nameAt, modeAt, magicAt, versionAt, typeAt, sizeAt, sizeofSize, checksumAt,
      sizeofTarHeader]
    rw [blit_outside (by omega), blit_outside (by omega), blit_outside (by omega),
      blit_outside (by omega), blit_outside (by omega), blit_outside (by omega),
      blit_outside (by omega), blit_inside (by omega), Nat.zero_add]
  magic j hj := by
    have hj : j ≤ 5 := hj
    unfold recordImage headerImage blankHeader
    simp only [nameAt, modeAt, magicAt, versionAt, typeAt, sizeAt, sizeofSize, checksumAt,
      sizeofTarHeader]
    rw [blit_outside (by omega), blit_outside (by omega), blit_outside (by omega),
      blit_outside (by omega), blit_outside (by omega), blit_inside (by omega), Nat.zero_add]
  size := by
    have hdigits : ∀ i, i < sizeofSize →
        recordImage disk off f k checksum (off + sizeAt + i) = octal sizeofSize f.size i := by
      intro i hi
      simp only [sizeofSize] at hi
      unfold recordImage headerImage blankHeader
      simp only [checksumAt, sizeofTarHeader, sizeAt, sizeofSize]
      rw [blit_outside (by omega), blit_outside (by omega), blit_inside (by omega), Nat.zero_add]
    rw [octValue_octal hdigits, Nat.zero_mul, Nat.zero_add]
    refine Nat.mod_eq_of_lt (Nat.lt_of_le_of_lt hs ?_)
    decide
  data j hj := by
    unfold recordImage
    rw [blit_inside hj, Nat.zero_add]

/-- **One file of `fs_flush`**: its record is written, and nothing else. -/
theorem flushFile_ok (disk : Mem) (off : Nat) (hf : Storable f)
    (hfit : off + sizeofTarHeader + f.size ≤ diskMaxSize) :
    ∃ disk', flushFile disk off f = .ok disk' ∧ Member disk' off f
      ∧ ∀ x, x < off ∨ off + sizeofTarHeader + f.size ≤ x → disk' x = disk x := by
  obtain ⟨k, _, hk, hend⟩ := hf.name
  have hsize := hf.size
  rw [flushFile_header disk off hk hend hf.size (by omega), memcpy_ok hfit (by omega)]
  exact ⟨_, rfl, recordImage_member hk hend hf.size, fun x hx => recordImage_outside hk hx⟩

/-- A record whose data does not fit stops the copy. -/
theorem flushFile_stops (disk : Mem) (off : Nat) (hf : Writable f)
    (hoff : off + sizeofTarHeader ≤ diskMaxSize)
    (hbig : diskMaxSize < off + sizeofTarHeader + f.size) :
    flushFile disk off f = .error .outOfBounds := by
  obtain ⟨k, hk, hend⟩ := hf.name
  rw [flushFile_header disk off hk hend hf.size hoff, memcpy_stops hoff (Nat.zero_le _) (Or.inl hbig)]

end

/-! ## The sectors -/

theorem sectors_cover : diskMaxSize / sectorSize * sectorSize = diskMaxSize := by decide

theorem readDisk_spec (fs : Fs) (hcap : diskMaxSize / sectorSize ≤ fs.device.capacity) :
    (readDisk fs).files = fs.files ∧ (readDisk fs).device = fs.device
      ∧ ∀ x, x < diskMaxSize → (readDisk fs).disk x = fs.device.bytes x := by
  unfold readDisk
  have h := loop_inv (f := readSector) (s := fs)
    (fun i t => t.files = fs.files ∧ t.device = fs.device
      ∧ ∀ x, x < i * sectorSize → t.disk x = fs.device.bytes x)
    (diskMaxSize / sectorSize) ⟨rfl, rfl, by omega⟩ ?_
  · rw [sectors_cover] at h
    exact h
  · intro i t hi ⟨h1, h2, h3⟩
    have hcapt : ¬ t.device.capacity ≤ i := by
      rw [h2]
      omega
    unfold readSector
    rw [if_neg hcapt]
    refine ⟨h1, h2, fun x hx => ?_⟩
    simp only [sectorSize] at hx h3 ⊢
    by_cases hold : x < i * 512
    · rw [blit_outside (by omega)]
      exact h3 x hold
    · obtain ⟨j, rfl⟩ : ∃ j, x = i * 512 + j := ⟨x - i * 512, by omega⟩
      rw [blit_inside (by omega), h2]

theorem writeDisk_spec (fs : Fs) :
    (writeDisk fs).files = fs.files ∧ (writeDisk fs).disk = fs.disk
      ∧ (writeDisk fs).device.capacity = fs.device.capacity
      ∧ (diskMaxSize / sectorSize ≤ fs.device.capacity →
        ∀ x, x < diskMaxSize → (writeDisk fs).device.bytes x = fs.disk x) := by
  unfold writeDisk
  have h := loop_inv (f := writeSector) (s := fs)
    (fun i t => t.files = fs.files ∧ t.disk = fs.disk
      ∧ t.device.capacity = fs.device.capacity
      ∧ (diskMaxSize / sectorSize ≤ fs.device.capacity →
        ∀ x, x < i * sectorSize → t.device.bytes x = fs.disk x))
    (diskMaxSize / sectorSize) ⟨rfl, rfl, rfl, by omega⟩ ?_
  · rw [sectors_cover] at h
    exact h
  · intro i t hi ⟨h1, h2, h3, h4⟩
    unfold writeSector
    split
    · exact ⟨h1, h2, h3, fun hcap => by omega⟩
    · refine ⟨h1, h2, h3, fun hcap x hx => ?_⟩
      have h4 := h4 hcap
      simp only [sectorSize] at hx h4 ⊢
      by_cases hold : x < i * 512
      · rw [blit_outside (by omega)]
        exact h4 x hold
      · obtain ⟨j, rfl⟩ : ∃ j, x = i * 512 + j := ⟨x - i * 512, by omega⟩
        rw [blit_inside (by omega), h2]

/-! ## `fs_flush` -/

section

variable {files : Nat → File} {disk : Mem}

/--
A property `R` of records that `fs_flush` establishes for files of kind `W`: writing one record
gives it, and it depends on the bytes of that record only.
-/
structure Emits (W : File → Prop) (R : Mem → Nat → File → Prop) : Prop where
  size : ∀ f, W f → f.size ≤ fileDataSize
  write : ∀ disk off f, W f → off + sizeofTarHeader + f.size ≤ diskMaxSize →
    ∃ disk', flushFile disk off f = .ok disk' ∧ R disk' off f
      ∧ ∀ x, x < off ∨ off + sizeofTarHeader + f.size ≤ x → disk' x = disk x
  congr : ∀ disk disk' off f, R disk off f →
    (∀ x, off ≤ x → x < off + sizeofTarHeader + f.size → disk' x = disk x) → R disk' off f

/-- What the loop of `fs_flush` has laid out after `i` files: `R` records, and zeroes behind them. -/
structure FlushedBy (R : Mem → Nat → File → Prop) (files : Nat → File) (i : Nat)
    (s : Mem × Nat) : Prop where
  off : s.2 = offOf files i
  record : ∀ j, j < i → (files j).inUse → R s.1 (offOf files j) (files j)
  zero : ∀ x, offOf files i ≤ x → x < diskMaxSize → s.1 x = 0

theorem Emits.entry {W : File → Prop} {R : Mem → Nat → File → Prop} (he : Emits W R)
    (hw : ∀ i, i < filesMax → (files i).inUse → W (files i)) (hfit : RecordsFit files) {i : Nat}
    {s : Mem × Nat} (hi : i < filesMax) (hs : FlushedBy R files i s) :
    ∃ s', fsFlushEntry files s i = .ok s' ∧ FlushedBy R files (i + 1) s' := by
  unfold fsFlushEntry
  by_cases hu : (files i).inUse
  · have hend := hfit i hi hu
    have hrec := recordSize_spec (he.size _ (hw i hi hu))
    obtain ⟨disk', hflush, hmem, hout⟩ := he.write s.1 _ _ (hw i hi hu) hend
    rw [if_pos hu, hs.off, hflush, ok_bind]
    refine ⟨_, rfl, ?_, ?_, ?_⟩
    · show u32 (offOf files i + recordSize (files i)) = _
      rw [offOf_succ hu]
      refine u32_of_lt ?_
      rw [diskMaxSize_eq] at hend
      simp only [sectorSize] at hrec
      omega
    · intro j hj huj
      by_cases hji : j = i
      · rw [hji]; exact hmem
      · have hsize := he.size _ (hw j (by omega) huj)
        refine he.congr s.1 _ _ _ (hs.record j (by omega) huj) fun x _ hx => hout x (Or.inl ?_)
        have h1 : offOf files (j + 1) ≤ offOf files i := offOf_le (by omega)
        rw [offOf_succ huj] at h1
        have h2 := (recordSize_spec hsize).1
        omega
    · intro x hx hlt
      rw [offOf_succ hu] at hx
      show disk' x = 0
      rw [hout x (Or.inr (by omega))]
      exact hs.zero x (by omega) hlt
  · rw [if_neg hu]
    refine ⟨s, rfl, ?_, ?_, ?_⟩
    · rw [offOf_succ_unused hu]; exact hs.off
    · intro j hj huj
      by_cases hji : j = i
      · exact absurd (hji ▸ huj) hu
      · exact hs.record j (by omega) huj
    · rw [offOf_succ_unused hu]; exact hs.zero

/-- What `fs_flush` does around its loop: `disk[]` is zeroed before it and written out after it. -/
theorem fsFlush_of_loop (fs : Fs) (P : Nat → Mem × Nat → Prop)
    (h0 : ∀ disk, (∀ x, x < diskMaxSize → disk x = 0) → P 0 (disk, 0))
    (hstep : ∀ i s, i < filesMax → P i s → ∃ s', fsFlushEntry fs.files s i = .ok s' ∧ P (i + 1) s') :
    ∃ fs' off, fsFlush fs = .ok fs' ∧ P filesMax (fs'.disk, off) ∧ fs'.files = fs.files
      ∧ fs'.device.capacity = fs.device.capacity
      ∧ (diskMaxSize / sectorSize ≤ fs.device.capacity →
        ∀ x, x < diskMaxSize → fs'.device.bytes x = fs'.disk x) := by
  unfold fsFlush flushBuffer
  rw [memset_ok (by omega), ok_bind]
  have hzero : P 0 (blit fs.disk 0 (fun _ => 0) 0 diskMaxSize, 0) :=
    h0 _ fun x hx => blit_front hx
  obtain ⟨⟨disk, off⟩, hloop, hs⟩ := loopM_ok P filesMax hzero hstep
  rw [hloop, ok_bind]
  show ∃ fs' off', Except.ok (writeDisk { fs with disk }) = .ok fs' ∧ _
  obtain ⟨h1, h2, h3, h4⟩ := writeDisk_spec { fs with disk }
  dsimp only at h1 h2 h3 h4
  refine ⟨_, off, rfl, ?_, h1, h3, ?_⟩
  · rw [h2]
    exact hs
  · intro hcap x hx
    rw [h2]
    exact h4 hcap x hx

theorem emits_member : Emits Storable Member where
  size _ hf := hf.size
  write disk off _ hf hfit := flushFile_ok disk off hf hfit
  congr _ _ _ _ hm he := hm.congr he

/-- **`fs_flush` writes the archive**, when every record fits. -/
theorem fsFlush_ok (fs : Fs) (hstore : ∀ i, i < filesMax → (fs.files i).inUse → Storable (fs.files i))
    (hfit : RecordsFit fs.files) :
    ∃ fs', fsFlush fs = .ok fs' ∧ fs'.files = fs.files ∧ Image fs.files fs'.disk
      ∧ fs'.device.capacity = fs.device.capacity
      ∧ (diskMaxSize / sectorSize ≤ fs.device.capacity →
        ∀ x, x < diskMaxSize → fs'.device.bytes x = fs'.disk x) := by
  obtain ⟨fs', off, hflush, hs, hfiles, hcap, hbytes⟩ := fsFlush_of_loop fs
    (FlushedBy Member fs.files) (fun disk hz => ⟨rfl, by omega, fun x _ hx => hz x hx⟩)
    fun i s hi hs => emits_member.entry hstore hfit hi hs
  exact ⟨fs', hflush, hfiles, ⟨hs.record, hs.zero⟩, hcap, hbytes⟩

theorem offOf_bound (hst : ∀ i, i < filesMax → (files i).inUse → (files i).size ≤ fileDataSize)
    {i : Nat} (hi : i ≤ filesMax) : offOf files i ≤ i * 1536 := by
  induction i with
  | zero => exact Nat.le_refl 0
  | succ i ih =>
      have ih := ih (by omega)
      by_cases hu : (files i).inUse
      · have hsize : (files i).size ≤ 1024 := hst i (by omega) hu
        have hrec : recordSize (files i) ≤ 1536 := by
          unfold recordSize alignUp u32
          simp only [sizeofTarHeader, sectorSize]
          omega
        have he := offOf_succ hu
        omega
      · have he := offOf_succ_unused hu
        omega

/-- A flush that returned had room for every record. -/
theorem recordsFit_of_flushed {fs fs' : Fs}
    (hw : ∀ i, i < filesMax → (fs.files i).inUse → Writable (fs.files i))
    (h : fsFlush fs = .ok fs') : RecordsFit fs.files := by
  unfold fsFlush flushBuffer at h
  obtain ⟨fs₁, h, _⟩ := bind_eq_ok.mp h
  obtain ⟨disk, _, h⟩ := bind_eq_ok.mp h
  obtain ⟨s, hloop, _⟩ := bind_eq_ok.mp h
  refine (loopM_inv (fun i t => t.2 = offOf fs.files i ∧ ∀ j, j < i → (fs.files j).inUse →
    offOf fs.files j + sizeofTarHeader + (fs.files j).size ≤ diskMaxSize) filesMax
    ⟨rfl, by omega⟩ ?_ hloop).2
  intro i t t' hi ⟨hoff, hfit⟩ hentry
  unfold fsFlushEntry at hentry
  by_cases hu : (fs.files i).inUse
  · rw [if_pos hu, hoff] at hentry
    obtain ⟨disk', hflush, hentry⟩ := bind_eq_ok.mp hentry
    have hbound := offOf_bound (fun i hi hu => (hw i hi hu).size) (Nat.le_of_lt hi)
    have hroom : offOf fs.files i + sizeofTarHeader ≤ diskMaxSize := by
      have hmax : filesMax = 2 := rfl
      rw [diskMaxSize_eq]
      simp only [sizeofTarHeader]
      omega
    have hlast : offOf fs.files i + sizeofTarHeader + (fs.files i).size ≤ diskMaxSize := by
      by_contra hbig
      rw [flushFile_stops t.1 _ (hw i hi hu) hroom (by omega)] at hflush
      cases hflush
    have hnext := pure_eq_ok.mp hentry
    refine ⟨?_, fun j hj huj => ?_⟩
    · rw [← hnext, offOf_succ hu]
      show u32 (offOf fs.files i + recordSize (fs.files i)) = _
      have hrec := recordSize_spec (hw i hi hu).size
      rw [diskMaxSize_eq] at hlast
      simp only [sectorSize] at hrec
      exact u32_of_lt (by omega)
    · by_cases hji : j = i
      · exact hji ▸ hlast
      · exact hfit j (by omega) huj
  · rw [if_neg hu] at hentry
    have hnext := pure_eq_ok.mp hentry
    refine ⟨?_, fun j hj huj => ?_⟩
    · rw [← hnext, offOf_succ_unused hu]
      exact hoff
    · by_cases hji : j = i
      · exact absurd (hji ▸ huj) hu
      · exact hfit j (by omega) huj

end

/-! ## `fs_init` -/

section

variable {fs : Fs} {f : File} {off i : Nat}

/-- The magic of a header, as `fs_init` compares it. -/
theorem strcmp_magic (disk : Mem) (off : Nat) (hoff : off + sizeofTarHeader ≤ diskMaxSize) :
    ∃ r, strcmp disk (off + magicAt) diskMaxSize (literal ustar) 0 (ustar.length + 1) = .ok r
      ∧ (r = 0 ↔ ∀ j, j ≤ ustar.length → disk (off + magicAt + j) = literal ustar j) := by
  have hend : Ends (literal ustar) 0 ustar.length := ends_literal (by decide)
  have hlen : ustar.length = 5 := by decide
  obtain ⟨r, hr, hiff⟩ := strcmp_ok disk (off + magicAt) diskMaxSize (literal ustar) 0
    (ustar.length + 1) (Or.inr hend)
    (by rw [hlen]; simp only [magicAt, sizeofTarHeader] at *; omega) (by omega)
  refine ⟨r, hr, hiff.trans ?_⟩
  constructor
  · intro h j hj
    have := h j hj
    rwa [Nat.zero_add] at this
  · intro h j hj
    rw [Nat.zero_add]
    exact h j hj

/-- The file `fs_init` makes of the record at `off`, over what was in its entry before. -/
def loadedFile (old : File) (disk : Mem) (off k size : Nat) : File where
  inUse := true
  name := blit old.name 0 disk (off + nameAt) (k + 1)
  data := blit old.data 0 disk (off + sizeofTarHeader) size
  size := size

/-- A header without a name ends the loop. -/
theorem fsInitEntry_end (hoff : off < diskMaxSize) (h0 : fs.disk off = 0) :
    fsInitEntry fs off i = .ok none := by
  have hn : off + nameAt = off := rfl
  unfold fsInitEntry
  rw [hn, loadAt_ok hoff, ok_bind, if_pos h0]
  rfl

/-- A header with a name is read, if its magic is right, and a panic otherwise. -/
theorem fsInitEntry_named (hoff : off + sizeofTarHeader ≤ diskMaxSize) (h0 : fs.disk off ≠ 0) :
    fsInitEntry fs off i
      = if ∀ j, j ≤ ustar.length → fs.disk (off + magicAt + j) = literal ustar j
        then fsInitFile fs off i >>= fun next => pure (some next) else .error .panic := by
  have hn : off + nameAt = off := rfl
  have hh : sizeofTarHeader = 512 := rfl
  obtain ⟨r, hr, hiff⟩ := strcmp_magic fs.disk off hoff
  unfold fsInitEntry
  rw [hn, loadAt_ok (by omega), ok_bind, if_neg h0, hr, ok_bind]
  by_cases hr0 : r = 0
  · rw [if_neg (not_not_intro hr0), if_pos (hiff.mp hr0)]
  · rw [if_pos hr0, if_neg fun h => hr0 (hiff.mpr h)]
    rfl

/-- **One record read back**: the file `fs_init` makes of it. -/
theorem fsInitEntry_member (hm : Member fs.disk off f) (hf : Storable f)
    (hfit : off + sizeofTarHeader + f.size ≤ diskMaxSize) :
    ∃ k, 0 < k ∧ k < fileNameSize ∧ Ends f.name 0 k ∧
      fsInitEntry fs off i = .ok (some
        ({ fs with files :=
            Function.update fs.files i (loadedFile (fs.files i) fs.disk off k f.size) },
          off + recordSize f)) := by
  obtain ⟨k, hpos, hk, hend⟩ := hf.name
  refine ⟨k, hpos, hk, hend, ?_⟩
  have hsize : f.size ≤ 1024 := hf.size
  have hrec := recordSize_spec hf.size
  have hb : diskMaxSize = 2560 := diskMaxSize_eq
  have hh : sizeofTarHeader = 512 := rfl
  have hn : nameAt = 0 := rfl
  have hsec : sectorSize = 512 := rfl
  have hnm : fileNameSize = 100 := rfl
  have hname := hm.name k hk hend
  have hdisk : Ends fs.disk (off + nameAt) k :=
    hend.congr fun j hj => by rw [hname j hj, Nat.zero_add]
  have hoct := oct2int_eq fs.disk (off + sizeAt) diskMaxSize sizeofSize 0
    (by simp only [sizeAt, sizeofSize]; omega) (by decide)
  rw [hm.size, if_pos (by omega)] at hoct
  have hoff : u32 (off + alignUp (u32 (sizeofTarHeader + f.size)) sectorSize) = off + recordSize f := by
    show u32 (off + recordSize f) = _
    exact u32_of_lt (by omega)
  have hfile : fsInitFile fs off i = .ok
      ({ fs with files :=
          Function.update fs.files i (loadedFile (fs.files i) fs.disk off k f.size) },
        off + recordSize f) := by
    unfold fsInitFile
    rw [hoct, ok_bind, strcpy_ok hdisk (by omega) (by omega), ok_bind,
      memcpy_ok (by simp only [fileDataSize]; omega) (by omega), ok_bind, hoff]
    rfl
  have hfirst : fs.disk off ≠ 0 := hdisk.nonzero 0 hpos
  rw [fsInitEntry_named (by omega) hfirst, if_pos hm.magic, hfile]
  rfl

end

/-! ## There and back -/

section

variable {files : Nat → File}

/-- `g` is what became of `f`: the same flag and, if it is in use, the same name, size and data. -/
structure Restored (g f : File) : Prop where
  inUse : g.inUse = f.inUse
  name : f.inUse → text g.name 0 fileNameSize = text f.name 0 fileNameSize
  size : f.inUse → g.size = f.size
  data : f.inUse → ∀ j, j < f.size → g.data j = f.data j

theorem loadedFile_restored {old f : File} {disk : Mem} {off k : Nat} (hm : Member disk off f)
    (hu : f.inUse) (hk : k < fileNameSize) (hend : Ends f.name 0 k) :
    Restored (loadedFile old disk off k f.size) f where
  inUse := hu.symm
  name _ := by
    refine hend.text_congr fun j hj => ?_
    show blit old.name 0 disk (off + nameAt) (k + 1) (0 + j) = _
    rw [blit_inside (by omega), hm.name k hk hend j hj, Nat.zero_add]
  size _ := rfl
  data _ j hj := by
    show blit old.data 0 disk (off + sizeofTarHeader) f.size j = _
    rw [blit_front hj, hm.data j hj]

theorem Table.offOf_lt (ht : Table files) {i : Nat} (hi : i < filesMax) :
    offOf files i < diskMaxSize := by
  have h := offOf_bound (fun j hj hu => (ht.storable j hj hu).size) (Nat.le_of_lt hi)
  have hmax : filesMax = 2 := rfl
  rw [diskMaxSize_eq]
  omega

theorem Image.onDisk {bytes : Mem} (h : Image files bytes) (ht : Table files) :
    OnDisk files bytes := by
  refine ⟨h.member, fun i hi hu => h.zero _ ?_ (ht.offOf_lt hi)⟩
  rw [ht.offOf_eq hu (by omega) (Nat.le_refl _)]

theorem OnDisk.congr {bytes bytes' : Mem} (h : OnDisk files bytes) (ht : Table files)
    (hfit : RecordsFit files) (he : ∀ x, x < diskMaxSize → bytes' x = bytes x) :
    OnDisk files bytes' := by
  refine ⟨fun i hi hu => (h.member i hi hu).congr fun x _ hx => he x ?_, fun i hi hu => ?_⟩
  · exact Nat.lt_of_lt_of_le hx (hfit i hi hu)
  · rw [he _ (ht.offOf_lt hi)]
    exact h.stop i hi hu

/-- **The loop of `fs_init` over an archive**, from record `i` on. -/
theorem fsInitLoop_onDisk (ht : Table files) (hfit : RecordsFit files) :
    ∀ (n i : Nat) (fs : Fs), i + n = filesMax → OnDisk files fs.disk →
      (∀ j, j < i → Restored (fs.files j) (files j)) →
      (∀ j, i ≤ j → j < filesMax → (fs.files j).inUse = false) →
      ∃ fs', fsInitLoop fs (offOf files i) i n = .ok fs'
        ∧ ∀ j, j < filesMax → Restored (fs'.files j) (files j)
  | 0, i, fs, hn, _, hdone, _ => ⟨fs, rfl, fun j hj => hdone j (by omega)⟩
  | n + 1, i, fs, hn, h, hdone, hrest => by
      rw [fsInitLoop]
      by_cases hu : (files i).inUse
      · have hm := h.member i (by omega) hu
        obtain ⟨k, _, hk, hend, he⟩ := fsInitEntry_member (i := i) hm
          (ht.storable i (by omega) hu) (hfit i (by omega) hu)
        rw [he, ok_bind]
        dsimp only
        rw [← offOf_succ hu]
        refine fsInitLoop_onDisk ht hfit n (i + 1) _ (by omega) h (fun j hj => ?_) fun j hij hj => ?_
        · dsimp only
          by_cases hji : j = i
          · subst hji
            rw [Function.update_self]
            exact loadedFile_restored hm hu hk hend
          · rw [Function.update_of_ne hji]
            exact hdone j (by omega)
        · dsimp only
          rw [Function.update_of_ne (by omega)]
          exact hrest j (by omega) hj
      · rw [fsInitEntry_end (ht.offOf_lt (by omega)) (h.stop i (by omega) hu), ok_bind]
        refine ⟨fs, rfl, fun j hj => ?_⟩
        by_cases hji : j < i
        · exact hdone j hji
        · -- nothing behind the first entry that is not in use is in use
          have huj : ¬ (files j).inUse := by
            intro h
            rcases Nat.lt_or_eq_of_le (Nat.le_of_not_lt hji) with hlt | heq
            · exact hu (ht.front i j hlt hj h)
            · exact hu (heq ▸ h)
          refine ⟨?_, fun h => absurd h huj, fun h => absurd h huj, fun h => absurd h huj⟩
          rw [hrest j (by omega) hj]
          simpa using huj

/-- **A device that holds the archive** of some files gives them back. -/
theorem fsInit_onDisk (ht : Table files) (hfit : RecordsFit files) (disk : Mem) {device : Device}
    (hcap : diskMaxSize / sectorSize ≤ device.capacity) (h : OnDisk files device.bytes) :
    ∃ fs, fsInit ⟨noFiles, disk, device⟩ = .ok fs
      ∧ ∀ i, i < filesMax → Restored (fs.files i) (files i) := by
  obtain ⟨h1, _, hread⟩ := readDisk_spec ⟨noFiles, disk, device⟩ hcap
  exact fsInitLoop_onDisk ht hfit filesMax 0 _ (by omega) (h.congr ht hfit hread) (by omega)
    fun j _ _ => by rw [h1]; rfl

/-- What is on the device after `fs_flush`. -/
theorem fsFlush_device (fs : Fs)
    (hstore : ∀ i, i < filesMax → (fs.files i).inUse → Storable (fs.files i))
    (hfit : RecordsFit fs.files) :
    ∃ fs', fsFlush fs = .ok fs' ∧ fs'.files = fs.files
      ∧ fs'.device.capacity = fs.device.capacity
      ∧ (diskMaxSize / sectorSize ≤ fs.device.capacity → Image fs.files fs'.device.bytes) := by
  obtain ⟨fs', hflush, hfiles, himg, hcap, hbytes⟩ := fsFlush_ok fs hstore hfit
  refine ⟨fs', hflush, hfiles, hcap, fun h => ⟨fun i hi hu => ?_, fun x h1 h2 => ?_⟩⟩
  · refine (himg.member i hi hu).congr fun x _ hx => hbytes h x ?_
    exact Nat.lt_of_lt_of_le hx (hfit i hi hu)
  · rw [hbytes h x h2]
    exact himg.zero x h1 h2

/-- Two files, `a` of 1000 bytes and `b` of 7. -/
def sampleFiles : Nat → File
  | 0 => ⟨true, literal (ascii ['a']), fun j => UInt8.ofNat j, 1000⟩
  | 1 => ⟨true, literal (ascii ['b']), fun _ => 66, 7⟩
  | _ + 2 => noFiles 0

theorem sampleFiles_table : Table sampleFiles where
  front i j hij hj _ := by
    obtain rfl : i = 0 := by
      have : filesMax = 2 := rfl
      omega
    rfl
  storable i hi _ := by
    have hmax : filesMax = 2 := rfl
    match i with
    | 0 => exact ⟨⟨1, by decide, by decide, ends_literal (by decide)⟩, by decide⟩
    | 1 => exact ⟨⟨1, by decide, by decide, ends_literal (by decide)⟩, by decide⟩
    | _ + 2 => omega

/-- A device with the archive of `sampleFiles`, and what `fs_init` makes of it. -/
theorem sample_device : ∃ device fs, diskMaxSize / sectorSize ≤ device.capacity
    ∧ fsInit ⟨noFiles, fun _ => 0, device⟩ = .ok fs
    ∧ ∀ i, i < filesMax → Restored (fs.files i) (sampleFiles i) := by
  have hfit : RecordsFit sampleFiles := sampleFiles_table.fits (by decide)
  obtain ⟨fs₁, _, _, hcap, himg⟩ := fsFlush_device ⟨sampleFiles, fun _ => 0, ⟨5, fun _ => 0⟩⟩
    sampleFiles_table.storable hfit
  have hcap' : diskMaxSize / sectorSize ≤ fs₁.device.capacity := by
    rw [hcap]
    decide
  obtain ⟨fs, hinit, hall⟩ := fsInit_onDisk sampleFiles_table hfit (fun _ => 0) hcap'
    ((himg (by decide)).onDisk sampleFiles_table)
  exact ⟨fs₁.device, fs, hcap', hinit, hall⟩

/--
**There and back.** Whatever was in `disk[]` and on the device, `fs_flush` and then, from zeroed
files, `fs_init` give every file back: the flags, and for a file in use its name, its size and its
data.
-/
theorem flush_init_round_trip (files : Nat → File) (disk disk' : Mem) (device : Device)
    (ht : Table files) (hfit : offOf files filesMax ≤ diskMaxSize)
    (hcap : diskMaxSize / sectorSize ≤ device.capacity) :
    ∃ fs fs', fsFlush ⟨files, disk, device⟩ = .ok fs
      ∧ fsInit ⟨noFiles, disk', fs.device⟩ = .ok fs'
      ∧ ∀ i, i < filesMax → Restored (fs'.files i) (files i) := by
  have hrec := ht.fits hfit
  obtain ⟨fs, hflush, _, hcap', himg⟩ := fsFlush_device ⟨files, disk, device⟩ ht.storable hrec
  obtain ⟨fs', hinit, hall⟩ := fsInit_onDisk ht hrec disk' (hcap'.symm ▸ hcap)
    ((himg hcap).onDisk ht)
  exact ⟨fs, fs', hflush, hinit, hall⟩

theorem flush_init_round_trip_two :
    ∃ fs fs', fsFlush ⟨sampleFiles, fun _ => 1, ⟨5, fun _ => 2⟩⟩ = .ok fs
      ∧ fsInit ⟨noFiles, fun _ => 3, fs.device⟩ = .ok fs'
      ∧ ∀ i, i < filesMax → Restored (fs'.files i) (sampleFiles i) :=
  flush_init_round_trip sampleFiles _ _ _ sampleFiles_table (by decide) (by decide)

end

end Os1000.Proof
