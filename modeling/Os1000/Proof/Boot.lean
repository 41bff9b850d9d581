import Os1000.Proof.Archive

/-!
# `fs_init` on any disk

`fs_init` trusts the archive: the size it decodes from a header decides how much is
copied and where the next header is looked for. `Loadable` says which disks deserve
the trust: on those, and on no others, `fs_init` returns or panics on a bad magic.
Three small archives show how it leaves its arrays or overflows an `int`.

When `fs_init` has returned, the files it made are in order (`InOrder`), which is where
the runs of the file system calls start from.
-/

namespace Os1000.Proof

open Os1000 Lib

/-! ## Which disks can be loaded -/

/-- There is a header with a name and the right magic at `off`. -/
def IsMember (disk : Mem) (off : Nat) : Prop :=
  disk off ≠ 0 ∧ ∀ j, j ≤ ustar.length → disk (off + magicAt + j) = literal ustar j

/-- The size in the header at `off`. -/
def memberSize (disk : Mem) (off : Nat) : Nat := octValue disk (off + sizeAt) sizeofSize 0

/-- The record at `off` fits a `struct file`, and its data lies inside `disk[]`. -/
structure Acceptable (disk : Mem) (off : Nat) : Prop where
  name : ∃ k, k < fileNameSize ∧ Ends disk off k
  size : memberSize disk off ≤ fileDataSize
  data : off + sizeofTarHeader + memberSize disk off ≤ diskMaxSize

/-- The file the record at `off` describes. -/
def memberFile (disk : Mem) (off : Nat) : File where
  inUse := true
  name := fun j => disk (off + j)
  data := fun j => disk (off + sizeofTarHeader + j)
  size := memberSize disk off

/-- The next `n` records from `off` on, as far as there are any, are acceptable. -/
def Loadable (disk : Mem) : Nat → Nat → Prop
  | 0, _ => True
  | n + 1, off => IsMember disk off →
      Acceptable disk off ∧ Loadable disk n (off + recordSize (memberFile disk off))

section

variable {fs : Fs} {off i : Nat} {disk : Mem}

theorem IsMember.storable (hm : IsMember disk off) (ha : Acceptable disk off) :
    Storable (memberFile disk off) where
  name := by
    obtain ⟨k, hk, hend⟩ := ha.name
    refine ⟨k, ?_, hk, ⟨fun j hj => ?_, ?_⟩⟩
    · rcases Nat.eq_zero_or_pos k with h0 | hpos
      · exact absurd (h0 ▸ hend).zero hm.1
      · exact hpos
    · have := hend.nonzero j hj
      rwa [← Nat.zero_add j] at this
    · have := hend.zero
      rwa [← Nat.zero_add k] at this
  size := ha.size

theorem IsMember.member (hm : IsMember disk off) : Member disk off (memberFile disk off) where
  name _ _ _ _ _ := rfl
  magic := hm.2
  size := rfl
  data _ _ := rfl

theorem recordSize_le {f : File} (h : f.size ≤ fileDataSize) : recordSize f ≤ 1536 := by
  have h := recordSize_spec h
  have h1 : f.size ≤ 1024 := by assumption
  simp only [sizeofTarHeader, sectorSize] at h
  omega

/-- A record that is not acceptable makes `fs_init` leave an array or overflow. -/
theorem fsInitFile_refused (hin : off + sizeofTarHeader ≤ diskMaxSize)
    (ha : ¬ Acceptable fs.disk off) :
    fsInitFile fs off i
      = .error (if memberSize fs.disk off < 2 ^ 31 then .outOfBounds else .overflow) := by
  have hh : sizeofTarHeader = 512 := rfl
  have hn : fileNameSize = 100 := rfl
  have hoct : oct2int fs.disk (off + sizeAt) diskMaxSize sizeofSize 0
      = if memberSize fs.disk off < 2 ^ 31 then .ok (memberSize fs.disk off)
        else .error .overflow :=
    oct2int_eq _ _ _ _ _ (by simp only [sizeAt, sizeofSize]; omega) (by decide)
  unfold fsInitFile
  rw [hoct]
  by_cases hfit : memberSize fs.disk off < 2 ^ 31
  · rw [if_pos hfit, if_pos hfit, ok_bind]
    rcases exists_ends_or_nonzero fs.disk (off + nameAt) fileNameSize with ⟨k, hk, hend⟩ | hne
    · -- the name is copied, so the size or the place of the data is wrong
      have hdata : fileDataSize < memberSize fs.disk off
          ∨ diskMaxSize < off + sizeofTarHeader + memberSize fs.disk off := by
        by_contra hok
        exact ha ⟨⟨k, hk, hend⟩, by omega, by omega⟩
      rw [strcpy_ok hend (by simp only [nameAt]; omega) (by omega), ok_bind,
        memcpy_stops (Nat.zero_le _) hin (by omega), error_bind]
    · rw [strcpy_stops fun j hj => hne j (by omega), error_bind]
  · rw [if_neg hfit, if_neg hfit, error_bind]

/-- The loop of `fs_init` stays in bounds exactly when what it comes to is acceptable. -/
theorem fsInitLoop_in_bounds :
    ∀ (n i off : Nat) (fs : Fs), i + n = filesMax → off ≤ i * 1536 →
      ((fsInitLoop fs off i n = .error .panic ∨ ∃ fs', fsInitLoop fs off i n = .ok fs')
        ↔ Loadable fs.disk n off)
  | 0, _, _, fs, _, _ => ⟨fun _ => trivial, fun _ => Or.inr ⟨fs, rfl⟩⟩
  | n + 1, i, off, fs, hn, hoff => by
      have hmax : filesMax = 2 := rfl
      have hin : off + sizeofTarHeader ≤ diskMaxSize := by
        rw [diskMaxSize_eq]
        simp only [sizeofTarHeader]
        omega
      rw [fsInitLoop]
      by_cases h0 : fs.disk off = 0
      · rw [fsInitEntry_end (Nat.lt_of_lt_of_le (by simp [sizeofTarHeader]) hin) h0, ok_bind]
        exact ⟨fun _ hm => absurd h0 hm.1, fun _ => Or.inr ⟨fs, rfl⟩⟩
      · by_cases hmag : ∀ j, j ≤ ustar.length → fs.disk (off + magicAt + j) = literal ustar j
        · have hm : IsMember fs.disk off := ⟨h0, hmag⟩
          by_cases ha : Acceptable fs.disk off
          · obtain ⟨k, _, _, _, he⟩ :=
              fsInitEntry_member (i := i) hm.member (hm.storable ha) ha.data
            rw [he, ok_bind]
            have hrec := recordSize_le (f := memberFile fs.disk off) ha.size
            exact (fsInitLoop_in_bounds n (i + 1) _ _ (by omega) (by omega)).trans
              ⟨fun hrest _ => ⟨ha, hrest⟩, fun hl => (hl hm).2⟩
          · rw [fsInitEntry_named hin h0, if_pos hmag, fsInitFile_refused hin ha, error_bind,
              error_bind]
            refine ⟨fun h => ?_, fun hl => absurd (hl hm).1 ha⟩
            rcases h with h | ⟨fs', h⟩
            · split at h <;> cases h
            · cases h
        · rw [fsInitEntry_named hin h0, if_neg hmag, error_bind]
          exact ⟨fun _ hm => absurd hm.2 hmag, fun _ => Or.inl rfl⟩

end

/-! ## Small archives -/

/-- An archive of one member, with this name and these digits for its size. -/
def archive (name digits : List UInt8) : Mem :=
  let m := blit (fun _ => 0) nameAt (literal name) 0 name.length
  let m := blit m sizeAt (literal digits) 0 digits.length
  blit m magicAt (literal ustar) 0 ustar.length

/-- The file system at boot, with these bytes on a device of five sectors. -/
def bootFs (bytes : Mem) : Fs := ⟨noFiles, fun _ => 0, ⟨5, bytes⟩⟩

section

variable {bytes : Mem}

theorem boot_disk {x : Nat} (hx : x < diskMaxSize) : (readDisk (bootFs bytes)).disk x = bytes x :=
  (readDisk_spec (bootFs bytes) (show diskMaxSize / sectorSize ≤ 5 by decide)).2.2 x hx

theorem boot_size : memberSize (readDisk (bootFs bytes)).disk 0 = memberSize bytes 0 := by
  refine octValue_congr fun i hi => boot_disk ?_
  rw [diskMaxSize_eq]
  simp only [sizeAt, sizeofSize] at *
  omega

theorem boot_isMember (h : IsMember bytes 0) : IsMember (readDisk (bootFs bytes)).disk 0 := by
  refine ⟨?_, fun j hj => ?_⟩
  · rw [boot_disk (by decide)]
    exact h.1
  · rw [boot_disk]
    · exact h.2 j hj
    · have hlen : ustar.length = 5 := by decide
      rw [diskMaxSize_eq]
      simp only [magicAt]
      omega

theorem boot_acceptable (h : Acceptable (readDisk (bootFs bytes)).disk 0) : Acceptable bytes 0 := by
  obtain ⟨k, hk, hend⟩ := h.name
  refine ⟨⟨k, hk, hend.congr fun j hj => (boot_disk ?_).symm⟩, boot_size ▸ h.size, boot_size ▸ h.data⟩
  rw [diskMaxSize_eq]
  simp only [fileNameSize] at hk
  omega

/-- What stops at the first record. -/
theorem fsInit_refused (hm : IsMember bytes 0) (ha : ¬ Acceptable bytes 0) :
    fsInit (bootFs bytes)
      = .error (if memberSize bytes 0 < 2 ^ 31 then .outOfBounds else .overflow) := by
  have hm' := boot_isMember hm
  unfold fsInit
  rw [show filesMax = 1 + 1 from rfl, fsInitLoop, fsInitEntry_named (by decide) hm'.1, if_pos hm'.2,
    fsInitFile_refused (by decide) (ha ∘ boot_acceptable), error_bind, error_bind, boot_size]

theorem isMember_archive {c : UInt8} {name digits : List UInt8} (hc : c ≠ 0)
    (hn : (c :: name).length ≤ 100) (hd : digits.length ≤ 12) :
    IsMember (archive (c :: name) digits) 0 := by
  refine ⟨?_, fun j hj => ?_⟩
  · unfold archive
    simp only [nameAt, sizeAt, magicAt]
    rw [blit_outside (by omega), blit_outside (by omega)]
    rw [blit_front (by simp)]
    exact hc
  · unfold archive
    simp only [nameAt, sizeAt, magicAt]
    rcases Nat.lt_or_eq_of_le hj with hlt | heq
    · rw [Nat.zero_add, blit_inside hlt, Nat.zero_add]
    · have hlen : ustar.length = 5 := by decide
      rw [heq, hlen, blit_outside (by omega), blit_outside (by omega), blit_outside (by omega)]
      decide

end

/--
**`fs_init` stays in bounds on exactly the disks it can load.** It returns, or panics on a bad magic,
if and only if every record it comes to has a name of at most 99 bytes, at most 1024 bytes of data and
lies inside `disk[]`.
-/
theorem fsInit_in_bounds (fs : Fs) :
    (fsInit fs = .error .panic ∨ ∃ fs', fsInit fs = .ok fs')
      ↔ Loadable (readDisk fs).disk filesMax 0 :=
  fsInitLoop_in_bounds filesMax 0 0 (readDisk fs) (by omega) (by omega)

/-- It loads an archive of one member of seven bytes. -/
theorem fsInit_in_bounds_one :
    fsInit (bootFs (archive (ascii ['a']) (ascii ['7']))) = .error .panic
      ∨ ∃ fs', fsInit (bootFs (archive (ascii ['a']) (ascii ['7']))) = .ok fs' := by
  refine (fsInit_in_bounds _).mpr fun hm => ⟨⟨⟨1, by decide, ⟨fun j hj => ?_, ?_⟩⟩, ?_, ?_⟩, ?_⟩
  · obtain rfl : j = 0 := by omega
    exact hm.1
  · rw [boot_disk (by decide)]
    decide
  · rw [boot_size]
    decide
  · rw [boot_size]
    decide
  · -- there is no second record
    intro hm2
    have hnext : 0 + recordSize (memberFile (readDisk
        (bootFs (archive (ascii ['a']) (ascii ['7'])))).disk 0) = 1024 := by
      unfold recordSize memberFile
      rw [boot_size]
      decide
    rw [hnext] at hm2
    have h0 := hm2.1
    rw [boot_disk (by decide)] at h0
    exact absurd (by decide) h0

/--
An archive with a member of 2000 bytes, one with a name of 100 bytes, and one with a size of twelve
sevens.
-/
theorem fsInit_leaves_arrays :
    fsInit (bootFs (archive (ascii ['a']) (ascii ['3', '7', '2', '0']))) = .error .outOfBounds
    ∧ fsInit (bootFs (archive (List.replicate 100 97) [])) = .error .outOfBounds
    ∧ fsInit (bootFs (archive (ascii ['a']) (List.replicate 12 55))) = .error .overflow := by
  refine ⟨?_, ?_, ?_⟩
  · refine (fsInit_refused (isMember_archive (by decide) (by decide) (by decide)) ?_).trans ?_
    · exact fun h => absurd h.size (by decide)
    · rw [if_pos (by decide)]
  · refine (fsInit_refused (isMember_archive (by decide) (by decide) (by decide)) ?_).trans ?_
    · rintro ⟨⟨k, hk, hend⟩, _, _⟩
      have hk : k < 100 := hk
      have hlit : Ends (literal (List.replicate 100 97)) 0 100 :=
        ends_literal fun hc => absurd (List.eq_of_mem_replicate hc) (by decide)
      refine hlit.nonzero k hk ?_
      rw [← hend.zero]
      unfold archive
      simp only [nameAt, sizeAt, magicAt, List.length_nil, blit_zero]
      rw [blit_outside (by omega), blit_inside (by simpa using hk)]
      rfl
    · rw [if_pos (by decide)]
  · refine (fsInit_refused (isMember_archive (by decide) (by decide) (by decide)) ?_).trans ?_
    · exact fun h => absurd h.size (by decide)
    · rw [if_neg (by decide)]

/-! ## What `fs_init` leaves -/

/-- A file table in order. -/
structure InOrder (files : Nat → File) : Prop where
  table : Table files
  fits : RecordsFit files
  /-- An entry that is not in use has no name. -/
  nameless : ∀ i, i < filesMax → ¬ (files i).inUse → (files i).name 0 = 0
  size : ∀ i, i < filesMax → (files i).size ≤ fileDataSize

/-- The loop of `fs_init` has loaded `i` records. -/
structure Loaded (files : Nat → File) (i off : Nat) : Prop where
  off : off = offOf files i
  used : ∀ j, j < i → (files j).inUse
  storable : ∀ j, j < i → Storable (files j)
  fits : ∀ j, j < i → offOf files j + sizeofTarHeader + (files j).size ≤ diskMaxSize
  rest : ∀ j, i ≤ j → files j = noFiles j

section

variable {fs fs' : Fs} {files files' : Nat → File} {off i : Nat}

theorem offOf_congr (h : ∀ j, j < i → files' j = files j) : offOf files' i = offOf files i := by
  induction i with
  | zero => rfl
  | succ i ih =>
      rw [offOf, offOf, ih fun j hj => h j (by omega), h i (by omega)]

theorem Loaded.inOrder (hl : Loaded files i off) : InOrder files := by
  have hlt : ∀ j, (files j).inUse → j < i := by
    intro j hu
    by_contra hj
    rw [hl.rest j (by omega)] at hu
    cases hu
  have hrest : ∀ j, ¬ (files j).inUse → files j = noFiles j := by
    intro j hu
    by_cases hj : j < i
    · exact absurd (hl.used j hj) hu
    · exact hl.rest j (by omega)
  refine ⟨⟨?_, ?_⟩, ?_, ?_, ?_⟩
  · intro j j' hjj _ hu
    have := hlt j' hu
    exact hl.used j (by omega)
  · exact fun j _ hu => hl.storable j (hlt j hu)
  · exact fun j _ hu => hl.fits j (hlt j hu)
  · intro j _ hu
    rw [hrest j hu]
    rfl
  · intro j _
    by_cases hu : (files j).inUse
    · exact (hl.storable j (hlt j hu)).size
    · rw [hrest j hu]
      exact Nat.zero_le _

theorem Loaded.aligned (hl : Loaded files i off) : off % sectorSize = 0 := by
  have key : ∀ j, j ≤ i → offOf files j % sectorSize = 0 := by
    intro j
    induction j with
    | zero => exact fun _ => rfl
    | succ j ih =>
        intro hj
        have ih := ih (by omega)
        have hrec := (recordSize_spec (hl.storable j (by omega)).size).2.2
        rw [offOf_succ (hl.used j (by omega))]
        simp only [sectorSize] at ih hrec ⊢
        omega
  rw [hl.off]
  exact key i (Nat.le_refl i)

/-- A record that was read was there and acceptable. -/
theorem fsInitEntry_acceptable {r : Fs × Nat} (hal : off % sectorSize = 0)
    (h : fsInitEntry fs off i = .ok (some r)) : IsMember fs.disk off ∧ Acceptable fs.disk off := by
  have hb : diskMaxSize = 2560 := diskMaxSize_eq
  have hh : sizeofTarHeader = 512 := rfl
  have hs : sectorSize = 512 := rfl
  have hn : off + nameAt = off := rfl
  have hlt : off < diskMaxSize := by
    by_contra hge
    unfold fsInitEntry at h
    rw [hn, loadAt_stops (by omega), error_bind] at h
    cases h
  by_cases h0 : fs.disk off = 0
  · rw [fsInitEntry_end hlt h0] at h
    cases h
  · rw [hs] at hal
    rw [fsInitEntry_named (by omega) h0] at h
    by_cases hmag : ∀ j, j ≤ ustar.length → fs.disk (off + magicAt + j) = literal ustar j
    · refine ⟨⟨h0, hmag⟩, ?_⟩
      by_contra ha
      rw [if_pos hmag, fsInitFile_refused (by omega) ha, error_bind] at h
      cases h
    · rw [if_neg hmag] at h
      cases h

theorem loadedFile_storable {old : File} {disk : Mem} {k size : Nat} (hpos : 0 < k)
    (hk : k < fileNameSize) (hend : Ends disk (off + nameAt) k) (hs : size ≤ fileDataSize) :
    Storable (loadedFile old disk off k size) where
  name := by
    refine ⟨k, hpos, hk, hend.congr fun j hj => ?_⟩
    exact blit_inside (by omega)
  size := hs

/-- One record more. -/
theorem Loaded.step (hl : Loaded fs.files i off) {off' : Nat}
    (h : fsInitEntry fs off i = .ok (some (fs', off'))) : Loaded fs'.files (i + 1) off' := by
  obtain ⟨hm, ha⟩ := fsInitEntry_acceptable hl.aligned h
  obtain ⟨k, hpos, hk, hend, he⟩ := fsInitEntry_member (i := i) hm.member (hm.storable ha) ha.data
  rw [he] at h
  injection h with h
  injection h with h
  injection h with hfs hoff
  have hdisk : Ends fs.disk (off + nameAt) k := by
    refine hend.congr fun j _ => ?_
    show fs.disk (off + 0 + j) = fs.disk (off + (0 + j))
    rw [Nat.add_assoc]
  obtain ⟨new, hnew⟩ : ∃ new, loadedFile (fs.files i) fs.disk off k
      (memberFile fs.disk off).size = new := ⟨_, rfl⟩
  have hfiles : fs'.files = Function.update fs.files i new := by
    rw [← hfs, ← hnew]
  have hi : fs'.files i = new := by
    rw [hfiles, Function.update_self]
  have hold : ∀ j, j ≠ i → fs'.files j = fs.files j := by
    intro j hj
    rw [hfiles, Function.update_of_ne hj]
  have hoffs : ∀ j, j ≤ i → offOf fs'.files j = offOf fs.files j :=
    fun j hj => offOf_congr fun j' hj' => hold j' (by omega)
  have hst : Storable new := by
    rw [← hnew]
    exact loadedFile_storable hpos hk hdisk ha.size
  have hsize : new.size = memberSize fs.disk off := by
    rw [← hnew]
    rfl
  have huse : new.inUse := by
    rw [← hnew]
    rfl
  refine ⟨?_, ?_, ?_, ?_, ?_⟩
  · rw [offOf_succ (hi ▸ huse), hoffs i (Nat.le_refl i), hi, ← hl.off, ← hoff]
    unfold recordSize
    rw [hsize]
    rfl
  · intro j hj
    by_cases hji : j = i
    · rw [hji, hi]; exact huse
    · rw [hold j hji]; exact hl.used j (by omega)
  · intro j hj
    by_cases hji : j = i
    · rw [hji, hi]; exact hst
    · rw [hold j hji]; exact hl.storable j (by omega)
  · intro j hj
    rw [hoffs j (by omega)]
    by_cases hji : j = i
    · rw [hji, hi, hsize, ← hl.off]; exact ha.data
    · rw [hold j hji]; exact hl.fits j (by omega)
  · intro j hj
    rw [hold j (by omega)]
    exact hl.rest j (by omega)

theorem fsInitLoop_inOrder :
    ∀ (n i off : Nat) (fs : Fs), i + n = filesMax → Loaded fs.files i off →
      fsInitLoop fs off i n = .ok fs' → InOrder fs'.files
  | 0, i, _, fs, hn, hl, h => by
      injection h with h
      rw [← h]
      exact hl.inOrder
  | n + 1, i, off, fs, hn, hl, h => by
      rw [fsInitLoop] at h
      obtain ⟨r, hr, h⟩ := bind_eq_ok.mp h
      cases r with
      | none =>
          have h : fs = fs' := by simpa using h
          rw [← h]
          exact hl.inOrder
      | some next => exact fsInitLoop_inOrder n (i + 1) next.2 next.1 (by omega) (hl.step hr) h

/-- **After `fs_init`** from zeroed files the file table is in order. -/
theorem fsInit_inOrder {disk : Mem} {device : Device} (h : fsInit ⟨noFiles, disk, device⟩ = .ok fs) :
    InOrder fs.files := by
  refine fsInitLoop_inOrder filesMax 0 0 _ (by omega) ⟨rfl, by omega, by omega, by omega, ?_⟩ h
  have hfiles : (readDisk ⟨noFiles, disk, device⟩).files = noFiles :=
    loop_inv (fun _ (t : Fs) => t.files = noFiles) (diskMaxSize / sectorSize) rfl fun i t _ ht => by
      unfold readSector
      split
      · exact ht
      · exact ht
  intro j _
  rw [hfiles]

end

end Os1000.Proof
