import Os1000.Proof.Archive

/-!
# The checksums of the archive

A tar header carries the sum of its own bytes, with the eight bytes of the checksum
field counted as spaces, in six octal digits. `fs_flush` adds up the header while the
field is still zero and adds the eight spaces by hand. The digits it stores then end
at the first of the two bytes it leaves zero.

`Sealed` is what a reader of the archive checks. It depends on the bytes of one record
only, so it goes through the loop of `fs_flush` the way `Member` does.
-/

namespace Os1000.Proof

open Os1000 Lib

/-- The sum of the header at `off`, with the checksum field counted as spaces. -/
def tarSum (disk : Mem) (off : Nat) : Nat :=
  byteSum (blit disk (off + checksumAt) (fun _ => 32) 0 sizeofChecksum) off sizeofTarHeader

/-- The header at `off` is that of a file of `f.size` bytes, and its checksum is right. -/
structure Sealed (disk : Mem) (off : Nat) (f : File) : Prop where
  checksum : octValue disk (off + checksumAt) sizeofChecksum 0 = tarSum disk off
  digits : tarSum disk off < 8 ^ 6
  size : octValue disk (off + sizeAt) sizeofSize 0 = f.size

section

variable {f : File} {disk disk' : Mem} {off k : Nat}

/-- The sum is that of the bytes before the field and behind it, and of eight spaces. -/
theorem tarSum_eq (disk : Mem) (off : Nat) : tarSum disk off
    = byteSum disk off 148 + 8 * 32 + byteSum disk (off + 148 + 8) 356 := by
  unfold tarSum
  simp only [checksumAt, sizeofChecksum, sizeofTarHeader]
  have hfill := byteSum_fill (m := blit disk (off + 148) (fun _ => 32) 0 8) (a := off) (c := 32)
    148 8 356 fun i hi => blit_inside hi
  have hbefore : byteSum (blit disk (off + 148) (fun _ => 32) 0 8) off 148 = byteSum disk off 148 :=
    byteSum_congr fun i hi => blit_outside (by omega)
  have hbehind : byteSum (blit disk (off + 148) (fun _ => 32) 0 8) (off + 148 + 8) 356
      = byteSum disk (off + 148 + 8) 356 :=
    byteSum_congr fun i hi => blit_outside (by omega)
  rw [hbefore, hbehind] at hfill
  exact hfill

theorem tarSum_lt (disk : Mem) (off : Nat) : tarSum disk off < 8 ^ 6 := by
  have hle : tarSum disk off ≤ 512 * 255 := byteSum_le
  omega

theorem tarSum_congr (he : ∀ x, off ≤ x → x < off + sizeofTarHeader → disk' x = disk x) :
    tarSum disk' off = tarSum disk off := by
  simp only [sizeofTarHeader] at he
  have hbefore : byteSum disk' off 148 = byteSum disk off 148 :=
    byteSum_congr fun i hi => he _ (by omega) (by omega)
  have hbehind : byteSum disk' (off + 148 + 8) 356 = byteSum disk (off + 148 + 8) 356 :=
    byteSum_congr fun i hi => he _ (by omega) (by omega)
  rw [tarSum_eq, tarSum_eq, hbefore, hbehind]

/-- A seal depends on the bytes of its header only. -/
theorem Sealed.congr (hs : Sealed disk off f)
    (he : ∀ x, off ≤ x → x < off + sizeofTarHeader → disk' x = disk x) : Sealed disk' off f := by
  have hsum := tarSum_congr he
  simp only [sizeofTarHeader] at he
  have hchecksum : octValue disk' (off + checksumAt) sizeofChecksum 0
      = octValue disk (off + checksumAt) sizeofChecksum 0 := by
    refine octValue_congr fun i hi => he _ (by omega) ?_
    simp only [checksumAt, sizeofChecksum] at hi ⊢
    omega
  have hsize : octValue disk' (off + sizeAt) sizeofSize 0
      = octValue disk (off + sizeAt) sizeofSize 0 := by
    refine octValue_congr fun i hi => he _ (by omega) ?_
    simp only [sizeAt, sizeofSize] at hi ⊢
    omega
  exact ⟨hchecksum.trans (hs.checksum.trans hsum.symm), hsum.symm ▸ hs.digits, hsize.trans hs.size⟩

/-! ## What `fs_flush` stores -/

/-- The checksum field is zero while the sum is taken. -/
theorem blankHeader_field (hk : k < fileNameSize) {i : Nat} (hi : i < 8) :
    blankHeader disk off f k (off + 148 + i) = 0 := by
  simp only [fileNameSize] at hk
  unfold blankHeader
  simp only [nameAt, modeAt, magicAt, versionAt, typeAt, sizeAt, sizeofSize, sizeofTarHeader]
  rw [blit_outside (by omega), blit_outside (by omega), blit_outside (by omega),
    blit_outside (by omega), blit_outside (by omega), blit_outside (by omega),
    Nat.add_assoc, blit_inside (by omega)]

/-- The header as it ends up: digits in the field, the rest as it was when the sum was taken. -/
theorem recordImage_header {checksum j : Nat} (hj : j < 512) :
    recordImage disk off f k checksum (off + j)
      = blit (blankHeader disk off f k) (off + 148) (octal 6 checksum) 0 6 (off + j) := by
  unfold recordImage headerImage
  rw [blit_outside (by simp only [sizeofTarHeader]; omega)]
  rfl

/-- What `fs_flush` adds up is the sum of the header it leaves. -/
theorem tarSum_recordImage (hk : k < fileNameSize) (checksum : Nat) :
    tarSum (recordImage disk off f k checksum) off = headerSum disk off f k := by
  have hbefore : byteSum (recordImage disk off f k checksum) off 148
      = byteSum (blankHeader disk off f k) off 148 :=
    byteSum_congr fun i hi => by rw [recordImage_header (by omega), blit_outside (by omega)]
  have hbehind : byteSum (recordImage disk off f k checksum) (off + 148 + 8) 356
      = byteSum (blankHeader disk off f k) (off + 148 + 8) 356 :=
    byteSum_congr fun i hi => by
      rw [Nat.add_assoc off, Nat.add_assoc off, recordImage_header (by omega),
        blit_outside (by omega)]
  have hblank := byteSum_fill (m := blankHeader disk off f k) (a := off) (c := 0) 148 8 356
    fun i hi => blankHeader_field hk hi
  rw [tarSum_eq, hbefore, hbehind]
  show _ = 32 * 8 + byteSum (blankHeader disk off f k) off (148 + 8 + 356)
  rw [hblank]
  show _ = 32 * 8 + (byteSum (blankHeader disk off f k) off 148 + 8 * 0
    + byteSum (blankHeader disk off f k) (off + 148 + 8) 356)
  omega

/-- The six digits are read back, up to the zero behind them. -/
theorem octValue_checksum (hk : k < fileNameSize) (checksum : Nat) :
    octValue (recordImage disk off f k checksum) (off + checksumAt) sizeofChecksum 0
      = checksum % 8 ^ 6 := by
  simp only [checksumAt, sizeofChecksum]
  have hdigit : ∀ i, i < 6 →
      recordImage disk off f k checksum (off + 148 + i) = octal 6 checksum i := by
    intro i hi
    rw [Nat.add_assoc, recordImage_header (by omega), ← Nat.add_assoc, blit_inside hi,
      Nat.zero_add]
  have hend : recordImage disk off f k checksum (off + 148 + 6) = 0 := by
    rw [Nat.add_assoc, recordImage_header (by omega), ← Nat.add_assoc, blit_outside (by omega),
      blankHeader_field hk (by omega)]
  have hdigits : ∀ i, i < 6 →
      octDigit (recordImage disk off f k checksum (off + 148 + i)) ≠ none := by
    intro i hi
    rw [hdigit i hi]
    exact octDigit_octal i
  have hstop : octDigit (recordImage disk off f k checksum (off + 148 + 6)) = none := by
    rw [hend]
    rfl
  rw [octValue_add hdigits 2, octValue_end hstop, octValue_octal hdigit, Nat.zero_mul, Nat.zero_add]

theorem recordImage_sealed (hk : k < fileNameSize) (hend : Ends f.name 0 k)
    (hs : f.size ≤ fileDataSize) :
    Sealed (recordImage disk off f k (headerSum disk off f k)) off f where
  checksum := by
    have hlt := tarSum_lt (recordImage disk off f k (headerSum disk off f k)) off
    rw [tarSum_recordImage hk] at hlt ⊢
    rw [octValue_checksum hk, Nat.mod_eq_of_lt hlt]
  digits := tarSum_lt _ _
  size := (recordImage_member hk hend hs).size

/-- `fs_flush` seals every record it writes. -/
theorem emits_sealed : Emits Writable Sealed where
  size _ hf := hf.size
  write disk off f hf hfit := by
    obtain ⟨k, hk, hend⟩ := hf.name
    have hsize := hf.size
    rw [flushFile_header disk off hk hend hf.size (by omega), memcpy_ok hfit (by omega)]
    exact ⟨_, rfl, recordImage_sealed hk hend hf.size, fun x hx => recordImage_outside hk hx⟩
  congr disk disk' off f hs he := hs.congr fun x h1 h2 => he x h1 (by omega)

end

/-- When every record fits, `fs_flush` seals all of them, in `disk[]` and on the device. -/
theorem fsFlush_sealed (fs : Fs)
    (hw : ∀ i, i < filesMax → (fs.files i).inUse → Writable (fs.files i))
    (hfit : RecordsFit fs.files) :
    ∃ fs', fsFlush fs = .ok fs' ∧ ∀ i, i < filesMax → (fs.files i).inUse →
      Sealed fs'.disk (offOf fs.files i) (fs.files i)
        ∧ (diskMaxSize / sectorSize ≤ fs.device.capacity →
          Sealed fs'.device.bytes (offOf fs.files i) (fs.files i)) := by
  obtain ⟨fs', off, hflush, hs, _, _, hbytes⟩ := fsFlush_of_loop fs (FlushedBy Sealed fs.files)
    (fun disk hz => ⟨rfl, by omega, fun x _ hx => hz x hx⟩)
    fun i s hi hs => emits_sealed.entry hw hfit hi hs
  refine ⟨fs', hflush, fun i hi hu => ⟨hs.record i hi hu, fun hcap => ?_⟩⟩
  refine (hs.record i hi hu).congr fun x _ hx => hbytes hcap x ?_
  have := hfit i hi hu
  omega

/--
**Valid checksums.** Whatever the names, of up to 99 bytes, the sizes, of up to 1024, and the data
of the files in use: when their records lie inside `disk[]`, `fs_flush` returns; and whenever it
returns, the header of every file in use, in `disk[]` and on a device that holds all of it, has the
sum of its bytes in its checksum field, in six digits, and the size of the file in its size field.
-/
theorem flush_checksums_valid (fs : Fs)
    (hw : ∀ i, i < filesMax → (fs.files i).inUse → Writable (fs.files i)) :
    (RecordsFit fs.files → ∃ fs', fsFlush fs = .ok fs')
      ∧ ∀ fs', fsFlush fs = .ok fs' → ∀ i, i < filesMax → (fs.files i).inUse →
        Sealed fs'.disk (offOf fs.files i) (fs.files i)
          ∧ (diskMaxSize / sectorSize ≤ fs.device.capacity →
            Sealed fs'.device.bytes (offOf fs.files i) (fs.files i)) := by
  refine ⟨fun hfit => ?_, fun fs' h i hi hu => ?_⟩
  · obtain ⟨fs', hflush, _⟩ := fsFlush_sealed fs hw hfit
    exact ⟨fs', hflush⟩
  · obtain ⟨fs₁, hflush, hsealed⟩ := fsFlush_sealed fs hw (recordsFit_of_flushed hw h)
    obtain rfl : fs' = fs₁ := Except.ok.inj (h.symm.trans hflush)
    exact hsealed i hi hu

theorem flush_checksums_valid_two :
    ∃ fs', fsFlush ⟨sampleFiles, fun _ => 1, ⟨5, fun _ => 2⟩⟩ = .ok fs'
      ∧ Sealed fs'.device.bytes 0 (sampleFiles 0) ∧ Sealed fs'.device.bytes 1536 (sampleFiles 1) := by
  have hboth := flush_checksums_valid ⟨sampleFiles, fun _ => 1, ⟨5, fun _ => 2⟩⟩
    fun i hi hu => (sampleFiles_table.storable i hi hu).writable
  obtain ⟨fs', hflush⟩ := hboth.1 (sampleFiles_table.fits (by decide))
  have hseal := hboth.2 fs' hflush
  exact ⟨fs', hflush, (hseal 0 (by decide) rfl).2 (by decide), (hseal 1 (by decide) rfl).2 (by decide)⟩

end Os1000.Proof
