import Os1000.Proof.FileRuns

/-!
# What `fs_lookup` finds

`fs_lookup` compares names and does not look at `in_use`. After `fs_init`, and after
every call that has returned, an entry that is not in use has the empty name, so the
two agree for every other name: the entry found is the first file in use that is
called so. The empty name finds an entry that is not in use, and a write there reports
success although `fs_flush` skips the entry.

No assumption on the calls of the run is needed for this. Whatever length a call asks
for, one that returned has copied at most 1024 bytes, and its `fs_flush` had room for
every record.
-/

namespace Os1000.Proof

open Os1000 Lib

/-- `f` is called what the string of `k` bytes at `filename` says, byte for byte. -/
def SameName (f : File) (user : Mem) (filename k : Nat) : Prop :=
  ∀ j, j ≤ k → f.name j = user (filename + j)

/-- `r` is the first file in use with this name, or there is none. -/
def Found (files : Nat → File) (user : Mem) (filename k : Nat) : Option Nat → Prop
  | some i => i < filesMax ∧ (files i).inUse ∧ SameName (files i) user filename k
      ∧ ∀ j, j < i → ¬ ((files j).inUse ∧ SameName (files j) user filename k)
  | none => ∀ j, j < filesMax → ¬ ((files j).inUse ∧ SameName (files j) user filename k)

section

variable {fs fs' : Fs} {files : Nat → File} {c : FileCall} {user : Mem} {filename k i : Nat}

/-- Names are the same when their texts are. -/
theorem sameName_iff (hg : InOrder files) (hi : i < filesMax) (hend : Ends user filename k) :
    SameName (files i) user filename k ↔ fileName (files i) = text user filename fileNameSize := by
  obtain ⟨k', hk', hend'⟩ := hg.ends hi
  refine Iff.trans ?_ (hend'.text_eq_iff hk')
  constructor
  · intro h
    have hname : Ends (files i).name 0 k := hend.congr fun j hj => by rw [Nat.zero_add]; exact h j hj
    obtain rfl : k' = k := hname.unique hend'
    intro j hj
    rw [Nat.zero_add]
    exact h j hj
  · intro h
    have huser : Ends user filename k' := hend'.congr fun j hj => (h j hj).symm
    obtain rfl : k' = k := hend.unique huser
    intro j hj
    have := h j hj
    rwa [Nat.zero_add] at this

/-- A string that is not empty is the name of files in use only. -/
theorem inUse_of_sameName (hg : InOrder files) (hi : i < filesMax) (hend : Ends user filename k)
    (hname : 0 < k ∨ ∀ i, i < filesMax → (files i).inUse) (h : SameName (files i) user filename k) :
    (files i).inUse := by
  rcases hname with hpos | hall
  · by_contra hu
    have h0 : user filename = 0 := (h 0 (Nat.zero_le k)).symm.trans (hg.nameless i hi hu)
    exact hend.nonzero 0 hpos h0
  · exact hall i hi

/-- **What `fs_lookup` finds.** -/
theorem fsLookup_found (hg : InOrder fs.files) (hend : Ends user filename k)
    (hname : 0 < k ∨ ∀ i, i < filesMax → (fs.files i).inUse) :
    ∃ r, fsLookup fs user filename = .ok r ∧ Found fs.files user filename k r := by
  rcases fsLookup_spec hg ⟨user, false, filename, 0, 0⟩ with ⟨i, ⟨hi, hsame, hfirst⟩, hl⟩ | ⟨hno, hl⟩
  · have hsame : SameName (fs.files i) user filename k := (sameName_iff hg hi hend).mpr hsame
    refine ⟨some i, hl, hi, inUse_of_sameName hg hi hend hname hsame, hsame, fun j hj h => ?_⟩
    exact hfirst j hj ((sameName_iff hg (by omega) hend).mp h.2)
  · exact ⟨none, hl, fun j hj h => hno j hj ((sameName_iff hg hj hend).mp h.2)⟩

/-- A file in use has a name, so the empty one finds an entry that is not in use if there is one. -/
theorem fsLookup_empty (hg : InOrder fs.files) (hend : Ends user filename 0) {r : Option Nat}
    (hl : fsLookup fs user filename = .ok r) (hf : Found fs.files user filename 0 r)
    (hi : i < filesMax) : (fs.files i).inUse := by
  have hempty : text user filename fileNameSize = [] := text_nil hend.zero
  by_contra hu
  have hname : fileName (fs.files i) = text user filename fileNameSize := by
    rw [hempty]
    exact not_not.mp (mt (hg.inUse_iff hi).mpr hu)
  rcases fsLookup_spec hg ⟨user, false, filename, 0, 0⟩ with ⟨j, ⟨hj, hsame, _⟩, hl'⟩ | ⟨hno, _⟩
  · obtain rfl : r = some j := Except.ok.inj (hl.symm.trans hl')
    exact (hg.inUse_iff hj).mp hf.2.1 (hsame.trans hempty)
  · exact hno i hi hname

/-! ## Calls that returned -/

/-- The call with another length. -/
def FileCall.withLen (c : FileCall) (n : Nat) : FileCall := { c with a2 := BitVec.ofNat 32 n }

theorem withLen_len {n : Nat} (h : n ≤ fileDataSize) : (FileCall.withLen c n).len = n := by
  have h : n ≤ 1024 := h
  show (BitVec.ofNat 32 n).toInt = n
  rw [BitVec.toInt_ofNat', Int.bmod_eq_of_le (by omega) (by omega)]

/--
A write that returned has copied as many bytes as it reports, at most 1024 of them, and flushed. It
may be fewer than it was asked for, but it is what a call for so many bytes would have done.
-/
theorem write_returned {r : FileReturn} (hl : fsLookup fs c.user c.filename = .ok (some i))
    (hw : c.write = true) (h : handleFileCall fs c = .ok (fs', r)) :
    ∃ n, n ≤ fileDataSize ∧ r.a0 = (n : Int)
      ∧ fsFlush { fs with files := written fs.files (FileCall.withLen c n) i } = .ok fs' := by
  unfold handleFileCall fileCallWith at h
  rw [hl, ok_bind] at h
  dsimp only at h
  rw [if_pos hw] at h
  obtain ⟨data, hcopy, h⟩ := bind_eq_ok.mp h
  obtain ⟨fs₁, hflush, h⟩ := bind_eq_ok.mp h
  generalize hlen : (if (fileDataSize : Int) < c.len then i32 (fs.files i).size else c.len) = len
    at hcopy hflush h
  obtain ⟨hn, _, hdata⟩ := memcpy_bounds (Nat.zero_le _) (Nat.le_add_right _ _) hcopy
  -- a negative length would have been a copy of 2 GiB and more
  have hrange : -2 ^ 31 ≤ len ∧ len < 2 ^ 31 := by
    rw [← hlen]
    split
    · unfold i32
      omega
    · exact ⟨c.a2.le_toInt, c.a2.toInt_lt⟩
  obtain ⟨n, rfl⟩ : ∃ n : Nat, len = n := by
    refine ⟨(len % 2 ^ 32).toNat, ?_⟩
    simp only [fileDataSize] at hn
    omega
  have hle : n ≤ fileDataSize := by
    simp only [fileDataSize] at hn ⊢
    omega
  rw [size_int hle] at hdata hflush
  have hret := pure_eq_ok.mp h
  injection hret with h1 h2
  refine ⟨n, hle, by rw [← h2], ?_⟩
  unfold written
  rw [withLen_len hle, Int.toNat_natCast, ← h1]
  exact hdata ▸ hflush

/-- What a write that returned leaves: the files in order, and the archive of them in `disk[]`. -/
theorem write_leaves {r : FileReturn} (hg : InOrder fs.files)
    (hl : fsLookup fs c.user c.filename = .ok (some i)) (hw : c.write = true)
    (h : handleFileCall fs c = .ok (fs', r)) :
    ∃ n, n ≤ fileDataSize ∧ r.a0 = (n : Int)
      ∧ fs'.files = written fs.files (FileCall.withLen c n) i ∧ InOrder fs'.files
      ∧ Image fs'.files fs'.disk
      ∧ (diskMaxSize / sectorSize ≤ fs.device.capacity →
        ∀ x, x < diskMaxSize → fs'.device.bytes x = fs'.disk x) := by
  obtain ⟨n, hn, hret, hflush⟩ := write_returned hl hw h
  have hlen : (FileCall.withLen c n).len ≤ fileDataSize := by
    rw [withLen_len hn]
    exact Int.ofNat_le.mpr hn
  have hst := (written_table (i := i) hg hlen).1.storable
  have hfit := recordsFit_of_flushed (fun j hj hu => (hst j hj hu).writable) hflush
  obtain ⟨fs₁, hflush₁, hfiles, himg, _, hbytes⟩ := fsFlush_ok _ hst hfit
  obtain rfl : fs' = fs₁ := Except.ok.inj (hflush.symm.trans hflush₁)
  refine ⟨n, hn, hret, hfiles, ?_, ?_, hbytes⟩
  · rw [hfiles]
    exact hg.of_fits hlen hfit
  · rw [hfiles]
    exact himg

/-- **Every call that returned leaves the files in order.** -/
theorem fileStep_inOrder (hg : InOrder fs.files) {l : FileCall × Int} (hs : FileStep fs l fs') :
    InOrder fs'.files := by
  obtain ⟨user, hs⟩ := hs
  rcases fsLookup_spec hg l.1 with ⟨i, _, hl⟩ | ⟨_, hl⟩
  · cases hw : l.1.write with
    | true =>
        obtain ⟨_, _, _, _, hg', _⟩ := write_leaves hg hl hw hs
        exact hg'
    | false =>
        rw [handle_read_only hw hs]
        exact hg
  · rw [handle_missing hl] at hs
    injection hs with hs
    injection hs with h1 _
    exact h1 ▸ hg

theorem fileRun_inOrder {tr : List (FileCall × Int)} (hr : Run FsBooted FileStep tr fs) :
    InOrder fs.files :=
  hr.invariant (fun _ h => booted_inOrder h) fun _ _ _ hg hs => fileStep_inOrder hg hs

/-- A write that did not report an error is in the file it has found, and that file is on the disk. -/
theorem write_stored (hg : InOrder fs.files) (hend : Ends c.user c.filename k)
    (hname : 0 < k ∨ ∀ i, i < filesMax → (fs.files i).inUse) (hw : c.write = true) {a0 : Int}
    (hs : FileStep fs (c, a0) fs') (ha0 : a0 ≠ -1) :
    ∃ i n : Nat, Found fs.files c.user c.filename k (some i) ∧ a0 = (n : Int)
      ∧ (fs'.files i).inUse ∧ contents (fs'.files i) = (List.range n).map (fun j => c.user (c.buf + j))
      ∧ Member fs'.disk (offOf fs'.files i) (fs'.files i)
      ∧ (diskMaxSize / sectorSize ≤ fs.device.capacity →
        Member fs'.device.bytes (offOf fs'.files i) (fs'.files i)) := by
  obtain ⟨user, hs⟩ := hs
  obtain ⟨r, hl, hfound⟩ := fsLookup_found hg hend hname
  cases r with
  | none =>
      rw [handle_missing hl] at hs
      injection hs with hs
      injection hs with _ h2
      injection h2 with h2 _
      exact absurd h2.symm ha0
  | some i =>
      obtain ⟨n, hn, hret, hfiles, hg', himg, hbytes⟩ := write_leaves hg hl hw hs
      have hu : (fs'.files i).inUse := by
        rw [hfiles, written_inUse]
        exact hfound.2.1
      have hmem := himg.member i hfound.1 hu
      refine ⟨i, n, hfound, hret, hu, ?_, hmem, fun hcap => ?_⟩
      · rw [hfiles]
        refine contents_written.trans ?_
        unfold passed
        rw [withLen_len hn, Int.toNat_natCast]
        rfl
      · refine hmem.congr fun x _ hx => hbytes hcap x ?_
        exact Nat.lt_of_lt_of_le hx (hg'.fits i hfound.1 hu)

end

/--
**`fs_lookup` finds existing files.** In every state that `fs_init` and any calls reach, the lookup
of a name returns the first file in use of that name, or nothing if there is none, exactly when the
name is not empty or all entries are in use. A `SYS_WRITEFILE` under such a name that does not
report an error has put its bytes into that file, and `fs_flush` has written the file to `disk[]`
and to a device that holds all of it.
-/
theorem lookup_finds_files {tr : List (FileCall × Int)} {fs : Fs} (hr : Run FsBooted FileStep tr fs)
    {user : Mem} {filename k : Nat} (hend : Ends user filename k) :
    ((∃ r, fsLookup fs user filename = .ok r ∧ Found fs.files user filename k r)
      ↔ 0 < k ∨ ∀ i, i < filesMax → (fs.files i).inUse)
    ∧ ((0 < k ∨ ∀ i, i < filesMax → (fs.files i).inUse) →
      ∀ buf a2 a0 fs', FileStep fs (⟨user, true, filename, buf, a2⟩, a0) fs' → a0 ≠ -1 →
      ∃ i n : Nat, Found fs.files user filename k (some i) ∧ a0 = (n : Int) ∧ (fs'.files i).inUse
        ∧ contents (fs'.files i) = (List.range n).map (fun j => user (buf + j))
        ∧ Member fs'.disk (offOf fs'.files i) (fs'.files i)
        ∧ (diskMaxSize / sectorSize ≤ fs.device.capacity →
          Member fs'.device.bytes (offOf fs'.files i) (fs'.files i))) := by
  have hg := fileRun_inOrder hr
  refine ⟨⟨fun ⟨r, hl, hf⟩ => ?_, fsLookup_found hg hend⟩, fun hname buf a2 a0 fs' hs ha0 => ?_⟩
  · rcases Nat.eq_zero_or_pos k with rfl | hpos
    · exact Or.inr fun i hi => fsLookup_empty hg hend hl hf hi
    · exact Or.inl hpos
  · exact write_stored (c := ⟨user, true, filename, buf, a2⟩) hg hend hname rfl hs ha0

/-- The lookup of `b` in the small archive, and a write of 500 bytes to it. -/
theorem lookup_finds_files_b : ∃ fs, FsBooted fs
    ∧ (∃ r, fsLookup fs (literal (ascii ['b'])) 0 = .ok r
      ∧ Found fs.files (literal (ascii ['b'])) 0 1 r)
    ∧ ∃ fs', FileStep fs (callB true 500, 500) fs' ∧ ∃ i, (fs'.files i).inUse
      ∧ Member fs'.disk (offOf fs'.files i) (fs'.files i) := by
  obtain ⟨fs, fs', hb, _, hstep, _⟩ := sample_written
  have hend : Ends (literal (ascii ['b'])) 0 1 := ends_literal (by decide)
  have hname : 0 < 1 ∨ ∀ i, i < filesMax → (fs.files i).inUse := Or.inl (by decide)
  obtain ⟨hl, hstore⟩ := lookup_finds_files (.start hb) hend
  obtain ⟨i, _, _, _, hu, _, hmem, _⟩ := hstore hname 0 500 500 fs' hstep (by decide)
  exact ⟨fs, hb, hl.mpr hname, fs', hstep, i, hu, hmem⟩

/-- A device without files boots. -/
theorem empty_booted : ∃ fs, FsBooted fs ∧ fs.files = noFiles := by
  obtain ⟨hfiles, _, hread⟩ := readDisk_spec (bootFs fun _ => 0) (show _ ≤ 5 by decide)
  have hinit : fsInit (bootFs fun _ => 0) = .ok (readDisk (bootFs fun _ => 0)) := by
    unfold fsInit
    rw [show filesMax = 1 + 1 from rfl, fsInitLoop,
      fsInitEntry_end (by decide) (hread 0 (by decide)), ok_bind]
    rfl
  exact ⟨_, ⟨_, _, hinit⟩, hfiles⟩

/-- A call under the empty name, for three bytes. -/
def callEmpty : FileCall := ⟨fun _ => 0, true, 0, 0, 3⟩

/--
Booted from a device without files, the empty name finds entry 0, which is not in use. A write of
three bytes there reports success, and `disk[]` is all zero after it.
-/
theorem lookup_finds_no_file : ∃ fs, FsBooted fs
    ∧ fsLookup fs callEmpty.user callEmpty.filename = .ok (some 0) ∧ (fs.files 0).inUse = false
    ∧ ∃ fs', FileStep fs (callEmpty, 3) fs' ∧ (fs'.files 0).inUse = false
      ∧ ∀ x, x < diskMaxSize → fs'.disk x = 0 := by
  obtain ⟨fs, hb, hnone⟩ := empty_booted
  have hl : fsLookup fs callEmpty.user callEmpty.filename = .ok (some 0) := by
    have hd : Denotes fs.files (callName callEmpty) 0 := by
      rw [hnone]
      exact ⟨by decide, rfl, by omega⟩
    rcases fsLookup_spec (booted_inOrder hb) callEmpty with ⟨i, hd', hl⟩ | ⟨hno, _⟩
    · rw [hd.unique hd']
      exact hl
    · exact absurd hd.2.1 (hno 0 hd.1)
  have hunused : ∀ i, (written fs.files callEmpty 0 i).inUse = false := by
    intro i
    rw [written_inUse, hnone]
    rfl
  have hno : ∀ i, ¬ (written fs.files callEmpty 0 i).inUse := fun i => by simp [hunused i]
  obtain ⟨fs', hflush, hfiles, himg, _⟩ := fsFlush_ok { fs with files := written fs.files callEmpty 0 }
    (fun i _ hu => absurd hu (hno i)) fun i _ hu => absurd hu (hno i)
  have hoff : offOf (written fs.files callEmpty 0) filesMax = 0 := by
    rw [show filesMax = 0 + 1 + 1 from rfl, offOf_succ_unused (hno _), offOf_succ_unused (hno _), offOf]
  refine ⟨fs, hb, hl, by rw [hnone]; rfl, fs', ⟨callEmpty.user, ?_⟩, hfiles ▸ hunused 0,
    fun x hx => ?_⟩
  · rw [handle_write hl rfl (by decide) (by decide), hflush, ok_bind]
    rfl
  · exact himg.zero x (Nat.le_trans (Nat.le_of_eq hoff) (Nat.zero_le x)) hx

end Os1000.Proof
