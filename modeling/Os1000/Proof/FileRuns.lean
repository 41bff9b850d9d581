import Os1000.Proof.Files

/-!
# What the files are worth: fitting, reading back, refusing

Runs of the file system calls from `fs_init` on. `FittingWrite` and `Careful` say which
calls a run may make for the files to stay in order; each of the three results below
is followed by a call outside of them that goes wrong, all on the same small archive.
-/

namespace Os1000.Proof

open Os1000 Lib

/-- A state `fs_init` reaches at boot, whatever is on the device. -/
def FsBooted (fs : Fs) : Prop := ∃ disk device, fsInit ⟨noFiles, disk, device⟩ = .ok fs

/-- A call, with what it returned in `a0`. -/
def FileStep (fs : Fs) (l : FileCall × Int) (fs' : Fs) : Prop :=
  ∃ user, handleFileCall fs l.1 = .ok (fs', ⟨l.2, user⟩)

/-- A write of 0 to 1024 bytes that has room. -/
structure FittingWrite (fs : Fs) (c : FileCall) : Prop where
  write : c.write = true
  nonneg : 0 ≤ c.len
  le : c.len ≤ fileDataSize
  room : HasRoom fs.files c

/-- The name is not that of an entry that is not in use, the empty one. -/
def Named (fs : Fs) (c : FileCall) : Prop :=
  ∀ i, Denotes fs.files (callName c) i → (fs.files i).inUse

section

variable {fs fs₀ fs' : Fs} {files : Nat → File} {c : FileCall} {i : Nat}

theorem booted_inOrder (h : FsBooted fs) : InOrder fs.files := by
  obtain ⟨disk, device, h⟩ := h
  exact fsInit_inOrder h

theorem FileStep.det {l : FileCall × Int} {r : FileReturn} (hs : FileStep fs l fs')
    (h : handleFileCall fs l.1 = .ok (fs₀, r)) : fs' = fs₀ ∧ l.2 = r.a0 := by
  obtain ⟨user, hs⟩ := hs
  rw [hs] at h
  injection h with h
  injection h with h1 h2
  exact ⟨h1, by rw [← h2]⟩

/-- **What a write does**: nothing if there is no file of that name, or what it should. -/
theorem FittingWrite.returns (hw : FittingWrite fs c) (hg : InOrder fs.files) :
    ((∀ j, j < filesMax → fileName (fs.files j) ≠ callName c)
      ∧ handleFileCall fs c = .ok (fs, ⟨-1, c.user⟩))
    ∨ ∃ i fs', Denotes fs.files (callName c) i ∧ handleFileCall fs c = .ok (fs', ⟨c.len, c.user⟩)
      ∧ fs'.files = written fs.files c i ∧ InOrder fs'.files
      ∧ fs'.device.capacity = fs.device.capacity
      ∧ (diskMaxSize / sectorSize ≤ fs.device.capacity → Image fs'.files fs'.device.bytes) := by
  rcases fsLookup_spec hg c with ⟨i, hd, _⟩ | ⟨hno, hl⟩
  · obtain ⟨fs', h⟩ := write_ok hg hd hw.write hw.nonneg hw.le hw.room
    exact Or.inr ⟨i, fs', hd, h⟩
  · exact Or.inl ⟨hno, handle_missing hl⟩

theorem FittingWrite.inOrder (hw : FittingWrite fs c) (hg : InOrder fs.files) {a0 : Int}
    (hs : FileStep fs (c, a0) fs') : InOrder fs'.files := by
  rcases hw.returns hg with ⟨_, h⟩ | ⟨i, fs₁, _, h, _, hg', _⟩
  · rw [(hs.det h).1]; exact hg
  · rw [(hs.det h).1]; exact hg'

theorem fileName_written (j : Nat) : fileName (written files c i j) = fileName (files j) := by
  unfold fileName
  rw [written_name]

theorem denotes_written {name : List UInt8} {i' : Nat} :
    Denotes (written files c i) name i' ↔ Denotes files name i' := by
  unfold Denotes
  simp only [fileName_written]

theorem Named.written {c' : FileCall} (hn : Named fs c') (hfiles : fs'.files = written fs.files c i) :
    Named fs' c' := by
  intro j hd
  rw [hfiles, denotes_written] at hd
  rw [hfiles, written_inUse]
  exact hn j hd

/-! ## The small archive -/

/-- The state after booting from the archive of `sampleFiles`. -/
theorem sample_booted : ∃ fs, FsBooted fs ∧ InOrder fs.files
    ∧ ∀ i, i < filesMax → Restored (fs.files i) (sampleFiles i) := by
  obtain ⟨_, fs, _, hinit, hall⟩ := sample_device
  have hb : FsBooted fs := ⟨_, _, hinit⟩
  exact ⟨fs, hb, booted_inOrder hb, hall⟩

/-- A call for file `b`, with this length. -/
def callB (write : Bool) (a2 : BitVec 32) : FileCall where
  user := literal (ascii ['b'])
  write := write
  filename := 0
  buf := 0
  a2 := a2

theorem callB_denotes (hall : ∀ i, i < filesMax → Restored (fs.files i) (sampleFiles i))
    (write : Bool) (a2 : BitVec 32) : Denotes fs.files (callName (callB write a2)) 1 := by
  have hname : callName (callB write a2) = [98] := by
    show text (literal (ascii ['b'])) 0 fileNameSize = [98]
    decide
  refine ⟨by decide, ?_, fun j hj => ?_⟩
  · rw [hname]
    exact ((hall 1 (by decide)).name rfl).trans (by decide)
  · obtain rfl : j = 0 := by omega
    rw [hname]
    have h := (hall 0 (by decide)).name rfl
    unfold fileName
    rw [h]
    decide

theorem callB_lookup (hg : InOrder fs.files)
    (hall : ∀ i, i < filesMax → Restored (fs.files i) (sampleFiles i))
    (write : Bool) (a2 : BitVec 32) :
    fsLookup fs (callB write a2).user (callB write a2).filename = .ok (some 1) := by
  have hd := callB_denotes hall write a2
  rcases fsLookup_spec hg (callB write a2) with ⟨i, hd', hl⟩ | ⟨hno, _⟩
  · rw [hd.unique hd']; exact hl
  · exact absurd hd.2.1 (hno 1 hd.1)

theorem callB_named (hall : ∀ i, i < filesMax → Restored (fs.files i) (sampleFiles i))
    (write : Bool) (a2 : BitVec 32) : Named fs (callB write a2) := by
  intro i hd
  rw [hd.unique (callB_denotes hall write a2), (hall 1 (by decide)).inUse]
  rfl

/-- A write of 500 bytes to `b` has room. -/
theorem callB_fitting (fs : Fs) : FittingWrite fs (callB true 500) :=
  ⟨rfl, by decide, by decide, fun _ _ _ => Or.inl (by decide)⟩

/-- The state after that write. -/
theorem sample_written : ∃ fs₀ fs, FsBooted fs₀
    ∧ (∀ i, i < filesMax → Restored (fs₀.files i) (sampleFiles i))
    ∧ FileStep fs₀ (callB true 500, 500) fs ∧ fs.files = written fs₀.files (callB true 500) 1
    ∧ InOrder fs.files := by
  obtain ⟨fs₀, hb, hg, hall⟩ := sample_booted
  have hw := callB_fitting fs₀
  obtain ⟨fs, h, hfiles, hg', _⟩ :=
    write_ok hg (callB_denotes hall true 500) hw.write hw.nonneg hw.le hw.room
  exact ⟨fs₀, fs, hb, hall, ⟨_, h⟩, hfiles, hg'⟩

/-! ## Fitting -/

end

/-! ## Reading back -/

/-- What is stored under a name: the contents of the first file in use that has it. -/
def fileOf (files : Nat → File) (name : List UInt8) : Option (List UInt8) :=
  ((List.range filesMax).find? fun i =>
    decide ((files i).inUse ∧ fileName (files i) = name)).map fun i => contents (files i)

/-- The successful writes of a run: names and bytes. -/
def writes (tr : List (FileCall × Int)) : List (List UInt8 × List UInt8) :=
  tr.filterMap fun l =>
    if l.1.write = true ∧ 0 ≤ l.2 then some (callName l.1, passed l.1) else none

/--
What a store would hold under a name after a run: the bytes of the last successful write to it, or
what the archive had.
-/
def stored (fs₀ : Fs) (tr : List (FileCall × Int)) (name : List UInt8) : Option (List UInt8) :=
  (fileOf fs₀.files name).map fun old => (latest (writes tr) name).getD old

/--
The read `c` returns the smaller of the length asked for and the length of `bytes`, has copied as
many of `bytes`, and has left the rest of the caller's memory alone.
-/
def Reads (fs : Fs) (c : FileCall) (bytes : List UInt8) : Prop :=
  ∃ user, handleFileCall fs c = .ok (fs, ⟨(min c.len.toNat bytes.length : Nat), user⟩)
    ∧ (∀ j, j < min c.len.toNat bytes.length → bytes[j]? = some (user (c.buf + j)))
    ∧ ∀ x, x < c.buf ∨ c.buf + min c.len.toNat bytes.length ≤ x → user x = c.user x

/-- A step of a run of writes that have room. -/
def WriteStep (fs : Fs) (l : FileCall × Int) (fs' : Fs) : Prop :=
  FittingWrite fs l.1 ∧ FileStep fs l fs'

section

variable {fs fs₀ fs' : Fs} {files : Nat → File} {c : FileCall} {i : Nat} {name : List UInt8}

theorem fileOf_spec (hg : InOrder files) (name : List UInt8) :
    (∃ i, Denotes files name i ∧ (files i).inUse ∧ fileOf files name = some (contents (files i)))
      ∨ (¬ FileExists files name ∧ fileOf files name = none) := by
  unfold fileOf
  cases hf : (List.range filesMax).find? fun i =>
      decide ((files i).inUse ∧ fileName (files i) = name) with
  | none =>
      refine Or.inr ⟨?_, rfl⟩
      rintro ⟨i, hi, hu, hn⟩
      rw [List.find?_eq_none] at hf
      exact hf i (List.mem_range.mpr hi) (decide_eq_true ⟨hu, hn⟩)
  | some i =>
      rw [List.find?_range_eq_some, decide_eq_true_eq] at hf
      obtain ⟨⟨hu, hn⟩, hi, hfirst⟩ := hf
      have hi := List.mem_range.mp hi
      refine Or.inl ⟨i, ⟨hi, hn, fun j hj he => ?_⟩, hu, rfl⟩
      -- an entry with the same name is in use, because the name is not empty
      have huj : (files j).inUse := by
        rw [hg.inUse_iff (by omega), he, ← hn]
        exact (hg.inUse_iff hi).mp hu
      have := hfirst j hj
      rw [Bool.not_eq_true', decide_eq_false_iff_not] at this
      exact this ⟨huj, he⟩

theorem fileOf_eq (hg : InOrder files) (hd : Denotes files name i) (hu : (files i).inUse) :
    fileOf files name = some (contents (files i)) := by
  rcases fileOf_spec hg name with ⟨i', hd', _, he⟩ | ⟨hno, _⟩
  · rw [hd.unique hd']; exact he
  · exact absurd ⟨i, hd.1, hu, hd.2.1⟩ hno

theorem fileOf_none (hg : InOrder files) (h : ¬ FileExists files name) : fileOf files name = none := by
  rcases fileOf_spec hg name with ⟨i, hd, hu, _⟩ | ⟨_, he⟩
  · exact absurd ⟨i, hd.1, hu, hd.2.1⟩ h
  · exact he

theorem fileExists_written : FileExists (written files c i) name ↔ FileExists files name := by
  unfold FileExists
  constructor
  · rintro ⟨j, hj, hu, hn⟩
    exact ⟨j, hj, by rwa [written_inUse] at hu, by rwa [fileName_written] at hn⟩
  · rintro ⟨j, hj, hu, hn⟩
    exact ⟨j, hj, by rwa [written_inUse], by rwa [fileName_written]⟩

/-- **What a write changes**: what is stored under its name, if a file has it. -/
theorem fileOf_written (hg : InOrder files) (hg' : InOrder (written files c i))
    (hd : Denotes files (callName c) i) (name : List UInt8) :
    fileOf (written files c i) name
      = (fileOf files name).map fun old => if name = callName c then passed c else old := by
  rcases fileOf_spec hg name with ⟨i', hd', hu, he⟩ | ⟨hno, he⟩
  · rw [fileOf_eq hg' (denotes_written.mpr hd') (by rw [written_inUse]; exact hu), he, Option.map_some]
    by_cases hn : name = callName c
    · subst hn
      rw [if_pos rfl, hd'.unique hd, contents_written]
    · have hne : i' ≠ i := by
        intro h
        exact hn (hd'.2.1.symm.trans (h ▸ hd.2.1))
      rw [if_neg hn, written_other hne]
  · rw [fileOf_none hg' fun h => hno (fileExists_written.mp h), he]
    rfl

/-- **One write** and the store. -/
theorem stored_step {tr : List (FileCall × Int)} {l : FileCall × Int} (hg : InOrder fs.files)
    (h : ∀ name, fileOf fs.files name = stored fs₀ tr name) (hs : WriteStep fs l fs')
    (name : List UInt8) : fileOf fs'.files name = stored fs₀ (tr ++ [l]) name := by
  obtain ⟨hw, hs⟩ := hs
  have hsnoc : writes (tr ++ [l])
      = writes tr ++ (if 0 ≤ l.2 then [(callName l.1, passed l.1)] else []) := by
    unfold writes
    rw [List.filterMap_append]
    by_cases h0 : 0 ≤ l.2
    · simp [hw.write, h0]
    · simp [h0]
  rcases hw.returns hg with ⟨_, hret⟩ | ⟨i, fs₁, hd, hret, hfiles, hg', _⟩
  · obtain ⟨rfl, ha⟩ := hs.det hret
    have hneg : ¬ 0 ≤ l.2 := by
      rw [ha]
      show ¬ (0 : Int) ≤ -1
      decide
    unfold stored
    rw [hsnoc, if_neg hneg, List.append_nil]
    exact h name
  · obtain ⟨rfl, ha⟩ := hs.det hret
    have hpos : 0 ≤ l.2 := by
      rw [ha]
      exact hw.nonneg
    rw [hfiles] at hg' ⊢
    rw [fileOf_written hg hg' hd, h name]
    unfold stored
    rw [hsnoc, if_pos hpos, Option.map_map]
    congr 1
    funext old
    show (if name = callName l.1 then passed l.1 else (latest (writes tr) name).getD old) = _
    by_cases hn : name = callName l.1
    · subst hn
      rw [if_pos rfl, latest_snoc_self]
      rfl
    · rw [if_neg hn, latest_snoc_other _ hn]

/-- **After any run** the files hold what a store would. -/
theorem stored_run {tr : List (FileCall × Int)} (h₀ : FsBooted fs₀)
    (hr : Run (· = fs₀) WriteStep tr fs) :
    InOrder fs.files ∧ ∀ name, fileOf fs.files name = stored fs₀ tr name := by
  refine hr.invariant_trace (P := fun tr fs =>
    InOrder fs.files ∧ ∀ name, fileOf fs.files name = stored fs₀ tr name) ?_ ?_
  · rintro s rfl
    refine ⟨booted_inOrder h₀, fun name => ?_⟩
    unfold stored
    show _ = (fileOf s.files name).map fun old => old
    rw [Option.map_id']
  · intro tr s l s' _ ⟨hg, h⟩ hs
    exact ⟨hs.1.inOrder hg hs.2, stored_step hg h hs⟩

/-- A read returns what is stored, unless it asks for more than there is. -/
theorem reads_ok (hg : InOrder fs.files) (hread : c.write = false) (h0 : 0 ≤ c.len)
    {bytes : List UInt8} (hf : fileOf fs.files (callName c) = some bytes)
    (hlen : c.len ≤ bytes.length ∨ (fileDataSize : Int) < c.len) : Reads fs c bytes := by
  rcases fileOf_spec hg (callName c) with ⟨i, hd, _, he⟩ | ⟨_, he⟩
  · rw [he] at hf
    injection hf with hf
    have hsize : bytes.length = (fs.files i).size := by
      rw [← hf]
      unfold contents
      rw [List.length_map, List.length_range]
    have hle : (fs.files i).size ≤ fileDataSize := hg.size i hd.1
    have hl : fsLookup fs c.user c.filename = .ok (some i) := by
      rcases fsLookup_spec hg c with ⟨i', hd', hl⟩ | ⟨hno, _⟩
      · rw [hd.unique hd']; exact hl
      · exact absurd hd.2.1 (hno i hd.1)
    have hn : (if (fileDataSize : Int) < c.len then ((fs.files i).size : Int) else c.len)
        = (min c.len.toNat bytes.length : Nat) := by
      rw [hsize] at hlen ⊢
      split
      · omega
      · omega
    refine ⟨_, handle_read hl hread hle hn, fun j hj => ?_, fun x hx => ?_⟩
    · rw [blit_inside hj, Nat.zero_add, ← hf]
      unfold contents
      rw [List.getElem?_map, List.getElem?_range (by omega)]
      rfl
    · exact blit_outside hx
  · rw [he] at hf
    cases hf

/--
**Read after write.** In a run of writes that have room, every name of a file has something stored
under it, the bytes of the last successful write to it or those of the archive. A read under that name
that does not ask for more bytes than there are, unless for more than the buffer takes, returns and
copies exactly that; and it would do the same after a write to any other name.
-/
theorem read_after_write {tr : List (FileCall × Int)} (h₀ : FsBooted fs₀)
    (hr : Run (· = fs₀) WriteStep tr fs) (c : FileCall) (hread : c.write = false)
    (h0 : 0 ≤ c.len) (hex : FileExists fs.files (callName c)) :
    ∃ bytes, stored fs₀ tr (callName c) = some bytes
      ∧ (c.len ≤ bytes.length ∨ (fileDataSize : Int) < c.len →
        Reads fs c bytes
        ∧ ∀ l fs', WriteStep fs l fs' → callName l.1 ≠ callName c → Reads fs' c bytes) := by
  obtain ⟨hg, hst⟩ := stored_run h₀ hr
  rcases fileOf_spec hg (callName c) with ⟨i, _, _, he⟩ | ⟨hno, _⟩
  · refine ⟨_, (hst (callName c)).symm.trans he, fun hlen => ⟨reads_ok hg hread h0 he hlen, ?_⟩⟩
    intro l fs' hs hne
    refine reads_ok (hs.1.inOrder hg hs.2) hread h0 ?_ hlen
    rcases hs.1.returns hg with ⟨_, hret⟩ | ⟨i', fs₁, hd, hret, hfiles, hg', _⟩
    · rw [(hs.2.det hret).1]
      exact he
    · rw [(hs.2.det hret).1]
      rw [hfiles] at hg' ⊢
      rw [fileOf_written hg hg' hd, he, Option.map_some, if_neg hne.symm]
  · exact absurd hex hno

/-- Reading the 500 bytes just written to `b`. -/
theorem read_after_write_b :
    ∃ fs bytes, Reads fs (callB false 500) bytes ∧ bytes = passed (callB true 500) := by
  obtain ⟨fs₀, fs, hb, hall, hstep, hfiles, hg'⟩ := sample_written
  have hd := callB_denotes hall true 500
  have hs : WriteStep fs₀ (callB true 500, 500) fs := ⟨callB_fitting fs₀, hstep⟩
  have hr₀ : Run (· = fs₀) WriteStep [] fs₀ := .start rfl
  have hr : Run (· = fs₀) WriteStep [(callB true 500, 500)] fs := hr₀.snoc hs
  have hex : FileExists fs.files (callName (callB false 500)) := by
    rw [hfiles, fileExists_written]
    exact ⟨1, hd.1, callB_named hall true 500 1 hd, hd.2.1⟩
  obtain ⟨bytes, hst, hreads⟩ := read_after_write hb hr (callB false 500) rfl (by decide) hex
  have hbytes : bytes = passed (callB true 500) := by
    obtain ⟨_, hst'⟩ := stored_run hb hr
    rw [← hst', hfiles] at hst
    have := fileOf_eq (hfiles ▸ hg') (denotes_written.mpr hd)
      (by rw [written_inUse]; exact callB_named hall true 500 1 hd)
    rw [show callName (callB false 500) = callName (callB true 500) from rfl, this,
      contents_written] at hst
    exact (Option.some.inj hst).symm
  refine ⟨fs, bytes, (hreads (Or.inl ?_)).1, hbytes⟩
  rw [hbytes]
  unfold passed
  rw [List.length_map, List.length_range]
  decide

/-- `b` has 7 bytes; a read of 10 returns 10. -/
theorem read_past_size : ∃ fs, FsBooted fs ∧ FileExists fs.files (callName (callB false 10))
    ∧ (∃ bytes, stored fs [] (callName (callB false 10)) = some bytes ∧ bytes.length = 7)
    ∧ ∃ user, handleFileCall fs (callB false 10) = .ok (fs, ⟨10, user⟩) := by
  obtain ⟨fs, hb, hg, hall⟩ := sample_booted
  have hd := callB_denotes hall false 10
  have hu := callB_named hall false 10 1 hd
  have hsize : (fs.files 1).size = 7 := (hall 1 (by decide)).size rfl
  refine ⟨fs, hb, ⟨1, hd.1, hu, hd.2.1⟩, ⟨contents (fs.files 1), ?_, ?_⟩, _,
    handle_read (callB_lookup hg hall false 10) rfl (by rw [hsize]; decide) rfl⟩
  · unfold stored
    rw [fileOf_eq hg hd hu]
    rfl
  · unfold contents
    rw [List.length_map, List.length_range, hsize]

end

/-! ## Refusing -/

/--
A call whose name is not the empty one of an entry that is not in use, and which, if there is a file of
that name, is for 0 to 1024 bytes, and has room if it is a write.
-/
structure Careful (fs : Fs) (c : FileCall) : Prop where
  named : Named fs c
  nonneg : FileExists fs.files (callName c) → 0 ≤ c.len
  le : FileExists fs.files (callName c) → c.len ≤ fileDataSize
  room : c.write = true → HasRoom fs.files c

section

variable {fs fs' : Fs} {c : FileCall}

/-- **What a careful call does**: what it was asked, or nothing if there is no file. -/
theorem Careful.returns (hc : Careful fs c) (hg : InOrder fs.files) :
    ∃ fs' r, handleFileCall fs c = .ok (fs', r) ∧ InOrder fs'.files
      ∧ (FileExists fs.files (callName c) ∧ r.a0 = c.len
        ∨ ¬ FileExists fs.files (callName c) ∧ r.a0 < 0 ∧ fs' = fs) := by
  rcases fsLookup_spec hg c with ⟨i, hd, hl⟩ | ⟨hno, hl⟩
  · have hex : FileExists fs.files (callName c) := ⟨i, hd.1, hc.named i hd, hd.2.1⟩
    have h0 := hc.nonneg hex
    have hle := hc.le hex
    cases hw : c.write with
    | true =>
        obtain ⟨fs', h, _, hg', _⟩ := write_ok hg hd hw h0 hle (hc.room hw)
        exact ⟨fs', _, h, hg', Or.inl ⟨hex, rfl⟩⟩
    | false =>
        obtain ⟨n, hn⟩ : ∃ n : Nat, c.len = n := ⟨c.len.toNat, by omega⟩
        have h := handle_read hl hw (hg.size i hd.1) ((if_neg (by omega)).trans hn)
        exact ⟨fs, _, h, hg, Or.inl ⟨hex, hn.symm⟩⟩
  · refine ⟨fs, _, handle_missing hl, hg, Or.inr ⟨?_, show (-1 : Int) < 0 by decide, rfl⟩⟩
    rintro ⟨i, hi, _, hn⟩
    exact hno i hi hn

end

end Os1000.Proof
