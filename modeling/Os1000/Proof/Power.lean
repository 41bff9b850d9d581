import Os1000.Kernel.Storage
import Os1000.Proof.FileRuns
import Mathlib.Data.List.Find

/-!
# What survives a power cut

At any time the device holds the archive of the files in memory (`Mirrored`), so a reboot gives
the files back. While a write is under way the device holds the new archive up to some sector
and the old one from there on. If every record begins where it began before, this is an archive
again: the files that are not written are the same in both, and the one that is written has
the header of one of them, and data of both (`torn`).
-/

namespace Os1000.Proof

open Os1000 Lib

/-! ## The device mirrors the files -/

/-- The files are in order, and the device has them. -/
structure Mirrored (fs : Fs) : Prop where
  order : InOrder fs.files
  room : diskMaxSize / sectorSize ≤ fs.device.capacity
  holds : OnDisk fs.files fs.device.bytes

section

variable {fs fs' : Fs} {files : Nat → File} {bytes bytes' : Mem} {f g : File} {off i : Nat}

theorem InOrder.aligned (hg : InOrder files) : i ≤ filesMax → offOf files i % sectorSize = 0 := by
  induction i with
  | zero => exact fun _ => rfl
  | succ i ih =>
      intro hi
      have ih := ih (by omega)
      by_cases hu : (files i).inUse
      · have hrec := (recordSize_spec (hg.table.storable i (by omega) hu).size).2.2
        rw [offOf_succ hu]
        simp only [sectorSize] at ih hrec ⊢
        omega
      · rw [offOf_succ_unused hu]
        exact ih

/-! ## Starting again -/

/-- **A machine that is started** with the archive of some files has them. -/
theorem reboot_of_holds (hg : InOrder files) {device : Device}
    (hcap : diskMaxSize / sectorSize ≤ device.capacity) (h : OnDisk files device.bytes) :
    ∃ fs, reboot device = .ok fs ∧ ∀ i, i < filesMax → Restored (fs.files i) (files i) :=
  fsInit_onDisk hg.table hg.fits (fun _ => 0) hcap h

/-- The loop of `fs_init` ends where there is no name. -/
theorem fsInitEntry_none (hal : off % sectorSize = 0) (h : fsInitEntry fs off i = .ok none) :
    fs.disk off = 0 := by
  have hb : diskMaxSize = 2560 := diskMaxSize_eq
  have hh : sizeofTarHeader = 512 := rfl
  rw [show sectorSize = 512 from rfl] at hal
  have hlt : off < diskMaxSize := by
    by_contra hge
    unfold fsInitEntry at h
    rw [show off + nameAt = off from rfl, loadAt_stops (by omega), error_bind] at h
    cases h
  by_contra h0
  rw [fsInitEntry_named (by omega) h0] at h
  split at h
  · obtain ⟨next, _, h⟩ := bind_eq_ok.mp h
    cases h
  · cases h

/-- What `fs_init` has made of a record is what the record says. -/
theorem loadedFile_member {old : File} {k size : Nat} (hm : IsMember bytes off)
    (hend : Ends bytes (off + nameAt) k) (hs : memberSize bytes off = size) :
    Member bytes off (loadedFile old bytes off k size) where
  name k' hk' hend' j hj := by
    have hends : Ends (loadedFile old bytes off k size).name 0 k :=
      hend.congr fun j hj => blit_inside (by omega)
    have hkk : k = k' := hend'.unique hends
    show _ = blit old.name 0 bytes (off + nameAt) (k + 1) j
    rw [blit_front (by omega)]
  magic := hm.2
  size := hs
  data j hj := (blit_front hj).symm

/-- The loop leaves a table that mirrors `disk[]`. -/
theorem fsInitLoop_mirrors :
    ∀ (n i off : Nat) (fs : Fs), i + n = filesMax → Loaded fs.files i off →
      (∀ j, j < i → Member fs.disk (offOf fs.files j) (fs.files j)) →
      fsInitLoop fs off i n = .ok fs' → OnDisk fs'.files fs'.disk ∧ fs'.disk = fs.disk
        ∧ fs'.device = fs.device
  | 0, i, _, fs, hn, hl, hm, h => by
      injection h with h
      subst h
      exact ⟨⟨fun j hj _ => hm j (by omega), fun j hj hu => absurd (hl.used j (by omega)) hu⟩, rfl, rfl⟩
  | n + 1, i, off, fs, hn, hl, hm, h => by
      rw [fsInitLoop] at h
      obtain ⟨r, hr, h⟩ := bind_eq_ok.mp h
      cases r with
      | none =>
          have h : fs = fs' := by simpa using h
          subst h
          refine ⟨⟨fun j hj hu => ?_, fun j hj hu => ?_⟩, rfl, rfl⟩
          · by_cases hji : j < i
            · exact hm j hji
            · rw [hl.rest j (by omega)] at hu
              cases hu
          · -- entry `j` is past the records that were read, and takes no space
            have hij : i ≤ j := by
              by_contra hlt
              exact hu (hl.used j (by omega))
            have hui : ¬ (fs.files i).inUse := by
              rw [hl.rest i (Nat.le_refl i)]
              exact fun h0 => by cases h0
            rw [hl.inOrder.table.offOf_eq hui hij (by omega), ← hl.off]
            exact fsInitEntry_none hl.aligned hr
      | some next =>
          obtain ⟨hmem, hacc⟩ := fsInitEntry_acceptable hl.aligned hr
          have hl' := hl.step hr
          obtain ⟨k, hpos, hk, hend, he⟩ :=
            fsInitEntry_member (i := i) hmem.member (hmem.storable hacc) hacc.data
          rw [he] at hr
          injection hr with hr
          injection hr with hr
          subst hr
          have hdisk : Ends fs.disk (off + nameAt) k := by
            refine hend.congr fun j _ => ?_
            show fs.disk (off + 0 + j) = fs.disk (off + (0 + j))
            rw [Nat.add_assoc]
          refine fsInitLoop_mirrors n (i + 1) (off + recordSize (memberFile fs.disk off))
            { fs with files := Function.update fs.files i (loadedFile (fs.files i) fs.disk off k
              (memberFile fs.disk off).size) } (by omega) hl' (fun j hj => ?_) h
          dsimp only
          have hoff : offOf (Function.update fs.files i (loadedFile (fs.files i) fs.disk off k
              (memberFile fs.disk off).size)) j = offOf fs.files j :=
            offOf_congr fun j' hj' => Function.update_of_ne (by omega) ..
          rw [hoff]
          by_cases hji : j = i
          · subst hji
            rw [Function.update_self, ← hl.off]
            exact loadedFile_member hmem hdisk rfl
          · rw [Function.update_of_ne hji]
            exact hm j (by omega)

/-- **A machine that has been started** has the files of its device. -/
theorem mirrored_reboot {device : Device} (hcap : diskMaxSize / sectorSize ≤ device.capacity)
    (h : reboot device = .ok fs) : Mirrored fs ∧ fs.device = device := by
  obtain ⟨h1, h2, hread⟩ := readDisk_spec ⟨noFiles, fun _ => 0, device⟩ hcap
  have hg : InOrder fs.files := fsInit_inOrder h
  have hl : Loaded (readDisk ⟨noFiles, fun _ => 0, device⟩).files 0 0 :=
    ⟨rfl, by omega, by omega, by omega, fun j _ => by rw [h1]⟩
  obtain ⟨hh, hdisk, hdev⟩ := fsInitLoop_mirrors filesMax 0 0 _ (by omega) hl (by omega) h
  have hdev : fs.device = device := hdev.trans h2
  refine ⟨⟨hg, by rw [hdev]; exact hcap, hh.congr hg.table hg.fits fun x hx => ?_⟩, hdev⟩
  rw [hdev, hdisk]
  exact (hread x hx).symm

/-- Files that were restored are found under the same names. -/
theorem fileOf_restored {files' : Nat → File}
    (h : ∀ i, i < filesMax → Restored (files' i) (files i)) (name : List UInt8) :
    fileOf files' name = fileOf files name := by
  have hsame : ∀ i, i < filesMax → ((files' i).inUse ∧ fileName (files' i) = name
      ↔ (files i).inUse ∧ fileName (files i) = name) := by
    intro i hi
    rw [(h i hi).inUse]
    constructor
    · rintro ⟨hu, hn⟩
      exact ⟨hu, ((h i hi).name hu).symm.trans hn⟩
    · rintro ⟨hu, hn⟩
      exact ⟨hu, ((h i hi).name hu).trans hn⟩
  have hfind : ((List.range filesMax).find? fun i =>
      decide ((files' i).inUse ∧ fileName (files' i) = name))
      = (List.range filesMax).find? fun i => decide ((files i).inUse ∧ fileName (files i) = name) :=
    List.find?_congr fun i hi => decide_eq_decide.mpr (hsame i (List.mem_range.mp hi))
  unfold fileOf
  rw [hfind]
  cases hf : (List.range filesMax).find? fun i =>
      decide ((files i).inUse ∧ fileName (files i) = name) with
  | none => rfl
  | some i =>
      have hi := List.mem_range.mp (List.mem_of_find?_eq_some hf)
      have hdec := List.find?_some hf
      have hu := (of_decide_eq_true hdec).1
      have hr := h i hi
      rw [Option.map_some, Option.map_some]
      congr 1
      unfold contents
      rw [hr.size hu]
      exact List.map_congr_left fun j hj => hr.data hu j (List.mem_range.mp hj)

/-! ## A write that is cut -/

theorem writeSectors_spec (fs : Fs) (hcap : diskMaxSize / sectorSize ≤ fs.device.capacity) {n : Nat}
    (hn : n ≤ diskMaxSize / sectorSize) :
    (writeSectors fs n).device.capacity = fs.device.capacity
      ∧ ∀ x, (writeSectors fs n).device.bytes x
        = if x < n * sectorSize then fs.disk x else fs.device.bytes x := by
  have h := loop_inv (f := writeSector) (s := fs)
    (fun i t => t.disk = fs.disk ∧ t.device.capacity = fs.device.capacity
      ∧ ∀ x, t.device.bytes x = if x < i * sectorSize then fs.disk x else fs.device.bytes x)
    n ⟨rfl, rfl, fun x => by rw [if_neg (by omega)]⟩ ?_
  · exact h.2
  · intro i t hi ⟨h1, h2, h3⟩
    unfold writeSector
    rw [if_neg (by omega)]
    refine ⟨h1, h2, fun x => ?_⟩
    have hsucc : (i + 1) * sectorSize = i * sectorSize + sectorSize := Nat.succ_mul i sectorSize
    dsimp only
    by_cases hx : i * sectorSize ≤ x ∧ x < i * sectorSize + sectorSize
    · obtain ⟨j, rfl⟩ : ∃ j, x = i * sectorSize + j := ⟨x - i * sectorSize, by omega⟩
      rw [blit_inside (by omega), h1, if_pos (by omega)]
    · rw [blit_outside (by omega), h3 x]
      by_cases hlt : x < i * sectorSize
      · rw [if_pos hlt, if_pos (by omega)]
      · rw [if_neg hlt, if_neg (by omega)]

/-- The archive that `fs_flush` is about to write. -/
theorem flushBuffer_ok (hg : InOrder fs.files) : ∃ fs', flushBuffer fs = .ok fs'
    ∧ fs'.device = fs.device ∧ Image fs.files fs'.disk := by
  obtain ⟨fs₁, hflush, _, himg, _⟩ := fsFlush_ok fs hg.table.storable hg.fits
  unfold fsFlush at hflush
  obtain ⟨fs', hbuf, hw⟩ := bind_eq_ok.mp hflush
  rw [pure_eq_ok] at hw
  refine ⟨fs', hbuf, ?_, ?_⟩
  · unfold flushBuffer at hbuf
    obtain ⟨_, _, hbuf⟩ := bind_eq_ok.mp hbuf
    obtain ⟨_, _, hbuf⟩ := bind_eq_ok.mp hbuf
    rw [pure_eq_ok] at hbuf
    rw [← hbuf]
  · rw [← hw, (writeDisk_spec fs').2.1] at himg
    exact himg

/-- **The device after a write that was cut**: the new archive up to a sector, then the old one. -/
theorem cutWrite_ok {c : FileCall} {n : Nat} (hm : Mirrored fs) (hw : FittingWrite fs c)
    (hd : Denotes fs.files (callName c) i) (hn : n ≤ diskMaxSize / sectorSize) :
    ∃ device disk, cutWrite fs c n = .ok device ∧ device.capacity = fs.device.capacity
      ∧ Image (written fs.files c i) disk
      ∧ ∀ x, device.bytes x = if x < n * sectorSize then disk x else fs.device.bytes x := by
  have hl : fsLookup fs c.user c.filename = .ok (some i) := by
    rcases fsLookup_spec hm.order c with ⟨i', hd', hl⟩ | ⟨hno, _⟩
    · rw [hd.unique hd']
      exact hl
    · exact absurd hd.2.1 (hno i hd.1)
  have hg : InOrder { fs with files := written fs.files c i }.files :=
    hm.order.write hd hw.le hw.room
  obtain ⟨fs₁, hbuf, hdev, himg⟩ := flushBuffer_ok hg
  obtain ⟨hcap, hbytes⟩ := writeSectors_spec fs₁ (by rw [hdev]; exact hm.room) hn
  refine ⟨(writeSectors fs₁ n).device, fs₁.disk, ?_, hcap.trans (by rw [hdev]), himg, fun x => ?_⟩
  · unfold cutWrite
    rw [fileCallWith_write hl hw.write hw.nonneg hw.le, hbuf]
    rfl
  · rw [hbytes, hdev]

/-! ## The torn file -/

/-- The write leaves every record where it begins: the file takes as much space as before, or it is
the last. -/
def KeepsLayout (files : Nat → File) (c : FileCall) (i : Nat) : Prop :=
  (files i).inUse → i + 1 = filesMax ∨ recordSize (written files c i i) = recordSize (files i)

/-- The files when the record of file `i` has this size, and its data is what is on the device. -/
def torn (files : Nat → File) (i : Nat) (bytes : Mem) (size : Nat) : Nat → File :=
  Function.update files i { files i with
    data := fun j => bytes (offOf files i + sizeofTarHeader + j)
    size }

theorem torn_self (size : Nat) : torn files i bytes size i = { files i with
    data := fun j => bytes (offOf files i + sizeofTarHeader + j)
    size } := Function.update_self ..

theorem torn_other {j : Nat} (h : j ≠ i) (size : Nat) : torn files i bytes size j = files j :=
  Function.update_of_ne h ..

theorem torn_inUse (size j : Nat) : (torn files i bytes size j).inUse = (files j).inUse := by
  by_cases h : j = i
  · rw [h, torn_self]
  · rw [torn_other h]

theorem torn_name (size j : Nat) : (torn files i bytes size j).name = (files j).name := by
  by_cases h : j = i
  · rw [h, torn_self]
  · rw [torn_other h]

/-- Where records begin depends on which entries are in use, and on their sizes. -/
theorem offOf_sizes {files' : Nat → File} {m : Nat}
    (h : ∀ j, j < m → (files' j).inUse = (files j).inUse
      ∧ ((files j).inUse → recordSize (files' j) = recordSize (files j))) :
    offOf files' m = offOf files m := by
  induction m with
  | zero => rfl
  | succ m ih =>
      have ih := ih fun j hj => h j (by omega)
      obtain ⟨hu, hr⟩ := h m (Nat.lt_succ_self m)
      rw [offOf, offOf, ih, hu]
      split
      · next hm => rw [hr hm]
      · rfl

theorem offOf_written {c : FileCall} (hk : KeepsLayout files c i) {j : Nat} (hj : j < filesMax) :
    offOf (written files c i) j = offOf files j := by
  refine offOf_sizes fun j' hj' => ⟨written_inUse j', fun hu => ?_⟩
  by_cases h : j' = i
  · subst h
    rcases hk hu with hlast | hsame
    · omega
    · exact hsame
  · rw [written_other h]

theorem offOf_torn {c : FileCall} (hk : KeepsLayout files c i) {size j : Nat}
    (hsize : size = (files i).size ∨ size = c.len.toNat) (hj : j < filesMax) :
    offOf (torn files i bytes size) j = offOf files j := by
  refine offOf_sizes fun j' hj' => ⟨torn_inUse size j', fun hu => ?_⟩
  by_cases h : j' = i
  · subst h
    rw [torn_self]
    rcases hsize with rfl | rfl
    · rfl
    · rcases hk hu with hlast | hsame
      · omega
      · rw [written_self] at hsame
        exact hsame
  · rw [torn_other h]

/-- A record is there if its header and its data are. -/
theorem Member.of_header (hm : Member bytes off f)
    (he : ∀ x, off ≤ x → x < off + sizeofTarHeader → bytes' x = bytes x) (hname : g.name = f.name)
    (hsize : g.size = f.size) (hdata : ∀ j, j < g.size → bytes' (off + sizeofTarHeader + j) = g.data j) :
    Member bytes' off g where
  name k hk hend j hj := by
    rw [hname] at hend ⊢
    rw [he _ (by omega) (by simp only [sizeofTarHeader, nameAt, fileNameSize] at *; omega)]
    exact hm.name k hk hend j hj
  magic j hj := by
    have hlen : ustar.length = 5 := by decide
    rw [he _ (by omega) (by simp only [sizeofTarHeader, magicAt]; omega)]
    exact hm.magic j hj
  size := by
    rw [hsize, ← hm.size]
    refine octValue_congr fun j hj => he _ (by omega) ?_
    simp only [sizeofTarHeader, sizeAt, sizeofSize] at *
    omega
  data := hdata

theorem inOrder_torn {c : FileCall} {size : Nat} (hg : InOrder files)
    (hg' : InOrder (written files c i)) (hk : KeepsLayout files c i) (hi : i < filesMax)
    (hsize : size = (files i).size ∨ size = c.len.toNat) : InOrder (torn files i bytes size) := by
  have hnew := hg'.size i hi
  rw [written_self] at hnew
  have hle : ∀ j, j < filesMax → (torn files i bytes size j).size ≤ fileDataSize := by
    intro j hj
    by_cases h : j = i
    · rw [h, torn_self]
      rcases hsize with rfl | rfl
      · exact hg.size i hi
      · exact hnew
    · rw [torn_other h]
      exact hg.size j hj
  refine ⟨⟨fun j j' hjj hj' hu => ?_, fun j hj hu => ⟨?_, hle j hj⟩⟩, fun j hj hu => ?_,
    fun j hj hu => ?_, hle⟩
  · rw [torn_inUse] at hu ⊢
    exact hg.table.front j j' hjj hj' hu
  · rw [torn_inUse] at hu
    rw [torn_name]
    exact (hg.table.storable j hj hu).name
  · rw [torn_inUse] at hu
    rw [offOf_torn hk hsize hj]
    by_cases h : j = i
    · subst h
      rw [torn_self]
      rcases hsize with rfl | rfl
      · exact hg.fits j hj hu
      · have hfit := hg'.fits j hj (by rw [written_inUse]; exact hu)
        rw [offOf_written hk hj, written_self] at hfit
        exact hfit
    · rw [torn_other h]
      exact hg.fits j hj hu
  · rw [torn_inUse] at hu
    rw [torn_name]
    exact hg.nameless j hj hu

/-- The size in the header of a file whose archive was written up to sector `n`. -/
def tornSize (files : Nat → File) (c : FileCall) (i n : Nat) : Nat :=
  if offOf files i < n * sectorSize then c.len.toNat else (files i).size

theorem tornSize_cases (files : Nat → File) (c : FileCall) (i n : Nat) :
    tornSize files c i n = (files i).size ∨ tornSize files c i n = c.len.toNat := by
  unfold tornSize
  split
  · exact Or.inr rfl
  · exact Or.inl rfl

/-- **Two archives, one up to a sector and the other from there on**, are an archive. -/
theorem holds_torn {c : FileCall} {n : Nat} {new old : Mem} (hg : InOrder files)
    (hk : KeepsLayout files c i) (hold : OnDisk files old) (hnew : OnDisk (written files c i) new)
    (hmix : ∀ x, bytes x = if x < n * sectorSize then new x else old x) :
    OnDisk (torn files i bytes (tornSize files c i n)) bytes := by
  have hcase := tornSize_cases files c i n
  -- a header is a sector, so it is of one of the two
  have hheader : ∀ j, j < filesMax →
      (offOf files j < n * sectorSize → ∀ x, offOf files j ≤ x →
        x < offOf files j + sizeofTarHeader → bytes x = new x)
      ∧ (¬ offOf files j < n * sectorSize → ∀ x, offOf files j ≤ x →
        x < offOf files j + sizeofTarHeader → bytes x = old x) := by
    intro j hj
    have hal := hg.aligned (Nat.le_of_lt hj)
    simp only [sectorSize, sizeofTarHeader] at hal hmix ⊢
    refine ⟨fun hlt x h1 h2 => ?_, fun hge x h1 h2 => ?_⟩
    · exact (hmix x).trans (if_pos (by omega))
    · exact (hmix x).trans (if_neg (by omega))
  refine ⟨fun j hj hu => ?_, fun j hj hu => ?_⟩
  · rw [torn_inUse] at hu
    rw [offOf_torn hk hcase hj]
    have h1 := hold.member j hj hu
    have h2 := hnew.member j hj (by rw [written_inUse]; exact hu)
    rw [offOf_written hk hj] at h2
    by_cases hji : j = i
    · subst hji
      rw [torn_self]
      by_cases hlt : offOf files j < n * sectorSize
      · refine h2.of_header ((hheader j hj).1 hlt) ?_ ?_ fun _ _ => rfl
        · rw [written_self]
        · rw [written_self]
          exact if_pos hlt
      · exact h1.of_header ((hheader j hj).2 hlt) rfl (if_neg hlt) fun _ _ => rfl
    · rw [torn_other hji]
      rw [written_other hji] at h2
      have hdata : ∀ x, x < (files j).size →
          bytes (offOf files j + sizeofTarHeader + x) = (files j).data x := by
        intro x hx
        rw [hmix]
        split
        · exact h2.data x hx
        · exact h1.data x hx
      by_cases hlt : offOf files j < n * sectorSize
      · exact h2.of_header ((hheader j hj).1 hlt) rfl rfl hdata
      · exact h1.of_header ((hheader j hj).2 hlt) rfl rfl hdata
  · rw [torn_inUse] at hu
    have h1 := hold.stop j hj hu
    have h2 := hnew.stop j hj (by rw [written_inUse]; exact hu)
    rw [offOf_written hk hj] at h2
    rw [offOf_torn hk hcase hj, hmix]
    split
    · exact h2
    · exact h1

/-- Another file is what it was. -/
theorem fileOf_torn_other {size : Nat} {name : List UInt8} (hne : name ≠ fileName (files i)) :
    fileOf (torn files i bytes size) name = fileOf files name := by
  have hname : ∀ j, fileName (torn files i bytes size j) = fileName (files j) := by
    intro j
    unfold fileName
    rw [torn_name]
  unfold fileOf
  simp only [torn_inUse, hname]
  cases hf : (List.range filesMax).find? fun j =>
      decide ((files j).inUse ∧ fileName (files j) = name) with
  | none => rfl
  | some j =>
      have hdec := List.find?_some hf
      have hj : j ≠ i := by
        rintro rfl
        exact hne (of_decide_eq_true hdec).2.symm
      rw [Option.map_some, Option.map_some, torn_other hj]

theorem Denotes.torn {name : List UInt8} {i' size : Nat} (hd : Denotes files name i') :
    Denotes (torn files i bytes size) name i' := by
  have hname : ∀ j, fileName (Proof.torn files i bytes size j) = fileName (files j) := by
    intro j
    unfold fileName
    rw [torn_name]
  refine ⟨hd.1, ?_, fun j hj => ?_⟩
  · rw [hname]
    exact hd.2.1
  · rw [hname]
    exact hd.2.2 j hj

/-- **A power cut in a write** leaves a device with the torn files. -/
theorem cut_torn {c : FileCall} {n : Nat} (hm : Mirrored fs) (hw : FittingWrite fs c)
    (hd : Denotes fs.files (callName c) i) (hk : KeepsLayout fs.files c i)
    (hn : n ≤ diskMaxSize / sectorSize) :
    ∃ device new, cutWrite fs c n = .ok device
      ∧ OnDisk (written fs.files c i) new
      ∧ (∀ x, device.bytes x = if x < n * sectorSize then new x else fs.device.bytes x)
      ∧ InOrder (torn fs.files i device.bytes (tornSize fs.files c i n))
      ∧ ∃ fs', reboot device = .ok fs' ∧ Mirrored fs'
        ∧ ∀ j, j < filesMax →
          Restored (fs'.files j) (torn fs.files i device.bytes (tornSize fs.files c i n) j) := by
  have hg' := hm.order.write hd hw.le hw.room
  obtain ⟨device, new, hcut, hcap, himg, hbytes⟩ := cutWrite_ok hm hw hd hn
  have hnew := himg.onDisk hg'.table
  have hcap : diskMaxSize / sectorSize ≤ device.capacity := by
    rw [hcap]
    exact hm.room
  have ho : InOrder (torn fs.files i device.bytes (tornSize fs.files c i n)) :=
    inOrder_torn hm.order hg' hk hd.1 (tornSize_cases fs.files c i n)
  obtain ⟨fs', hboot, hres⟩ := reboot_of_holds ho hcap (holds_torn hm.order hk hm.holds hnew hbytes)
  exact ⟨device, new, hcut, hnew, hbytes, ho, fs', hboot, (mirrored_reboot hcap hboot).1, hres⟩

end

/-! ## Runs -/

/-- The machine has been started with some device that is large enough. -/
def PoweredOn (fs : Fs) : Prop :=
  ∃ device, diskMaxSize / sectorSize ≤ device.capacity ∧ reboot device = .ok fs

/-- Writes have room, and those that are cut leave every record where it begins. -/
def Moderate (fs : Fs) : PowerEvent → Prop
  | .call c _ => c.write = true → FittingWrite fs c
  | .reboot => True
  | .cut c _ => FittingWrite fs c ∧ ∀ i, Denotes fs.files (callName c) i → KeepsLayout fs.files c i

/-- A step of a run of such events. -/
def ModerateStep (fs : Fs) (e : PowerEvent) (fs' : Fs) : Prop := Moderate fs e ∧ PowerStep fs e fs'

/-- The calls that were not cut. -/
def calls (tr : List PowerEvent) : List (FileCall × Int) :=
  tr.filterMap fun
    | .call c r => some (c, r.a0)
    | _ => none

section

variable {fs fs₀ fs' : Fs} {c : FileCall} {tr : List PowerEvent}

/-- A write to a name that no entry has leaves the device alone, cut or not. -/
theorem cutWrite_missing {n : Nat} {device : Device} (hg : InOrder fs.files)
    (hno : ∀ i, ¬ Denotes fs.files (callName c) i) (h : cutWrite fs c n = .ok device) :
    device = fs.device := by
  rcases fsLookup_spec hg c with ⟨i, hd, _⟩ | ⟨_, hl⟩
  · exact absurd hd (hno i)
  · unfold cutWrite at h
    rw [fileCallWith_missing hl, ok_bind, pure_eq_ok] at h
    exact h.symm

/-- A power cut in a write changes no other file. -/
theorem Mirrored.cut {n : Nat} (hm : Mirrored fs) (hs : ModerateStep fs (.cut c n) fs') :
    Mirrored fs' ∧ ∀ name, callName c ≠ name → fileOf fs'.files name = fileOf fs.files name := by
  obtain ⟨⟨hw, hk⟩, hs⟩ := hs
  cases hs with
  | @cut _ _ _ device _ hn hcut hboot =>
      by_cases hd : ∃ i, Denotes fs.files (callName c) i
      · obtain ⟨i, hd⟩ := hd
        obtain ⟨device', _, hcut', _, _, _, fs₁, hboot', hm', hres⟩ := cut_torn hm hw hd (hk i hd) hn
        obtain rfl := Except.ok.inj (hcut.symm.trans hcut')
        obtain rfl := Except.ok.inj (hboot.symm.trans hboot')
        refine ⟨hm', fun name hne => ?_⟩
        rw [fileOf_restored hres]
        exact fileOf_torn_other fun he => hne (hd.2.1.symm.trans he.symm)
      · obtain rfl := cutWrite_missing hm.order (not_exists.mp hd) hcut
        obtain ⟨fs₁, hboot', hres⟩ := reboot_of_holds hm.order hm.room hm.holds
        obtain rfl := Except.ok.inj (hboot.symm.trans hboot')
        exact ⟨(mirrored_reboot hm.room hboot).1, fun name _ => fileOf_restored hres name⟩

/-- A reboot changes no file. -/
theorem Mirrored.reboot (hm : Mirrored fs) (hs : PowerStep fs .reboot fs') :
    Mirrored fs' ∧ ∀ name, fileOf fs'.files name = fileOf fs.files name := by
  cases hs with
  | reboot h =>
      obtain ⟨fs₁, h', hres⟩ := reboot_of_holds hm.order hm.room hm.holds
      obtain rfl := Except.ok.inj (h.symm.trans h')
      exact ⟨(mirrored_reboot hm.room h).1, fileOf_restored hres⟩

theorem Mirrored.call {r : FileReturn} (hm : Mirrored fs) (hs : ModerateStep fs (.call c r) fs') :
    Mirrored fs' := by
  obtain ⟨hmod, hs⟩ := hs
  cases hs with
  | call h =>
      cases hw : c.write with
      | false =>
          rw [handle_read_only hw h]
          exact hm
      | true =>
          have hstep : FileStep fs (c, r.a0) fs' := ⟨r.user, h⟩
          rcases (hmod hw).returns hm.order with ⟨_, hret⟩ | ⟨i, fs₁, _, hret, _, hg, hcap, himg⟩
          · rw [(hstep.det hret).1]
            exact hm
          · rw [(hstep.det hret).1]
            exact ⟨hg, by rw [hcap]; exact hm.room, (himg hm.room).onDisk hg.table⟩

/-- **Every event.** -/
theorem mirrored_step {e : PowerEvent} (hm : Mirrored fs) (hs : ModerateStep fs e fs') :
    Mirrored fs' := by
  cases e with
  | call c r => exact hm.call hs
  | reboot => exact (hm.reboot hs.2).1
  | cut c n => exact (hm.cut hs).1

theorem mirrored_run (hr : Run PoweredOn ModerateStep tr fs) : Mirrored fs :=
  hr.invariant (fun _ ⟨_, hcap, h⟩ => (mirrored_reboot hcap h).1) fun _ _ _ h hs => mirrored_step h hs

/-- What a store holds after one more call. -/
theorem stored_snoc (cs : List (FileCall × Int)) (l : FileCall × Int) (name : List UInt8) :
    stored fs₀ (cs ++ [l]) name
      = (stored fs₀ cs name).map fun old => (latest (writes [l]) name).getD old := by
  unfold stored
  rw [Option.map_map]
  congr 1
  funext old
  have happ : writes (cs ++ [l]) = writes cs ++ writes [l] := List.filterMap_append
  show (latest (writes (cs ++ [l])) name).getD old
    = (latest (writes [l]) name).getD ((latest (writes cs) name).getD old)
  rw [happ]
  by_cases hw : l.1.write = true ∧ 0 ≤ l.2
  · have hone : writes [l] = [(callName l.1, passed l.1)] := by
      unfold writes
      simp [hw]
    rw [hone]
    by_cases hn : name = callName l.1
    · subst hn
      rw [latest_snoc_self, show [(callName l.1, passed l.1)] = [] ++ [(callName l.1, passed l.1)] from rfl,
        latest_snoc_self]
      rfl
    · rw [latest_snoc_other _ hn, show [(callName l.1, passed l.1)] = [] ++ [(callName l.1, passed l.1)] from rfl,
        latest_snoc_other _ hn]
      rfl
  · have hnone : writes [l] = [] := by
      unfold writes
      simp [hw]
    rw [hnone, List.append_nil]
    rfl

/-- A call does to the files what it does to a store. -/
theorem Mirrored.call_store {r : FileReturn} (hm : Mirrored fs)
    (hs : ModerateStep fs (.call c r) fs') (name : List UInt8) :
    fileOf fs'.files name
      = (fileOf fs.files name).map fun old => (latest (writes [(c, r.a0)]) name).getD old := by
  obtain ⟨hmod, hs⟩ := hs
  cases hs with
  | call h =>
      cases hw : c.write with
      | false =>
          have hnone : writes [(c, r.a0)] = [] := by
            unfold writes
            simp [hw]
          rw [handle_read_only hw h, hnone]
          exact Option.map_id'.symm
      | true =>
          have h0 : ∀ name, fileOf fs.files name = stored fs [] name := fun name => Option.map_id'.symm
          have hstep : WriteStep fs (c, r.a0) fs' := ⟨hmod hw, r.user, h⟩
          rw [stored_step hm.order h0 hstep name, List.nil_append]
          rfl

/--
**Files survive.** Through any number of calls, reboots and power cuts that leave the records where
they begin, the machine can always be started again, and a file that no cut write was for holds
what the last write has written to it, or what the first archive had, and reads return that.
-/
theorem files_survive_power_cuts (h₀ : PoweredOn fs₀) (hr : Run (· = fs₀) ModerateStep tr fs) :
    (∃ fs', PowerStep fs .reboot fs')
    ∧ ∀ name, (∀ c n, .cut c n ∈ tr → callName c ≠ name) →
      fileOf fs.files name = stored fs₀ (calls tr) name
      ∧ ∀ c bytes, callName c = name → c.write = false → 0 ≤ c.len →
        stored fs₀ (calls tr) name = some bytes →
        c.len ≤ bytes.length ∨ (fileDataSize : Int) < c.len → Reads fs c bytes := by
  have hm : Mirrored fs := mirrored_run (hr.weaken (fun s hs => hs ▸ h₀) fun _ _ _ h => h)
  have hstore : ∀ name, (∀ c n, .cut c n ∈ tr → callName c ≠ name) →
      fileOf fs.files name = stored fs₀ (calls tr) name := by
    refine hr.invariant_trace (P := fun tr fs => ∀ name, (∀ c n, .cut c n ∈ tr → callName c ≠ name) →
      fileOf fs.files name = stored fs₀ (calls tr) name) ?_ ?_
    · rintro s rfl name _
      exact Option.map_id'.symm
    · intro tr s e s' hr ih hs name hno
      have hm : Mirrored s := mirrored_run (hr.weaken (fun s hs => hs ▸ h₀) fun _ _ _ h => h)
      have ih := ih name fun c n hc => hno c n (List.mem_append_left _ hc)
      cases e with
      | call c r =>
          have hcalls : calls (tr ++ [.call c r]) = calls tr ++ [(c, r.a0)] := List.filterMap_append
          rw [hcalls, stored_snoc, ← ih]
          exact hm.call_store hs name
      | reboot =>
          have hcalls : calls (tr ++ [.reboot]) = calls tr := by simp [calls]
          rw [hcalls, ← ih]
          exact (hm.reboot hs.2).2 name
      | cut c n =>
          have hcalls : calls (tr ++ [.cut c n]) = calls tr := by simp [calls]
          rw [hcalls, ← ih]
          exact (hm.cut hs).2 name (hno c n (List.mem_append_right _ List.mem_cons_self))
  refine ⟨?_, fun name hno => ⟨hstore name hno, fun c bytes hc hread h0 hb hlen => ?_⟩⟩
  · obtain ⟨fs', h, _⟩ := reboot_of_holds hm.order hm.room hm.holds
    exact ⟨fs', .reboot h⟩
  · refine reads_ok hm.order hread h0 ?_ hlen
    rw [hc, hstore name hno]
    exact hb

end

/-! ## A small archive, once more -/

section

variable {fs : Fs}

/-- A machine with the files `a` and `b`. -/
theorem sample_powered : ∃ fs, PoweredOn fs
    ∧ ∀ i, i < filesMax → Restored (fs.files i) (sampleFiles i) := by
  obtain ⟨device, fs, hcap, h, hres⟩ := sample_device
  exact ⟨fs, ⟨device, hcap, h⟩, hres⟩

/-- File `b` is the last. -/
theorem callB_keepsLayout (files : Nat → File) (a2 : BitVec 32) :
    KeepsLayout files (callB true a2) 1 := fun _ => Or.inl rfl

/-- File `a` outlives a power cut in a write to `b`. -/
theorem files_survive_power_cuts_other : ∃ fs₀ fs n, PoweredOn fs₀
    ∧ Run (· = fs₀) ModerateStep [.cut (callB true 500) n] fs
    ∧ fileOf fs.files [97] = fileOf fs₀.files [97] := by
  obtain ⟨fs₀, hp, hall⟩ := sample_powered
  have hm := mirrored_run (.start hp)
  have hd := callB_denotes hall true 500
  obtain ⟨device, _, hcut, _, _, _, fs, hboot, _, _⟩ := cut_torn (n := 4) hm (callB_fitting fs₀) hd
    (callB_keepsLayout _ _) (by decide)
  have hmod : Moderate fs₀ (.cut (callB true 500) 4) := by
    refine ⟨callB_fitting fs₀, fun i hi => ?_⟩
    rw [hi.unique hd]
    exact callB_keepsLayout _ _
  have hs : ModerateStep fs₀ (.cut (callB true 500) 4) fs :=
    ⟨hmod, .cut rfl (by decide) hcut hboot⟩
  have h0 : Run (· = fs₀) ModerateStep [] fs₀ := .start rfl
  have hr : Run (· = fs₀) ModerateStep [.cut (callB true 500) 4] fs := h0.snoc hs
  refine ⟨fs₀, fs, 4, hp, hr, ((files_survive_power_cuts hp hr).2 [97] ?_).1.trans Option.map_id'⟩
  intro c n hc
  obtain ⟨rfl, rfl⟩ : c = callB true 500 ∧ n = 4 := by simpa using hc
  rw [← hd.2.1, show fileName (fs₀.files 1) = [98] from (hd.2.1.trans (by decide))]
  decide

end

section

variable {fs : Fs} {c : FileCall} {tr : List PowerEvent}

/--
**A write that is cut.** The machine can be started again, the other files are what they were, and
the file that was being written is what it was if its header was not reached. If it was, the file
has its new length, the bytes whose sectors were written are the new ones, and the others are those
that the device had there before, which are the old bytes of the file as far as there were any.
-/
theorem power_cut_tears {n i : Nat} (hr : Run PoweredOn ModerateStep tr fs) (hw : FittingWrite fs c)
    (hd : Denotes fs.files (callName c) i) (hu : (fs.files i).inUse)
    (hk : KeepsLayout fs.files c i) (hn : n ≤ diskMaxSize / sectorSize) :
    ∃ fs' old bytes, PowerStep fs (.cut c n) fs'
      ∧ (∀ name, name ≠ callName c → fileOf fs'.files name = fileOf fs.files name)
      ∧ fileOf fs.files (callName c) = some old ∧ fileOf fs'.files (callName c) = some bytes
      ∧ (n * sectorSize ≤ offOf fs.files i → bytes = old)
      ∧ (offOf fs.files i < n * sectorSize → bytes.length = (passed c).length
        ∧ ∀ j b, bytes[j]? = some b →
          (offOf fs.files i + sizeofTarHeader + j < n * sectorSize → (passed c)[j]? = some b)
          ∧ (n * sectorSize ≤ offOf fs.files i + sizeofTarHeader + j →
            b = fs.device.bytes (offOf fs.files i + sizeofTarHeader + j)
            ∧ (j < old.length → old[j]? = some b))) := by
  have hm := mirrored_run hr
  obtain ⟨device, new, hcut, hnew, hbytes, ho, fs', hboot, _, hres⟩ := cut_torn hm hw hd hk hn
  have hold := hm.holds.member i hd.1 hu
  have hnew := hnew.member i hd.1 (by rw [written_inUse]; exact hu)
  rw [offOf_written hk hd.1, written_self] at hnew
  have hlen : (passed c).length = c.len.toNat := by
    unfold passed
    rw [List.length_map, List.length_range]
  have hget : ∀ (f : File) j b, (contents f)[j]? = some b → j < f.size ∧ f.data j = b := by
    intro f j b hb
    obtain ⟨hj, hb⟩ := List.getElem?_eq_some_iff.mp hb
    unfold contents at hj hb
    rw [List.length_map, List.length_range] at hj
    rw [List.getElem_map, List.getElem_range] at hb
    exact ⟨hj, hb⟩
  refine ⟨fs', contents (fs.files i), contents (torn fs.files i device.bytes
    (tornSize fs.files c i n) i), .cut hw.write hn hcut hboot, fun name hne => ?_,
    fileOf_eq hm.order hd hu, ?_, fun hle => ?_, fun hlt => ⟨?_, fun j b hb => ?_⟩⟩
  · rw [fileOf_restored hres]
    exact fileOf_torn_other fun he => hne (he.trans hd.2.1)
  · rw [fileOf_restored hres]
    exact fileOf_eq ho hd.torn (by rw [torn_inUse]; exact hu)
  · -- the old archive from here on
    have hsize : tornSize fs.files c i n = (fs.files i).size := if_neg (by omega)
    unfold contents
    rw [torn_self, hsize]
    refine List.map_congr_left fun j hj => ?_
    dsimp only
    rw [hbytes, if_neg (by omega)]
    exact hold.data j (List.mem_range.mp hj)
  · unfold contents
    rw [List.length_map, List.length_range, torn_self, hlen]
    exact if_pos hlt
  · have hsize : tornSize fs.files c i n = c.len.toNat := if_pos hlt
    obtain ⟨hj, hdata⟩ := hget _ j b hb
    rw [torn_self, hsize] at hj
    rw [torn_self] at hdata
    dsimp only at hj hdata
    rw [hbytes] at hdata
    refine ⟨fun hin => ?_, fun hout => ?_⟩
    · rw [if_pos hin, hnew.data j hj] at hdata
      have hw : contents (written fs.files c i i) = passed c := contents_written
      rw [← hw, ← hdata]
      unfold contents
      rw [List.getElem?_map, written_self]
      dsimp only
      rw [List.getElem?_range hj]
      rfl
    · rw [if_neg (by omega)] at hdata
      refine ⟨hdata.symm, fun hj' => ?_⟩
      unfold contents at hj' ⊢
      rw [List.length_map, List.length_range] at hj'
      rw [hold.data j hj'] at hdata
      rw [List.getElem?_map, List.getElem?_range hj', ← hdata]
      rfl

end

/-- The header of `b` and none of its data are written when the power fails: all its 500 bytes are what
the device had there. -/
theorem power_cut_tears_b : ∃ fs fs' bytes, Run PoweredOn ModerateStep [] fs
    ∧ PowerStep fs (.cut (callB true 500) 4) fs'
    ∧ fileOf fs'.files (callName (callB true 500)) = some bytes ∧ bytes.length = 500
    ∧ ∀ j b, bytes[j]? = some b → b = fs.device.bytes (2048 + j) := by
  obtain ⟨fs, hp, hall⟩ := sample_powered
  have hd := callB_denotes hall true 500
  have hu0 : (fs.files 0).inUse := (hall 0 (by decide)).inUse
  have hu1 : (fs.files 1).inUse := (hall 1 (by decide)).inUse
  have hoff : offOf fs.files 1 = 1536 := by
    rw [offOf_succ hu0]
    unfold recordSize
    rw [(hall 0 (by decide)).size rfl, show offOf fs.files 0 = 0 from rfl]
    decide
  have hlt : offOf fs.files 1 < 4 * sectorSize := by
    rw [hoff]
    decide
  obtain ⟨fs', old, bytes, hs, _, _, hb, _, hnew⟩ := power_cut_tears (n := 4) (.start hp)
    (callB_fitting fs) hd hu1 (callB_keepsLayout _ _) (by decide)
  refine ⟨fs, fs', bytes, .start hp, hs, hb, (hnew hlt).1.trans ?_, fun j b hj => ?_⟩
  · unfold passed
    rw [List.length_map, List.length_range]
    decide
  · have hbyte := (((hnew hlt).2 j b hj).2 (by rw [hoff]; simp only [sectorSize, sizeofTarHeader]; omega)).1
    rw [hoff] at hbyte
    exact hbyte

end Os1000.Proof
