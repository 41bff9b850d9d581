import Os1000.Kernel.Storage
import Os1000.Proof.DiskCalls
import Os1000.Proof.Power

/-!
# The file system over the block driver is the one over a sector store

A file call writes its archive through the driver, one sector after the other, and devices,
handlers and the network go on in between. What comes of it is what the file system over a sector
store does in one step, and where the power fails on the way, some number of sectors has been
written and no sector is half written: the device may have executed the request that is under way,
or not. When the machine is started again, what `fs_init` has read through the driver is what is on
the device, and the power may fail again before it is done.

The abstract run is carried along as ghost state (`Booting`, `StorageInv`). It takes a step when a
call returns and when the power fails.
-/

namespace Os1000.Proof

open Os1000 Lib

/-! ## A file call in two parts -/

section

variable {α β : Type} {fs fs' : Fs} {c : FileCall} {r : FileReturn} {flushed : Bool}

/-- A call that does something with what `fs_flush` leaves. -/
theorem fileCallWith_map (flush : Fs → Except Stop α) (keep : Fs → α) (g : α → β) (fs : Fs)
    (c : FileCall) :
    fileCallWith (fun fs => flush fs >>= fun x => .ok (g x)) (fun fs => g (keep fs)) fs c
      = fileCallWith flush keep fs c >>= fun x => .ok (g x.1, x.2) := by
  unfold fileCallWith
  cases fsLookup fs c.user c.filename with
  | error e => rfl
  | ok o =>
      cases o with
      | none => rfl
      | some i =>
          rw [ok_bind, ok_bind]
          dsimp only
          cases c.write with
          | false =>
              rw [if_neg Bool.false_ne_true, if_neg Bool.false_ne_true]
              cases memcpy c.user c.buf _ (fs.files i).data 0 fileDataSize _ with
              | error e => rfl
              | ok user => rfl
          | true =>
              rw [if_pos rfl, if_pos rfl]
              cases memcpy (fs.files i).data 0 fileDataSize c.user c.buf _ _ with
              | error e => rfl
              | ok data =>
                  rw [ok_bind, ok_bind]
                  cases flush _ with
                  | error e => rfl
                  | ok x => rfl

/-- The last loop of `fs_flush`, if it is run. -/
def endFileCall (x : Fs × Bool) : Fs := if x.2 then writeDisk x.1 else x.1

/-- What is on the device if the loop is cut after `n` sectors. -/
def cutFileCall (n : Nat) (x : Fs × Bool) : Device :=
  if x.2 then (writeSectors x.1 n).device else x.1.device

theorem handleFileCall_eq (fs : Fs) (c : FileCall) : handleFileCall fs c
    = beginFileCall fs c >>= fun x => .ok (endFileCall x.1, x.2) := by
  have hflush : fsFlush = fun fs => (do return (← flushBuffer fs, true) : Except Stop (Fs × Bool))
      >>= fun x => .ok (endFileCall x) := by
    funext fs
    unfold fsFlush
    cases flushBuffer fs with
    | error e => rfl
    | ok fs' => rfl
  unfold handleFileCall beginFileCall
  rw [hflush]
  exact fileCallWith_map _ (fun fs => (fs, false)) endFileCall fs c

/-- A write that is cut is one that was begun. -/
theorem cutWrite_eq (n : Nat) : cutWrite fs c n
    = beginFileCall fs c >>= fun x => .ok (cutFileCall n x.1) := by
  have hmap := fileCallWith_map (fun fs => do return (← flushBuffer fs, true)) (fun fs => (fs, false))
    (cutFileCall n) fs c
  have hflush : (fun fs => do return (writeSectors (← flushBuffer fs) n).device)
      = fun fs => (do return (← flushBuffer fs, true) : Except Stop (Fs × Bool)) >>= fun x =>
        .ok (cutFileCall n x) := by
    funext fs
    cases flushBuffer fs with
    | error e => rfl
    | ok fs' => rfl
  unfold cutWrite beginFileCall
  rw [hflush, show (fun fs : Fs => fs.device) = fun fs => cutFileCall n (fs, false) from rfl, hmap]
  cases fileCallWith _ _ fs c with
  | error e => rfl
  | ok x => rfl

theorem flushBuffer_device (h : flushBuffer fs = .ok fs') : fs'.device = fs.device := by
  unfold flushBuffer at h
  obtain ⟨_, _, h⟩ := bind_eq_ok.mp h
  obtain ⟨_, _, h⟩ := bind_eq_ok.mp h
  rw [pure_eq_ok] at h
  rw [← h]

/-- Nothing is written to the device before the loop. -/
theorem beginFileCall_device (h : beginFileCall fs c = .ok ((fs', flushed), r)) :
    fs'.device = fs.device := by
  rcases fileCallWith_cases h with h | ⟨_, files, h⟩
  · rw [Prod.mk.injEq] at h
    rw [h.1]
  · obtain ⟨fs₁, hf, h⟩ := bind_eq_ok.mp h
    rw [pure_eq_ok, Prod.mk.injEq] at h
    have hdev := flushBuffer_device hf
    rw [← h.1]
    exact hdev

/-- Only a `SYS_WRITEFILE` runs the loop. -/
theorem beginFileCall_write (h : beginFileCall fs c = .ok ((fs', true), r)) : c.write = true := by
  rcases fileCallWith_cases h with h | ⟨hw, _⟩
  · rw [Prod.mk.injEq] at h
    cases h.2
  · exact hw

/-- The loop leaves everything but the bytes of the device. -/
theorem writeSectors_keeps (fs : Fs) (n : Nat) : (writeSectors fs n).files = fs.files
    ∧ (writeSectors fs n).disk = fs.disk
    ∧ (writeSectors fs n).device.capacity = fs.device.capacity := by
  refine loop_inv (fun _ (t : Fs) => t.files = fs.files ∧ t.disk = fs.disk
    ∧ t.device.capacity = fs.device.capacity) n ⟨rfl, rfl, rfl⟩ fun i t _ ht => ?_
  unfold writeSector
  split
  · exact ht
  · exact ht

theorem writeSectors_succ (fs : Fs) (n : Nat) :
    writeSectors fs (n + 1) = writeSector (writeSectors fs n) n := by
  unfold writeSectors
  rw [List.range_succ, List.foldl_append]
  rfl

/-- The loop of `fs_init` does not write to the device. -/
theorem fsInitLoop_device : ∀ (n off i : Nat) (fs : Fs), fsInitLoop fs off i n = .ok fs' →
    fs'.device = fs.device
  | 0, off, i, fs, h => by
      rw [fsInitLoop] at h
      rw [Except.ok.inj h]
  | n + 1, off, i, fs, h => by
      rw [fsInitLoop] at h
      obtain ⟨o, he, h⟩ := bind_eq_ok.mp h
      cases o with
      | none =>
          rw [pure_eq_ok] at h
          rw [h]
      | some next =>
          refine (fsInitLoop_device n next.2 (i + 1) next.1 h).trans ?_
          unfold fsInitEntry at he
          obtain ⟨first, _, he⟩ := bind_eq_ok.mp he
          split at he
          · simp [pure_eq_ok] at he
          obtain ⟨cmp, _, he⟩ := bind_eq_ok.mp he
          split at he
          · cases he
          obtain ⟨next', hf, he⟩ := bind_eq_ok.mp he
          rw [pure_eq_ok, Option.some.injEq] at he
          subst he
          unfold fsInitFile at hf
          obtain ⟨_, _, hf⟩ := bind_eq_ok.mp hf
          obtain ⟨_, _, hf⟩ := bind_eq_ok.mp hf
          obtain ⟨_, _, hf⟩ := bind_eq_ok.mp hf
          rw [pure_eq_ok] at hf
          rw [← hf]

/-- What `fs_init` has after it has read `i` sectors. -/
def partRead (device : Device) (i : Nat) : Fs :=
  (List.range i).foldl readSector ⟨noFiles, fun _ => 0, device⟩

theorem partRead_succ (device : Device) (i : Nat) :
    partRead device (i + 1) = readSector (partRead device i) i := by
  unfold partRead
  rw [List.range_succ, List.foldl_append]
  rfl

theorem partRead_keeps (device : Device) (i : Nat) :
    (partRead device i).files = noFiles ∧ (partRead device i).device = device := by
  refine loop_inv (fun _ (t : Fs) => t.files = noFiles ∧ t.device = device) i ⟨rfl, rfl⟩
    fun i t _ ht => ?_
  unfold readSector
  split
  · exact ht
  · exact ht

theorem reboot_device (h : reboot device = .ok fs) : fs.device = device :=
  (fsInitLoop_device filesMax 0 0 _ h).trans (partRead_keeps device _).2

end

/-! ## What is on the disk -/

section

variable {d d' : DiskState} {device : Device} {sectors : Nat} {a : Nat → Sector}
  {w : Option (Bytes × Nat × Bool)} {buf buf' : Bytes} {sector : Nat} {isWrite : Bool}

theorem deviceOf_eq (hcap : d.drv.sectors = device.capacity) (hdisk : d.disk = deviceSectors device) :
    deviceOf d = device := by
  unfold deviceOf
  rw [hcap, hdisk]
  congr 1
  funext x
  show device.bytes (x / sectorSize * sectorSize + x % sectorSize) = device.bytes x
  rw [Nat.div_add_mod']

theorem deviceSectors_deviceOf (d : DiskState) : deviceSectors (deviceOf d) = d.disk := by
  funext x i
  have hi : (i : Nat) < sectorSize := i.isLt
  show d.disk ((x * sectorSize + i) / sectorSize) ⟨(x * sectorSize + i) % sectorSize, _⟩ = d.disk x i
  have hdiv : (x * sectorSize + i) / sectorSize = x := by
    rw [Nat.mul_comm, Nat.mul_add_div (by decide), Nat.div_eq_of_lt hi, Nat.add_zero]
  have hmod : (x * sectorSize + i) % sectorSize = i := by
    rw [Nat.mul_comm, Nat.mul_add_mod, Nat.mod_eq_of_lt hi]
  simp only [hdiv, hmod]

/-- The call to the disk that is under way. -/
def request : DiskStage → Option (Bytes × Nat × Bool)
  | .none => none
  | .filling buf sector isWrite => some (buf, sector, isWrite)
  | .filled buf sector isWrite => some (buf, sector, isWrite)
  | .described buf sector isWrite => some (buf, sector, isWrite)
  | .underway buf sector isWrite => some (buf, sector, isWrite)
  | .finished buf sector isWrite => some (buf, sector, isWrite)

/-- Until a call returns, it is the one that was made. -/
theorem request_quiet (hs : DiskStep d .quiet d') :
    request (diskStage d'.drv.call) = request (diskStage d.drv.call)
      ∨ request (diskStage d.drv.call) = none
        ∧ ∃ buf sector isWrite, d'.drv.call = .fill (.disk buf sector isWrite) := by
  cases hs with
  | drivers hstep hl _ _ =>
      cases blkStep_of_driversStep hstep hl with
      | same _ hst => exact Or.inl (congrArg request hst)
      | start _ hnone hcall _ => exact Or.inr ⟨congrArg request hnone, _, _, _, hcall⟩
      | offer hcall hcall' =>
          dsimp only
          rw [hcall, hcall']
          exact Or.inl rfl
      | finish _ hcall hcall' =>
          dsimp only
          rw [hcall, hcall']
          exact Or.inl rfl
  | fill hcall hstep _ =>
      rw [hcall]
      cases hstep with
      | fill _ _ => exact Or.inl rfl
      | descs hcall' _ => rw [hcall] at hcall'; cases hcall'
  | descs hcall hstep =>
      rw [hcall]
      cases hstep with
      | fill hcall' _ => rw [hcall] at hcall'; cases hcall'
      | descs _ _ => exact Or.inl rfl
  | take _ => exact Or.inl rfl
  | execute _ _ => exact Or.inl rfl
  | giveBack _ _ _ => exact Or.inl rfl

theorem done_idle (hs : DiskStep d (.done buf sector isWrite buf') d') : d'.drv.call = .idle := by
  cases hs with
  | reject hcall hstep =>
      cases hstep with
      | reject _ _ _ => exact hcall
      | ret _ _ => rfl
  | ret hcall hstep _ =>
      cases hstep with
      | reject hcall' _ _ => rw [hcall] at hcall'; cases hcall'
      | ret _ _ => rfl

/-- The call to the disk that is under way, if any, is `w`. -/
def Asked (d : DiskState) (w : Option (Bytes × Nat × Bool)) : Prop :=
  ∀ req, request (diskStage d.drv.call) = some req → w = some req

theorem asked_idle (h : d.drv.call = .idle) : Asked d w := by
  intro req hreq
  rw [h] at hreq
  cases hreq

theorem Asked.quiet (h : Asked d w) (hs : DiskStep d .quiet d')
    (hnew : ∀ buf sector isWrite, d'.drv.call = .fill (.disk buf sector isWrite) →
      w = some (buf, sector, isWrite)) : Asked d' w := by
  intro req hreq
  rcases request_quiet hs with he | ⟨_, buf, sector, isWrite, hcall⟩
  · exact h req (he.symm.trans hreq)
  · rw [hcall] at hreq
    rw [hnew buf sector isWrite hcall]
    exact hreq

/-- A call that is under way is still so after a step in which none returns. -/
theorem Asked.before (h : Asked d' w) (hs : DiskStep d .quiet d') : Asked d w := by
  intro req hreq
  rcases request_quiet hs with he | ⟨hno, _⟩
  · exact h req (he.trans hreq)
  · rw [hno] at hreq
    cases hreq

/-- The call that returns is the one that was under way. -/
theorem asked_done (hs : DiskStep d (.done buf sector isWrite buf') d')
    (hw : w = some (buf, sector, isWrite)) : Asked d w := by
  cases hs with
  | reject hcall _ => exact asked_idle hcall
  | ret hcall _ _ =>
      intro req hreq
      rw [hcall] at hreq
      exact hw.trans hreq

/-- **No sector is half written**: the call that is under way has written its sector, or not. -/
theorem DiskOk.disk_cases (h : DiskOk sectors a d) : d.disk = a
    ∨ ∃ buf sector, request (diskStage d.drv.call) = some (buf, sector, true)
      ∧ sector < sectors ∧ d.disk = Function.update a sector (sectorAt buf 0) := by
  have hst := h.stage
  cases hstage : diskStage d.drv.call with
  | none => rw [hstage] at hst; exact Or.inl hst.2
  | filling => rw [hstage] at hst; exact Or.inl hst.1.2
  | filled => rw [hstage] at hst; exact Or.inl hst.1.2
  | described => rw [hstage] at hst; exact Or.inl hst.1.2
  | underway buf sector isWrite =>
      rw [hstage] at hst
      obtain ⟨hlt, _, hu⟩ := hst
      cases hu with
      | offered _ _ hdisk _ => exact Or.inl hdisk
      | taken _ _ _ _ hdisk _ => exact Or.inl hdisk
      | executed _ _ ht =>
          have hdisk : d.disk = _ := ht.disk
          cases isWrite with
          | false => exact Or.inl hdisk
          | true => exact Or.inr ⟨buf, sector, rfl, h.sectors ▸ hlt, hdisk⟩
  | finished buf sector isWrite =>
      rw [hstage] at hst
      obtain ⟨hlt, _, ht⟩ := hst
      have hdisk : d.disk = _ := ht.disk
      cases isWrite with
      | false => exact Or.inl hdisk
      | true => exact Or.inr ⟨buf, sector, rfl, h.sectors ▸ hlt, hdisk⟩

theorem DiskOk.disk_eq (h : DiskOk sectors a d) (hno : request (diskStage d.drv.call) = none) :
    d.disk = a := by
  rcases h.disk_cases with hd | ⟨_, _, hreq, _⟩
  · exact hd
  · rw [hno] at hreq
    cases hreq

/-- What the device writes for `fs_flush` is what the sector store takes. -/
theorem writeSector_update {fs : Fs} {i : Nat} (hi : i < fs.device.capacity) :
    deviceSectors (writeSector fs i).device
      = Function.update (deviceSectors fs.device) i
          (sectorAt (fun x => fs.disk (i * sectorSize + x)) 0) := by
  rw [writeSector_replay fs i (fun _ => 0), replayStep_some (sectorWrite_inside hi)]

/-- What the device answers `fs_init` is what the sector store gives. -/
theorem readSector_blit (fs : Fs) (i : Nat) :
    blit fs.disk (i * sectorSize) (sectorAnswer fs.device.capacity (deviceSectors fs.device)
      (fun x => fs.disk (i * sectorSize + x)) i false) 0 sectorSize = (readSector fs i).disk := by
  funext x
  by_cases hx : x < i * sectorSize ∨ i * sectorSize + sectorSize ≤ x
  · rw [blit_outside hx]
    unfold readSector
    split
    · rfl
    · exact (blit_outside hx).symm
  · obtain ⟨j, rfl⟩ := Nat.exists_eq_add_of_le (show i * sectorSize ≤ x by omega)
    have hj : j < sectorSize := by omega
    rw [blit_inside hj, Nat.zero_add]
    exact (readSector_answer fs i ⟨j, hj⟩).symm

end

/-! ## The invariant -/

/-- The calls of a run that have returned, with what they returned. -/
def returned (tr : List StorageLabel) : List (FileCall × FileReturn) :=
  tr.filterMap fun
    | .ret c r => some (c, r)
    | _ => none

/-- The same of a run over a sector store. -/
def answers (es : List PowerEvent) : List (FileCall × FileReturn) :=
  es.filterMap fun
    | .call c r => some (c, r)
    | _ => none

/-- The run `es` over a sector store tells what has happened in `tr`. -/
structure Tells (tr : List StorageLabel) (es : List PowerEvent) : Prop where
  answers : answers es = returned tr
  cuts : ∀ c n, .cut c n ∈ es → .call c ∈ tr

/-- `fs_init` has read `i` sectors of the device `dev`, and whatever it comes to, `es` is the run that
leads there. -/
structure Booting (device dev : Device) (tr : List StorageLabel) (s : Storage) (i : Nat)
    (es : List PowerEvent) : Prop where
  pc : s.pc = .boot i
  le : i ≤ diskMaxSize / sectorSize
  disk : DiskOk dev.capacity (deviceSectors dev) s.dev
  asked : Asked s.dev s.wants
  files : s.files = noFiles
  buffer : s.disk = (partRead dev i).disk
  tells : Tells tr es
  reached : ∀ fs, reboot dev = .ok fs → Run (fun fs => reboot device = .ok fs) PowerStep es fs

/-- A call that was made in `fs₀` has `i` sectors of the archive written, which gives `fs`. -/
inductive Flushing (fs₀ : Fs) (c : FileCall) (r : FileReturn) : Nat → Fs → Prop where
  | nothing {fs : Fs} : beginFileCall fs₀ c = .ok ((fs, false), r) →
      Flushing fs₀ c r (diskMaxSize / sectorSize) fs
  | sectors {fs : Fs} {i : Nat} : beginFileCall fs₀ c = .ok ((fs, true), r) →
      i ≤ diskMaxSize / sectorSize → Flushing fs₀ c r i (writeSectors fs i)

/-- The abstract run that a state comes from. -/
def Reached (device : Device) (tr : List StorageLabel) (es : List PowerEvent) (fs : Fs) :
    StoragePc → Prop
  | .boot _ => False
  | .idle => Run (fun fs => reboot device = .ok fs) PowerStep es fs
  | .flush i c r => .call c ∈ tr ∧ ∃ fs₀,
      Run (fun fs => reboot device = .ok fs) PowerStep es fs₀ ∧ Flushing fs₀ c r i fs

/-- The invariant from then on: `fs` is the file system, with what has been written by calls to the
disk that have returned. -/
structure StorageInv (device : Device) (tr : List StorageLabel) (s : Storage)
    (es : List PowerEvent) (fs : Fs) : Prop where
  disk : DiskOk fs.device.capacity (deviceSectors fs.device) s.dev
  asked : Asked s.dev s.wants
  files : s.files = fs.files
  buffer : s.disk = fs.disk
  tells : Tells tr es
  reached : Reached device tr es fs s.pc

section

variable {device dev : Device} {tr : List StorageLabel} {s s' : Storage} {es : List PowerEvent}
  {fs : Fs} {c : FileCall} {r : FileReturn} {i : Nat}

theorem returned_snoc (l : StorageLabel) (hl : ∀ c r, l ≠ .ret c r) :
    returned (tr ++ [l]) = returned tr := by
  unfold returned
  rw [List.filterMap_append]
  cases l with
  | ret c r => exact absurd rfl (hl c r)
  | quiet => exact List.append_nil _
  | call => exact List.append_nil _
  | cut => exact List.append_nil _

theorem answers_snoc {e : PowerEvent} (he : ∀ c r, e ≠ .call c r) :
    answers (es ++ [e]) = answers es := by
  unfold answers
  rw [List.filterMap_append]
  cases e with
  | call c r => exact absurd rfl (he c r)
  | reboot => exact List.append_nil _
  | cut => exact List.append_nil _

theorem Tells.snoc (h : Tells tr es) (l : StorageLabel) (hl : ∀ c r, l ≠ .ret c r) :
    Tells (tr ++ [l]) es :=
  ⟨h.answers.trans (returned_snoc l hl).symm, fun c n hc => List.mem_append_left _ (h.cuts c n hc)⟩

/-- A call returns in both. -/
theorem Tells.ret (h : Tells tr es) (c : FileCall) (r : FileReturn) :
    Tells (tr ++ [.ret c r]) (es ++ [.call c r]) := by
  refine ⟨?_, fun c' n hc => ?_⟩
  · unfold Proof.answers returned
    rw [List.filterMap_append, List.filterMap_append]
    exact congrArg (· ++ [(c, r)]) h.answers
  · rcases List.mem_append.mp hc with hc | hc
    · exact List.mem_append_left _ (h.cuts c' n hc)
    · simp at hc

/-- The power fails, and for the sector store this is the event `e`. -/
theorem Tells.cut {e : PowerEvent} (h : Tells tr es) (hnot : ∀ c r, e ≠ .call c r)
    (hcut : ∀ c n, e = .cut c n → .call c ∈ tr) : Tells (tr ++ [.cut]) (es ++ [e]) := by
  refine ⟨?_, fun c n hc => ?_⟩
  · rw [answers_snoc hnot, h.answers]
    exact (returned_snoc _ (fun _ _ hl => by cases hl)).symm
  · rcases List.mem_append.mp hc with hc | hc
    · exact List.mem_append_left _ (h.cuts c n hc)
    · exact List.mem_append_left _ (hcut c n (List.mem_singleton.mp hc).symm)

theorem wants_boot (hpc : s.pc = .boot i) (hi : i < diskMaxSize / sectorSize) :
    s.wants = some (s.sector i, i, false) := by
  unfold Storage.wants
  rw [hpc]
  exact if_pos hi

theorem wants_idle (hpc : s.pc = .idle) : s.wants = none := by
  unfold Storage.wants
  rw [hpc]

theorem wants_flush (hpc : s.pc = .flush i c r) (hi : i < diskMaxSize / sectorSize) :
    s.wants = some (s.sector i, i, true) := by
  unfold Storage.wants
  rw [hpc]
  exact if_pos hi

theorem wants_done (hpc : s.pc = .flush (diskMaxSize / sectorSize) c r) : s.wants = none := by
  unfold Storage.wants
  rw [hpc]
  exact if_neg (Nat.lt_irrefl _)

/-! ## Starting -/

/-- The device is as it was when the machine was started. -/
theorem Booting.device_eq (h : Booting device dev tr s i es) : deviceOf s.dev = dev := by
  refine deviceOf_eq h.disk.sectors ?_
  rcases h.disk.disk_cases with hd | ⟨buf, sector, hreq, _, _⟩
  · exact hd
  · -- `fs_init` writes nothing
    have hwants := h.asked _ hreq
    unfold Storage.wants at hwants
    rw [h.pc] at hwants
    dsimp only at hwants
    split at hwants
    · injection hwants with hwants
      injection hwants with _ hwants
      injection hwants with _ hwants
      cases hwants
    · cases hwants

theorem booting_start {d : DiskState} (hd : DiskStart d.drv.sectors d.disk d) (ht : Tells tr es)
    (hr : ∀ fs, reboot (deviceOf d) = .ok fs →
      Run (fun fs => reboot device = .ok fs) PowerStep es fs) :
    Booting device (deviceOf d) tr ⟨noFiles, fun _ => 0, .boot 0, d⟩ 0 es where
  pc := rfl
  le := Nat.zero_le _
  disk := by
    rw [deviceSectors_deviceOf]
    exact (diskInv_start hd).ok
  asked := asked_idle hd.1.1
  files := rfl
  buffer := rfl
  tells := ht
  reached := hr

/-- A step of the drivers or of a device. -/
theorem Booting.driver {d : DiskState} (h : Booting device dev tr s i es)
    (hs : DiskStep s.dev .quiet d)
    (hnew : ∀ buf sector isWrite, d.drv.call = .fill (.disk buf sector isWrite) →
      s.wants = some (buf, sector, isWrite)) :
    Booting device dev (tr ++ [.quiet]) { s with dev := d } i es :=
  ⟨h.pc, h.le, h.disk.quiet hs, h.asked.quiet hs hnew, h.files, h.buffer,
    h.tells.snoc _ (fun _ _ hl => by cases hl), h.reached⟩

/-- A sector has been read. -/
theorem Booting.read {buf : Bytes} {d : DiskState} (h : Booting device dev tr s i es)
    (hi : i < diskMaxSize / sectorSize) (hs : DiskStep s.dev (.done (s.sector i) i false buf) d) :
    Booting device dev (tr ++ [.quiet])
      { s with disk := s.putSector i buf, pc := .boot (i + 1), dev := d } (i + 1) es := by
  obtain ⟨hok, hbuf⟩ := h.disk.done hs
  rw [replayStep_none rfl] at hok
  refine ⟨rfl, hi, hok, asked_idle (done_idle hs), h.files, ?_,
    h.tells.snoc _ (fun _ _ hl => by cases hl), h.reached⟩
  have hsec : s.sector i = fun x => (partRead dev i).disk (i * sectorSize + x) := by
    unfold Storage.sector
    rw [h.buffer]
  have hread := readSector_blit (partRead dev i) i
  rw [(partRead_keeps dev i).2, ← hsec, ← hbuf] at hread
  show blit s.disk (i * sectorSize) buf 0 sectorSize = _
  rw [h.buffer, hread, partRead_succ]

theorem Booting.fs_eq (h : Booting device dev tr s i es) : s.fs = partRead dev i := by
  obtain ⟨hfiles, hdev⟩ := partRead_keeps dev i
  rw [show partRead dev i = ⟨(partRead dev i).files, (partRead dev i).disk, (partRead dev i).device⟩
    from rfl, hfiles, hdev]
  unfold Storage.fs
  rw [h.files, h.buffer, h.device_eq]

/-- `fs_init` returns. -/
theorem Booting.booted (h : Booting device dev tr s (diskMaxSize / sectorSize) es)
    (hcall : s.dev.drv.call = .idle) (hloop : fsInitLoop s.fs 0 0 filesMax = .ok fs) :
    StorageInv device (tr ++ [.quiet]) { s with files := fs.files, disk := fs.disk, pc := .idle } es fs
      ∧ reboot dev = .ok fs := by
  rw [h.fs_eq] at hloop
  have hb : reboot dev = .ok fs := hloop
  refine ⟨⟨?_, asked_idle hcall, rfl, rfl, h.tells.snoc _ (fun _ _ hl => by cases hl),
    h.reached fs hb⟩, hb⟩
  rw [reboot_device hb]
  exact h.disk

/-! ## File calls -/

/-- With no call to the disk under way, the device is that of the sector store. -/
theorem StorageInv.fs_eq (h : StorageInv device tr s es fs)
    (hno : request (diskStage s.dev.drv.call) = none) : s.fs = fs := by
  unfold Storage.fs
  rw [h.files, h.buffer, deviceOf_eq h.disk.sectors (h.disk.disk_eq hno)]

theorem StorageInv.no_request (h : StorageInv device tr s es fs) (hw : s.wants = none) :
    request (diskStage s.dev.drv.call) = none := by
  cases hreq : request (diskStage s.dev.drv.call) with
  | none => rfl
  | some req =>
      have := h.asked req hreq
      rw [hw] at this
      cases this

/-- A step of the drivers or of a device. -/
theorem StorageInv.driver {d : DiskState} (h : StorageInv device tr s es fs)
    (hs : DiskStep s.dev .quiet d)
    (hnew : ∀ buf sector isWrite, d.drv.call = .fill (.disk buf sector isWrite) →
      s.wants = some (buf, sector, isWrite)) :
    StorageInv device (tr ++ [.quiet]) { s with dev := d } es fs where
  disk := h.disk.quiet hs
  asked := h.asked.quiet hs hnew
  files := h.files
  buffer := h.buffer
  tells := h.tells.snoc _ fun _ _ hl => by cases hl
  reached := by
    have hr := h.reached
    dsimp only
    cases hpc : s.pc with
    | boot i => rw [hpc] at hr; exact hr
    | idle => rw [hpc] at hr; exact hr
    | flush i c r => rw [hpc] at hr; exact ⟨List.mem_append_left _ hr.1, hr.2⟩

/-- A call is made. -/
theorem StorageInv.call {fs' : Fs} {flushed : Bool} (h : StorageInv device tr s es fs)
    (hpc : s.pc = .idle) (hcall : s.dev.drv.call = .idle)
    (hb : beginFileCall s.fs c = .ok ((fs', flushed), r)) :
    StorageInv device (tr ++ [.call c]) { s with
      files := fs'.files
      disk := fs'.disk
      pc := .flush (if flushed then 0 else diskMaxSize / sectorSize) c r } es fs' := by
  have hr := h.reached
  rw [hpc] at hr
  rw [h.fs_eq (h.no_request (wants_idle hpc))] at hb
  refine ⟨?_, asked_idle hcall, rfl, rfl, h.tells.snoc _ (fun _ _ hl => by cases hl),
    List.mem_append_right _ (List.mem_singleton_self _), fs, hr, ?_⟩
  · rw [beginFileCall_device hb]
    exact h.disk
  · cases flushed with
    | false => exact .nothing hb
    | true => exact .sectors hb (Nat.zero_le _)

/-- A sector has been written. -/
theorem StorageInv.written {buf : Bytes} {d : DiskState} (h : StorageInv device tr s es fs)
    (hpc : s.pc = .flush i c r) (hi : i < diskMaxSize / sectorSize)
    (hs : DiskStep s.dev (.done (s.sector i) i true buf) d) :
    StorageInv device (tr ++ [.quiet])
      { s with disk := s.putSector i buf, pc := .flush (i + 1) c r, dev := d } es
      (writeSector fs i) := by
  have hr := h.reached
  rw [hpc] at hr
  obtain ⟨hmem, fs₀, hrun, hfl⟩ := hr
  obtain ⟨hok, hbuf⟩ := h.disk.done hs
  have hsec : s.sector i = fun x => fs.disk (i * sectorSize + x) := by
    unfold Storage.sector
    rw [h.buffer]
  -- the driver leaves the buffer of a write as it is
  have hsame : s.putSector i buf = s.disk := by
    have hbuf : buf = s.sector i := hbuf.trans (if_neg fun hf => by cases hf.2)
    unfold Storage.putSector
    funext x
    by_cases hx : x < i * sectorSize ∨ i * sectorSize + sectorSize ≤ x
    · exact blit_outside hx
    · obtain ⟨j, rfl⟩ := Nat.exists_eq_add_of_le (show i * sectorSize ≤ x by omega)
      rw [blit_inside (by omega), hbuf, Nat.zero_add]
      rfl
  have hdev : (writeSector fs i).device.capacity = fs.device.capacity := by
    unfold writeSector
    split <;> rfl
  have hfiles : (writeSector fs i).files = fs.files ∧ (writeSector fs i).disk = fs.disk := by
    unfold writeSector
    split <;> exact ⟨rfl, rfl⟩
  refine ⟨?_, asked_idle (done_idle hs), h.files.trans hfiles.1.symm,
    hsame.trans (h.buffer.trans hfiles.2.symm), h.tells.snoc _ (fun _ _ hl => by cases hl),
    List.mem_append_left _ hmem, fs₀, hrun, ?_⟩
  · rw [hdev, writeSector_replay fs i buf, ← hsec]
    exact hok
  · cases hfl with
    | nothing _ => exact absurd hi (Nat.lt_irrefl _)
    | sectors hb _ =>
        rw [← writeSectors_succ]
        exact .sectors hb hi

theorem Flushing.returns {fs₀ : Fs} (h : Flushing fs₀ c r (diskMaxSize / sectorSize) fs) :
    handleFileCall fs₀ c = .ok (fs, r) := by
  rw [handleFileCall_eq]
  cases h with
  | nothing hb => rw [hb]; rfl
  | sectors hb _ => rw [hb]; rfl

/-- The call returns. -/
theorem StorageInv.ret (h : StorageInv device tr s es fs)
    (hpc : s.pc = .flush (diskMaxSize / sectorSize) c r) (hcall : s.dev.drv.call = .idle) :
    StorageInv device (tr ++ [.ret c r]) { s with pc := .idle } (es ++ [.call c r]) fs := by
  have hr := h.reached
  rw [hpc] at hr
  obtain ⟨_, fs₀, hrun, hfl⟩ := hr
  exact ⟨h.disk, asked_idle hcall, h.files, h.buffer, h.tells.ret c r, hrun.snoc (.call hfl.returns)⟩

/-! ## The power fails -/

/-- **What the power leaves.** Wherever it fails, the device is that of the sector store after some
event: a reboot, or a cut in the call that was under way. -/
theorem StorageInv.left (h : StorageInv device tr s es fs) : ∃ e fs₀,
    Run (fun fs => reboot device = .ok fs) PowerStep es fs₀
      ∧ (∀ fs', reboot (deviceOf s.dev) = .ok fs' → PowerStep fs₀ e fs')
      ∧ (∀ c r, e ≠ .call c r) ∧ ∀ c n, e = .cut c n → .call c ∈ tr := by
  have hr := h.reached
  cases hpc : s.pc with
  | boot i => rw [hpc] at hr; cases hr
  | idle =>
      rw [hpc] at hr
      refine ⟨.reboot, fs, hr, fun fs' hb => .reboot ?_, fun _ _ he => (by cases he),
        fun _ _ he => by cases he⟩
      rw [← h.fs_eq (h.no_request (wants_idle hpc))]
      exact hb
  | flush i c r =>
      rw [hpc] at hr
      obtain ⟨hmem, fs₀, hrun, hfl⟩ := hr
      cases hfl with
      | nothing hbegin =>
          refine ⟨.reboot, fs₀, hrun, fun fs' hb => .reboot ?_, fun _ _ he => (by cases he),
            fun _ _ he => by cases he⟩
          rw [← beginFileCall_device hbegin, ← h.fs_eq (h.no_request (wants_done hpc))]
          exact hb
      | @sectors B _ hbegin hi =>
          have hw := beginFileCall_write hbegin
          -- `n` sectors have been written: those of the calls that returned, or one more
          have key : ∀ n, n ≤ diskMaxSize / sectorSize →
              s.dev.disk = deviceSectors (writeSectors B n).device →
              ∀ fs', reboot (deviceOf s.dev) = .ok fs' → PowerStep fs₀ (.cut c n) fs' := by
            intro n hn hdisk fs' hb
            have hcap : s.dev.drv.sectors = (writeSectors B n).device.capacity := by
              rw [(writeSectors_keeps B n).2.2, ← (writeSectors_keeps B i).2.2]
              exact h.disk.sectors
            refine .cut hw hn ?_ hb
            rw [cutWrite_eq, hbegin, ok_bind, deviceOf_eq hcap hdisk]
            rfl
          rcases h.disk.disk_cases with hd | ⟨buf, sector, hreq, hlt, hd⟩
          · exact ⟨.cut c i, fs₀, hrun, key i hi hd, fun _ _ he => (by cases he),
              fun _ _ he => by cases he; exact hmem⟩
          · have hwants := h.asked _ hreq
            have hlt' : i < diskMaxSize / sectorSize := by
              rcases Nat.lt_or_ge i (diskMaxSize / sectorSize) with hlt' | hge
              · exact hlt'
              · obtain rfl := Nat.le_antisymm hi hge
                rw [wants_done hpc] at hwants
                cases hwants
            rw [wants_flush hpc hlt'] at hwants
            obtain ⟨rfl, rfl, _⟩ : s.sector i = buf ∧ i = sector ∧ true = true := by
              simpa using hwants
            refine ⟨.cut c (i + 1), fs₀, hrun, key (i + 1) hlt' ?_, fun _ _ he => (by cases he),
              fun _ _ he => by cases he; exact hmem⟩
            rw [hd, writeSectors_succ, writeSector_update hlt]
            unfold Storage.sector
            rw [h.buffer]

theorem diskStart_deviceOf {d d' : DiskState} (h : DiskStart d.drv.sectors d.disk d') :
    deviceOf d' = deviceOf d := by
  obtain ⟨_, hsectors, hdisk, _⟩ := h
  unfold deviceOf
  rw [hsectors, hdisk]

/-- A device that has been initialised is its own beginning. -/
theorem DiskStart.self {sectors : Nat} {disk : Nat → Sector} {d : DiskState}
    (h : DiskStart sectors disk d) : DiskStart d.drv.sectors d.disk d := ⟨h.1, rfl, rfl, h.2.2.2⟩

/-- The power fails while files are in use. -/
theorem StorageInv.cut {d : DiskState} {e : PowerEvent} {fs₀ : Fs}
    (h : StorageInv device tr s es fs) (hd : DiskStart s.dev.drv.sectors s.dev.disk d)
    (hrun : Run (fun fs => reboot device = .ok fs) PowerStep es fs₀)
    (hstep : ∀ fs', reboot (deviceOf s.dev) = .ok fs' → PowerStep fs₀ e fs')
    (hnot : ∀ c r, e ≠ .call c r) (hcut : ∀ c n, e = .cut c n → .call c ∈ tr) :
    Booting device (deviceOf d) (tr ++ [.cut]) ⟨noFiles, fun _ => 0, .boot 0, d⟩ 0 (es ++ [e]) := by
  refine booting_start (DiskStart.self hd) (h.tells.cut hnot hcut) fun fs' hb => ?_
  rw [diskStart_deviceOf hd] at hb
  exact hrun.snoc (hstep fs' hb)

/-- The power fails while `fs_init` is reading. -/
theorem Booting.cut {d : DiskState} (h : Booting device dev tr s i es)
    (hd : DiskStart s.dev.drv.sectors s.dev.disk d) :
    Booting device (deviceOf d) (tr ++ [.cut]) ⟨noFiles, fun _ => 0, .boot 0, d⟩ 0 es := by
  refine booting_start (DiskStart.self hd) (h.tells.snoc _ fun _ _ hl => by cases hl) fun fs' hb => ?_
  rw [diskStart_deviceOf hd, h.device_eq] at hb
  exact h.reached fs' hb

/-! ## Runs -/

/-- What holds in every state. -/
def StorageOk (device : Device) (tr : List StorageLabel) (s : Storage) : Prop :=
  (∃ dev i es, Booting device dev tr s i es) ∨ ∃ es fs, StorageInv device tr s es fs

theorem storageStart_booting (h : StorageStart device s) : Booting device device [] s 0 [] := by
  obtain ⟨hfiles, hdisk, hpc, hdev, hd⟩ := h
  obtain ⟨files, disk, pc, dev⟩ := s
  dsimp only at hfiles hdisk hpc hdev hd
  subst hfiles hdisk hpc hdev
  exact booting_start hd ⟨rfl, fun _ _ hc => absurd hc List.not_mem_nil⟩ fun _ hb => .start hb

theorem StorageInv.not_boot (h : StorageInv device tr s es fs) : s.pc ≠ .boot i := by
  intro hpc
  have hr := h.reached
  rw [hpc] at hr
  exact hr

theorem storageOk_step {l : StorageLabel} (h : StorageOk device tr s) (hs : StorageStep s l s') :
    StorageOk device (tr ++ [l]) s' := by
  rcases h with ⟨dev, i, es, h⟩ | ⟨es, fs, h⟩
  · -- `fs_init` is reading
    have hpc := h.pc
    cases hs with
    | driver hs hnew => exact Or.inl ⟨_, _, _, h.driver hs hnew⟩
    | read hpc' hi hs =>
        rw [hpc] at hpc'
        cases hpc'
        exact Or.inl ⟨_, _, _, h.read hi hs⟩
    | booted hpc' hcall hloop =>
        rw [hpc] at hpc'
        cases hpc'
        exact Or.inr ⟨_, _, (h.booted hcall hloop).1⟩
    | cut hd => exact Or.inl ⟨_, _, _, h.cut hd⟩
    | call hpc' | written hpc' | ret hpc' => rw [hpc] at hpc'; cases hpc'
  · cases hs with
    | driver hs hnew => exact Or.inr ⟨_, _, h.driver hs hnew⟩
    | call hpc hcall hb => exact Or.inr ⟨_, _, h.call hpc hcall hb⟩
    | written hpc hi hs => exact Or.inr ⟨_, _, h.written hpc hi hs⟩
    | ret hpc hcall => exact Or.inr ⟨_, _, h.ret hpc hcall⟩
    | cut hd =>
        obtain ⟨e, fs₀, hrun, hstep, hnot, hcut⟩ := h.left
        exact Or.inl ⟨_, _, _, h.cut hd hrun hstep hnot hcut⟩
    | read hpc | booted hpc => exact absurd hpc h.not_boot

theorem storageOk_run (hr : Run (StorageStart device) StorageStep tr s) : StorageOk device tr s :=
  hr.invariant_trace (fun _ h => Or.inl ⟨_, _, _, storageStart_booting h⟩)
    fun _ _ _ _ _ h hs => storageOk_step h hs

end

/-! ## Every run of the file system has its run over the driver -/

/-- A run that goes with the abstract run `es`, and has no driver or handler under way. -/
structure Realised (device : Device) (tr : List StorageLabel) (s : Storage)
    (es : List PowerEvent) (fs : Fs) : Prop where
  run : Run (StorageStart device) StorageStep tr s
  inv : StorageInv device tr s es fs
  rest : s.dev.drv.call = .idle
  off : NoHandler s.dev.drv

/-- The same while `fs_init` is reading. -/
structure Starting (device dev : Device) (tr : List StorageLabel) (s : Storage) (i : Nat)
    (es : List PowerEvent) : Prop where
  run : Run (StorageStart device) StorageStep tr s
  boot : Booting device dev tr s i es
  rest : s.dev.drv.call = .idle
  off : NoHandler s.dev.drv

section

variable {device dev : Device} {tr : List StorageLabel} {s : Storage} {es : List PowerEvent}
  {fs fs' : Fs} {c : FileCall} {r : FileReturn} {i : Nat}

theorem Realised.fs_eq (h : Realised device tr s es fs) : s.fs = fs :=
  h.inv.fs_eq (by rw [h.rest]; rfl)

/-- The driver and the device go on until a call that is wanted is under way. -/
theorem run_quietly {P : List StorageLabel → Storage → Prop} {d : DiskState}
    (hP : ∀ {tr s d}, P tr s → DiskStep s.dev .quiet d →
      (∀ buf sector isWrite, d.drv.call = .fill (.disk buf sector isWrite) →
        s.wants = some (buf, sector, isWrite)) → P (tr ++ [.quiet]) { s with dev := d })
    (hr : Run (StorageStart device) StorageStep tr s) (h : P tr s) (hq : Quietly s.dev d)
    (hend : Asked d s.wants) :
    ∃ tr', Run (StorageStart device) StorageStep tr' { s with dev := d } ∧ P tr' { s with dev := d } := by
  induction hq with
  | refl => exact ⟨tr, hr, h⟩
  | @tail d d' _ hs ih =>
      obtain ⟨tr', hr', h'⟩ := ih (hend.before hs)
      have hnew : ∀ buf sector isWrite, d'.drv.call = .fill (.disk buf sector isWrite) →
          s.wants = some (buf, sector, isWrite) := by
        intro buf sector isWrite hcall
        refine hend _ ?_
        rw [hcall]
        rfl
      exact ⟨tr' ++ [.quiet], hr'.snoc (.driver (s := { s with dev := d }) hs hnew),
        hP (s := { s with dev := d }) h' hs hnew⟩

/-- One more sector is read, with interrupts on as at boot. -/
theorem Starting.sector (h : Starting device dev tr s i es) (hi : i < diskMaxSize / sectorSize) :
    ∃ tr' s', Starting device dev tr' s' (i + 1) es := by
  have hsmall : i < 2 ^ 32 := Nat.lt_trans hi (by decide)
  obtain ⟨d₁, d₂, buf, hq, hdone, _, hcall, hoff⟩ :=
    h.boot.disk.returns h.rest h.off true (s.sector i) false hsmall
  obtain ⟨tr', hr', h'⟩ := run_quietly (P := fun tr s => Booting device dev tr s i es)
    (fun h hs hnew => h.driver hs hnew) h.run h.boot hq (asked_done hdone (wants_boot h.boot.pc hi))
  exact ⟨_, _, hr'.snoc (.read (s := { s with dev := d₁ }) h.boot.pc hi hdone),
    Booting.read (s := { s with dev := d₁ }) h' hi hdone, hcall, hoff⟩

/-- **`fs_init` comes to its end** if the archive lets it. -/
theorem Starting.boots (h : Starting device dev tr s 0 es) (hb : reboot dev = .ok fs) :
    ∃ tr' s', Realised device tr' s' es fs ∧ s'.pc = .idle := by
  have hread : ∀ n, n ≤ diskMaxSize / sectorSize → ∃ tr' s', Starting device dev tr' s' n es := by
    intro n
    induction n with
    | zero => exact fun _ => ⟨tr, s, h⟩
    | succ n ih =>
        intro hn
        obtain ⟨tr', s', h'⟩ := ih (by omega)
        exact h'.sector hn
  obtain ⟨tr', s', h'⟩ := hread _ (Nat.le_refl _)
  have hloop : fsInitLoop s'.fs 0 0 filesMax = .ok fs := by
    rw [h'.boot.fs_eq]
    exact hb
  exact ⟨_, _, ⟨h'.run.snoc (.booted h'.boot.pc h'.rest hloop), (h'.boot.booted h'.rest hloop).1,
    h'.rest, h'.off⟩, rfl⟩

/-- One more sector is written. -/
theorem Realised.sector (h : Realised device tr s es fs) (hpc : s.pc = .flush i c r)
    (hi : i < diskMaxSize / sectorSize) :
    ∃ tr' s', Realised device tr' s' es (writeSector fs i) ∧ s'.pc = .flush (i + 1) c r := by
  have hsmall : i < 2 ^ 32 := Nat.lt_trans hi (by decide)
  obtain ⟨d₁, d₂, buf, hq, hdone, _, hcall, hoff⟩ :=
    h.inv.disk.returns h.rest h.off false (s.sector i) true hsmall
  obtain ⟨tr', hr', h'⟩ := run_quietly (P := fun tr s => StorageInv device tr s es fs)
    (fun h hs hnew => h.driver hs hnew) h.run h.inv hq (asked_done hdone (wants_flush hpc hi))
  exact ⟨_, _, ⟨hr'.snoc (.written (s := { s with dev := d₁ }) hpc hi hdone),
    StorageInv.written (s := { s with dev := d₁ }) h' hpc hi hdone, hcall, hoff⟩, rfl⟩

/-- The first `n` sectors are written. -/
theorem Realised.sectors (h : Realised device tr s es fs) (hpc : s.pc = .flush 0 c r) :
    ∀ n, n ≤ diskMaxSize / sectorSize →
      ∃ tr' s', Realised device tr' s' es (writeSectors fs n) ∧ s'.pc = .flush n c r := by
  intro n
  induction n with
  | zero => exact fun _ => ⟨tr, s, h, hpc⟩
  | succ n ih =>
      intro hn
      obtain ⟨tr', s', h', hpc'⟩ := ih (by omega)
      rw [writeSectors_succ]
      exact h'.sector hpc' hn

/-- A call is made. -/
theorem Realised.begin {flushed : Bool} (h : Realised device tr s es fs) (hpc : s.pc = .idle)
    (hb : beginFileCall fs c = .ok ((fs', flushed), r)) :
    ∃ tr' s', Realised device tr' s' es fs'
      ∧ s'.pc = .flush (if flushed then 0 else diskMaxSize / sectorSize) c r := by
  rw [← h.fs_eq] at hb
  exact ⟨_, _, ⟨h.run.snoc (.call hpc h.rest hb), h.inv.call hpc h.rest hb, h.rest, h.off⟩, rfl⟩

/-- A call is made and returns. -/
theorem Realised.call (h : Realised device tr s es fs) (hpc : s.pc = .idle)
    (hc : handleFileCall fs c = .ok (fs', r)) :
    ∃ tr' s', Realised device tr' s' (es ++ [.call c r]) fs' ∧ s'.pc = .idle := by
  rw [handleFileCall_eq] at hc
  obtain ⟨⟨⟨B, flushed⟩, r'⟩, hb, hend⟩ := bind_eq_ok.mp hc
  obtain ⟨rfl, rfl⟩ : endFileCall (B, flushed) = fs' ∧ r' = r := by simpa using hend
  obtain ⟨tr₁, s₁, h₁, hpc₁⟩ := h.begin hpc hb
  obtain ⟨tr₂, s₂, h₂, hpc₂⟩ : ∃ tr' s', Realised device tr' s' es (endFileCall (B, flushed))
      ∧ s'.pc = .flush (diskMaxSize / sectorSize) c r' := by
    cases flushed with
    | false => exact ⟨tr₁, s₁, h₁, hpc₁⟩
    | true => exact h₁.sectors hpc₁ _ (Nat.le_refl _)
  exact ⟨_, _, ⟨h₂.run.snoc (.ret hpc₂ h₂.rest), h₂.inv.ret hpc₂ h₂.rest, h₂.rest, h₂.off⟩, rfl⟩

/-- The power fails where `fs` is on the device, and the machine is started again. -/
theorem Realised.cut {e : PowerEvent} {fs₀ : Fs} (h : Realised device tr s es fs)
    (hrun : Run (fun fs => reboot device = .ok fs) PowerStep es fs₀)
    (hb : reboot fs.device = .ok fs') (hstep : PowerStep fs₀ e fs') (hnot : ∀ c r, e ≠ .call c r)
    (hcut : ∀ c n, e = .cut c n → .call c ∈ tr) :
    ∃ tr' s', Realised device tr' s' (es ++ [e]) fs' ∧ s'.pc = .idle := by
  have hd := initialised_start s.dev.drv.sectors s.dev.disk
  have hdev : deviceOf s.dev = fs.device := congrArg Fs.device h.fs_eq
  have hboot := h.inv.cut hd hrun (fun fs₁ hb₁ => by
    rw [hdev, hb] at hb₁
    exact Except.ok.inj hb₁ ▸ hstep) hnot hcut
  refine Starting.boots ⟨h.run.snoc (.cut hd), hboot, rfl, fun _ => rfl⟩ ?_
  rw [diskStart_deviceOf hd, hdev]
  exact hb

/-- A write that is cut is made, goes on for `n` sectors, and the power fails. -/
theorem Realised.cut_write {n : Nat} {device' : Device} (h : Realised device tr s es fs)
    (hpc : s.pc = .idle) (hw : c.write = true) (hn : n ≤ diskMaxSize / sectorSize)
    (hcut : cutWrite fs c n = .ok device') (hb : reboot device' = .ok fs') :
    ∃ tr' s', Realised device tr' s' (es ++ [.cut c n]) fs' ∧ s'.pc = .idle := by
  have hrun : Run (fun fs => reboot device = .ok fs) PowerStep es fs := by
    have := h.inv.reached
    rwa [hpc] at this
  have hstep : PowerStep fs (.cut c n) fs' := .cut hw hn hcut hb
  rw [cutWrite_eq] at hcut
  obtain ⟨⟨⟨B, flushed⟩, r⟩, hbegin, hdev⟩ := bind_eq_ok.mp hcut
  obtain ⟨tr₁, s₁, h₁, hpc₁⟩ := h.begin hpc hbegin
  -- in the state the power fails in, the call is under way, so it was made
  have key : ∀ {tr₂ s₂ i fs₂}, Realised device tr₂ s₂ es fs₂ → s₂.pc = .flush i c r →
      fs₂.device = device' → ∃ tr' s', Realised device tr' s' (es ++ [.cut c n]) fs' ∧ s'.pc = .idle := by
    intro tr₂ s₂ i fs₂ h₂ hpc₂ hdev₂
    have hreached := h₂.inv.reached
    rw [hpc₂] at hreached
    refine h₂.cut hrun (hdev₂ ▸ hb) hstep (fun _ _ he => by cases he) fun c' n' he => ?_
    injection he with he _
    exact he ▸ hreached.1
  cases flushed with
  | false => exact key h₁ hpc₁ (Except.ok.inj hdev)
  | true =>
      obtain ⟨tr₂, s₂, h₂, hpc₂⟩ := h₁.sectors hpc₁ n hn
      exact key h₂ hpc₂ (Except.ok.inj hdev)

theorem realised_start (hb : reboot device = .ok fs) :
    ∃ tr s, Realised device tr s [] fs ∧ s.pc = .idle := by
  have hstart : StorageStart device
      ⟨noFiles, fun _ => 0, .boot 0, initialised device.capacity (deviceSectors device)⟩ :=
    ⟨rfl, rfl, rfl, deviceOf_eq rfl rfl, initialised_start _ _⟩
  exact Starting.boots ⟨.start hstart, storageStart_booting hstart, rfl, fun _ => rfl⟩ hb

theorem realised_run (hr : Run (fun fs => reboot device = .ok fs) PowerStep es fs) :
    ∃ tr s, Realised device tr s es fs ∧ s.pc = .idle := by
  induction hr with
  | start hb => exact realised_start hb
  | snoc hrun hs ih =>
      obtain ⟨tr, s, h, hpc⟩ := ih
      cases hs with
      | call hc => exact h.call hpc hc
      | reboot hb =>
          exact h.cut hrun hb (.reboot hb) (fun _ _ he => by cases he) fun _ _ he => by cases he
      | cut hw hn hcut hb => exact h.cut_write hpc hw hn hcut hb

/-- The power fails in a write to file `b`, after four sectors. -/
theorem sample_cut : ∃ device fs,
    Run (fun fs => reboot device = .ok fs) PowerStep [.cut (callB true 500) 4] fs := by
  obtain ⟨fs₀, hp, hall⟩ := sample_powered
  have hm := mirrored_run (.start hp)
  obtain ⟨device, _, hb⟩ := hp
  obtain ⟨device', _, hcut, _, _, _, fs, hboot, _, _⟩ := cut_torn (n := 4) hm (callB_fitting fs₀)
    (callB_denotes hall true 500) (callB_keepsLayout _ _) (by decide)
  have h0 : Run (fun fs => reboot device = .ok fs) PowerStep [] fs₀ := .start hb
  exact ⟨device, fs, h0.snoc (.cut rfl (by decide) hcut hboot)⟩

/-- **Between calls, the file system over the driver is the file system over a sector store.** In
every run, however devices, handlers and power cuts come in between, there is a run of the latter
with the same calls and the same answers, down to the bytes that a read has copied, that leads to
the same files and the same device. Where it has a cut, that is in a call that was made. -/
theorem storage_refines_files (hr : Run (StorageStart device) StorageStep tr s)
    (hpc : s.pc = .idle) :
    ∃ es, Run (fun fs => reboot device = .ok fs) PowerStep es s.fs
      ∧ answers es = returned tr ∧ ∀ c n, .cut c n ∈ es → .call c ∈ tr := by
  rcases storageOk_run hr with ⟨dev, i, es, h⟩ | ⟨es, fs, h⟩
  · rw [h.pc] at hpc
    cases hpc
  · have hreached := h.reached
    rw [hpc] at hreached
    rw [h.fs_eq (h.no_request (wants_idle hpc))]
    exact ⟨es, hreached, h.tells.answers, h.tells.cuts⟩

/-- The power fails in a write, and the call never returns. -/
theorem storage_refines_files_cut : ∃ device tr s, Run (StorageStart device) StorageStep tr s
    ∧ s.pc = .idle ∧ returned tr = []
    ∧ ∃ es, Run (fun fs => reboot device = .ok fs) PowerStep es s.fs ∧ answers es = [] := by
  obtain ⟨device, fs, hr⟩ := sample_cut
  obtain ⟨tr, s, h, hpc⟩ := realised_run hr
  have hret : returned tr = [] := h.inv.tells.answers.symm
  obtain ⟨es, hes, hanswers, _⟩ := storage_refines_files h.run hpc
  exact ⟨device, tr, s, h.run, hpc, hret, es, hes, hanswers.trans hret⟩

/-- **The driver carries through whatever the file system asks of it.** Every run of the file
system over a sector store, with every reboot and every cut after any number of sectors, is one
that the file system over the driver can make, with the same answers and the same files. -/
theorem storage_realises_files (hr : Run (fun fs => reboot device = .ok fs) PowerStep es fs) :
    ∃ tr s, Run (StorageStart device) StorageStep tr s ∧ s.pc = .idle ∧ s.fs = fs
      ∧ returned tr = answers es := by
  obtain ⟨tr, s, h, hpc⟩ := realised_run hr
  exact ⟨tr, s, h.run, hpc, h.fs_eq, h.inv.tells.answers.symm⟩

/-- The driver writes four sectors of an archive before the power fails. -/
theorem storage_realises_files_cut : ∃ device fs tr s,
    Run (fun fs => reboot device = .ok fs) PowerStep [.cut (callB true 500) 4] fs
    ∧ Run (StorageStart device) StorageStep tr s ∧ s.pc = .idle ∧ s.fs = fs := by
  obtain ⟨device, fs, hr⟩ := sample_cut
  obtain ⟨tr, s, h, hpc, hfs, _⟩ := storage_realises_files hr
  exact ⟨device, fs, tr, s, hr, h, hpc, hfs⟩

end

end Os1000.Proof
