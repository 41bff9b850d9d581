import Os1000.Virtio.Disk

/-!
# Reboots, power cuts, and the file system over the block driver

The files live in memory and on the block device. When the machine is started again only the
device is left: `.bss` is zero, and `fs_init` reads the archive. The power may also fail while
`fs_flush` is writing the archive, sector by sector, over the one before.

This is said twice. First over a sector store, where a sector is read and written at one blow
(`PowerStep`). Then over the driver of `Virtio/Disk.lean` (`StorageStep`), which moves one sector
step by step, with the device and the handlers in between: `fs_init` calls `read_write_disk` for
one sector of `disk[]` after the other before it looks at them, and `fs_flush` builds the archive
in `disk[]` and then does the same. Between any two steps the power may fail, and what is on the
disk then stays there.

Apart from the tests, nobody else calls the disk. The network may be used at any time.
-/

namespace Os1000

open Lib

/-! ## Over a sector store -/

/-- The last loop of `fs_flush`, cut after `n` sectors. -/
def writeSectors (fs : Fs) (n : Nat) : Fs := (List.range n).foldl writeSector fs

/-- The device after a `SYS_WRITEFILE` during which the power failed, `n` sectors being written. -/
def cutWrite (fs : Fs) (c : FileCall) (n : Nat) : Except Stop Device := do
  let left ← fileCallWith (fun fs => do return (writeSectors (← flushBuffer fs) n).device)
    (fun fs => fs.device) fs c
  return left.1

/-- The machine is started with this device. -/
def reboot (device : Device) : Except Stop Fs := fsInit ⟨noFiles, fun _ => 0, device⟩

/-- What happens to the files. -/
inductive PowerEvent where
  /-- A system call, and what it returned. -/
  | call (c : FileCall) (r : FileReturn)
  | reboot
  /-- The power fails in a `SYS_WRITEFILE`, and the machine is started again. -/
  | cut (c : FileCall) (n : Nat)

/-- One event. -/
inductive PowerStep : Fs → PowerEvent → Fs → Prop where
  | call {fs fs' : Fs} {c : FileCall} {r : FileReturn} :
      handleFileCall fs c = .ok (fs', r) → PowerStep fs (.call c r) fs'
  | reboot {fs fs' : Fs} : Os1000.reboot fs.device = .ok fs' → PowerStep fs .reboot fs'
  | cut {fs fs' : Fs} {c : FileCall} {n : Nat} {device : Device} :
      c.write = true → n ≤ diskMaxSize / sectorSize → cutWrite fs c n = .ok device →
      Os1000.reboot device = .ok fs' → PowerStep fs (.cut c n) fs'

/-! ## Over the driver -/

/-- Where the file system is. -/
inductive StoragePc where
  /-- In the first loop of `fs_init`, with `i` sectors read. -/
  | boot (i : Nat)
  /-- In no call. -/
  | idle
  /-- In the last loop of `fs_flush`, with `i` sectors written, in the call `c` that will return
  `r`. A call that writes nothing is past the loop. -/
  | flush (i : Nat) (c : FileCall) (r : FileReturn)

/-- The statics of `filesystem.c`, the block driver and the device. -/
structure Storage where
  files : Nat → File
  /-- `disk[]` -/
  disk : Mem
  pc : StoragePc
  dev : DiskState

/-- The sectors of the device, as the bytes they hold. -/
def deviceOf (d : DiskState) : Device where
  capacity := d.drv.sectors
  bytes := fun x => d.disk (x / sectorSize) ⟨x % sectorSize, Nat.mod_lt x (by decide)⟩

/-- The file system in this state. -/
def Storage.fs (s : Storage) : Fs := ⟨s.files, s.disk, deviceOf s.dev⟩

/-- `&disk[sector * SECTOR_SIZE]`, as a buffer. -/
def Storage.sector (s : Storage) (i : Nat) : Bytes := fun x => s.disk (i * sectorSize + x)

/-- `read_write_disk` has returned, with `buf` for sector `i` of `disk[]`. -/
def Storage.putSector (s : Storage) (i : Nat) (buf : Bytes) : Mem :=
  blit s.disk (i * sectorSize) buf 0 sectorSize

/-- What is next asked of the disk: the arguments of `read_write_disk`. -/
def Storage.wants (s : Storage) : Option (Bytes × Nat × Bool) :=
  match s.pc with
  | .boot i => if i < diskMaxSize / sectorSize then some (s.sector i, i, false) else none
  | .idle => none
  | .flush i _ _ => if i < diskMaxSize / sectorSize then some (s.sector i, i, true) else none

/-- `handle_syscall` for `SYS_READFILE` and `SYS_WRITEFILE`, up to the last loop of `fs_flush`,
and whether the loop is run at all. -/
def beginFileCall (fs : Fs) (c : FileCall) : Except Stop ((Fs × Bool) × FileReturn) :=
  fileCallWith (fun fs => do return (← flushBuffer fs, true)) (fun fs => (fs, false)) fs c

/-- What is seen of a step. -/
inductive StorageLabel where
  | quiet
  /-- A system call is made. -/
  | call (c : FileCall)
  /-- It returns. -/
  | ret (c : FileCall) (r : FileReturn)
  /-- The power fails, and the machine is started again. -/
  | cut

/-- One step of the file system, of the drivers, or of a device. -/
inductive StorageStep : Storage → StorageLabel → Storage → Prop where
  /-- Only `fs_init` and `fs_flush` make calls to the disk. -/
  | driver {s : Storage} {d : DiskState} :
      DiskStep s.dev .quiet d →
      (∀ buf sector isWrite, d.drv.call = .fill (.disk buf sector isWrite) →
        s.wants = some (buf, sector, isWrite)) →
      StorageStep s .quiet { s with dev := d }
  /-- `read_write_disk` returns to `fs_init`. -/
  | read {s : Storage} {i : Nat} {buf : Bytes} {d : DiskState} :
      s.pc = .boot i → i < diskMaxSize / sectorSize →
      DiskStep s.dev (.done (s.sector i) i false buf) d →
      StorageStep s .quiet { s with disk := s.putSector i buf, pc := .boot (i + 1), dev := d }
  /-- The second loop of `fs_init`. -/
  | booted {s : Storage} {fs : Fs} :
      s.pc = .boot (diskMaxSize / sectorSize) → s.dev.drv.call = .idle →
      fsInitLoop s.fs 0 0 filesMax = .ok fs →
      StorageStep s .quiet { s with files := fs.files, disk := fs.disk, pc := .idle }
  | call {s : Storage} {c : FileCall} {fs : Fs} {r : FileReturn} {flushed : Bool} :
      s.pc = .idle → s.dev.drv.call = .idle → beginFileCall s.fs c = .ok ((fs, flushed), r) →
      StorageStep s (.call c) { s with
        files := fs.files
        disk := fs.disk
        pc := .flush (if flushed then 0 else diskMaxSize / sectorSize) c r }
  /-- `read_write_disk` returns to `fs_flush`. -/
  | written {s : Storage} {i : Nat} {c : FileCall} {r : FileReturn} {buf : Bytes} {d : DiskState} :
      s.pc = .flush i c r → i < diskMaxSize / sectorSize →
      DiskStep s.dev (.done (s.sector i) i true buf) d →
      StorageStep s .quiet { s with disk := s.putSector i buf, pc := .flush (i + 1) c r, dev := d }
  | ret {s : Storage} {c : FileCall} {r : FileReturn} :
      s.pc = .flush (diskMaxSize / sectorSize) c r → s.dev.drv.call = .idle →
      StorageStep s (.ret c r) { s with pc := .idle }
  | cut {s : Storage} {d : DiskState} :
      DiskStart s.dev.drv.sectors s.dev.disk d →
      StorageStep s .cut ⟨noFiles, fun _ => 0, .boot 0, d⟩

/-- The machine is started with this device: `fs_init` is called. -/
def StorageStart (device : Device) (s : Storage) : Prop :=
  s.files = noFiles ∧ s.disk = (fun _ => 0) ∧ s.pc = .boot 0 ∧ deviceOf s.dev = device
    ∧ DiskStart s.dev.drv.sectors s.dev.disk s.dev

end Os1000
