import Os1000.Layout
import Os1000.Kernel.Common

/-!
# The file system (`kernel/filesystem.c`) and its system calls

Two files, kept in memory and written back as one tar archive whenever a file is
written. `fs_init` reads the archive into `disk[]` and the files out of it, `fs_flush`
builds it in `disk[]` again and writes that to the block device.

The block device is a sector store: `read_write_disk` moves one sector, or does
nothing when the sector is not on the device. The caller of a system call passes a
file name and a buffer of its own; its memory is not part of the kernel's arrays and
is taken to be large enough.

What `printf` writes to the console is left out.
-/

namespace Os1000

open Lib

/-! ## Sizes and places -/

/-- `FILES_MAX` -/
def filesMax : Nat := 2
/-- `SECTOR_SIZE` -/
def sectorSize : Nat := 512
/-- `sizeof(file->name)` -/
def fileNameSize : Nat := 100
/-- `sizeof(file->data)` -/
def fileDataSize : Nat := 1024
/-- `sizeof(struct file)`: an `int`, the two arrays and a `size_t`. -/
def sizeofFile : Nat := 4 + fileNameSize + fileDataSize + 4

/-- `align_up`, in 32 bits. -/
def alignUp (value align : Nat) : Nat := u32 (value + (align - 1)) / align * align

/-- `DISK_MAX_SIZE` -/
def diskMaxSize : Nat := alignUp (sizeofFile * filesMax) sectorSize

/-- `sizeof(struct tar_header)`, which is also where its `data[]` begins. -/
def sizeofTarHeader : Nat := 512

/-- `struct tar_header`: where its fields lie. -/
def nameAt : Nat := 0
def modeAt : Nat := 100
def sizeAt : Nat := 124
def checksumAt : Nat := 148
def typeAt : Nat := 156
def magicAt : Nat := 257
def versionAt : Nat := 263

/-- `sizeof(header->size)` -/
def sizeofSize : Nat := 12
/-- `sizeof(header->checksum)` -/
def sizeofChecksum : Nat := 8

/-- The bytes of a string constant. -/
def ascii (l : List Char) : List UInt8 := l.map fun c => UInt8.ofNat c.toNat

/-- `"ustar"` -/
def ustar : List UInt8 := ascii ['u', 's', 't', 'a', 'r']

/-! ## State -/

/-- `struct file` -/
structure File where
  inUse : Bool
  name : Mem
  data : Mem
  size : Nat

/-- The block device. -/
structure Device where
  /-- How many sectors it has, `blk_capacity / SECTOR_SIZE`. -/
  capacity : Nat
  bytes : Mem

/-- The statics of `filesystem.c`, and the device. -/
structure Fs where
  files : Nat → File
  disk : Mem
  device : Device

/-- `files[]` at boot, in `.bss`. -/
def noFiles : Nat → File := fun _ => ⟨false, fun _ => 0, fun _ => 0, 0⟩

/-- `read_write_disk(&disk[a], sector, false)` -/
def readSector (fs : Fs) (sector : Nat) : Fs :=
  if fs.device.capacity ≤ sector then fs
  else
    let a := sector * sectorSize
    { fs with disk := blit fs.disk a fs.device.bytes a sectorSize }

/-- `read_write_disk(&disk[a], sector, true)` -/
def writeSector (fs : Fs) (sector : Nat) : Fs :=
  if fs.device.capacity ≤ sector then fs
  else
    let a := sector * sectorSize
    { fs with device := { fs.device with bytes := blit fs.device.bytes a fs.disk a sectorSize } }

/-- The loop of `fs_init` over the sectors of `disk[]`. -/
def readDisk (fs : Fs) : Fs := (List.range (diskMaxSize / sectorSize)).foldl readSector fs

/-- The loop of `fs_flush` over the sectors of `disk[]`. -/
def writeDisk (fs : Fs) : Fs := (List.range (diskMaxSize / sectorSize)).foldl writeSector fs

/-! ## `fs_init` -/

/-- `oct2int`, from a digit on and with what came before it. -/
def oct2int (m : Mem) (a e : Nat) : Nat → Nat → Except Stop Nat
  | 0, dec => .ok dec
  | len + 1, dec => do
      let c ← loadAt m a e
      if c.toNat < 48 ∨ 55 < c.toNat then return dec
      if dec * 8 + (c.toNat - 48) < 2 ^ 31 then
        oct2int m (a + 1) e len (dec * 8 + (c.toNat - 48))
      else throw .overflow

/-- The rest of an iteration of `fs_init` once the header is accepted: the file and the next `off`. -/
def fsInitFile (fs : Fs) (off i : Nat) : Except Stop (Fs × Nat) := do
  let filesz ← oct2int fs.disk (off + sizeAt) diskMaxSize sizeofSize 0
  let name ← strcpy (fs.files i).name 0 fileNameSize fs.disk (off + nameAt) diskMaxSize
  let data ← memcpy (fs.files i).data 0 fileDataSize fs.disk (off + sizeofTarHeader)
    diskMaxSize filesz
  let files := Function.update fs.files i ⟨true, name, data, filesz⟩
  return ({ fs with files },
    u32 (off + alignUp (u32 (sizeofTarHeader + filesz)) sectorSize))

/-- One iteration of the loop of `fs_init`: `none` is its `break`. -/
def fsInitEntry (fs : Fs) (off i : Nat) : Except Stop (Option (Fs × Nat)) := do
  let first ← loadAt fs.disk (off + nameAt) diskMaxSize
  if first = 0 then return none
  else
    let cmp ← strcmp fs.disk (off + magicAt) diskMaxSize (literal ustar) 0 (ustar.length + 1)
    if cmp ≠ 0 then throw .panic
    else
      let next ← fsInitFile fs off i
      return some next

/-- The loop of `fs_init`, with `n` iterations to go. -/
def fsInitLoop (fs : Fs) (off i : Nat) : Nat → Except Stop Fs
  | 0 => .ok fs
  | n + 1 => do
      match ← fsInitEntry fs off i with
      | none => return fs
      | some (fs, off) => fsInitLoop fs off (i + 1) n

/-- `fs_init` -/
def fsInit (fs : Fs) : Except Stop Fs :=
  fsInitLoop (readDisk fs) 0 0 filesMax

/-! ## `fs_flush` -/

/-- `for (i = n; i > 0; i--) { p[i - 1] = v % 8 + '0'; v /= 8; }` -/
def putOctal (m : Mem) (a e : Nat) : Nat → Int → Except Stop Mem
  | 0, _ => .ok m
  | n + 1, v => do
      let m ← storeAt m (a + n) e (UInt8.ofInt (v.tmod 8 + 48))
      putOctal m a e n (v.tdiv 8)

/-- The sum of the `n` bytes at `a`. -/
def sumBytes (m : Mem) (a e n : Nat) : Except Stop Nat :=
  (List.range n).foldlM (fun sum i => do return sum + (← loadAt m (a + i) e).toNat) 0

/-- One file of `fs_flush`: its header and its data, at `off`. -/
def flushFile (disk : Mem) (off : Nat) (file : File) : Except Stop Mem := do
  let disk ← memset disk off diskMaxSize 0 sizeofTarHeader
  let disk ← strcpy disk (off + nameAt) diskMaxSize file.name 0 fileNameSize
  let disk ← strcpy disk (off + modeAt) diskMaxSize
    (literal (ascii ['0', '0', '0', '6', '4', '4'])) 0 7
  let disk ← strcpy disk (off + magicAt) diskMaxSize (literal ustar) 0 6
  let disk ← strcpy disk (off + versionAt) diskMaxSize (literal (ascii ['0', '0'])) 0 3
  let disk ← storeAt disk (off + typeAt) diskMaxSize 48
  let disk ← putOctal disk (off + sizeAt) diskMaxSize sizeofSize (i32 file.size)
  let sum ← sumBytes disk off diskMaxSize sizeofTarHeader
  let disk ← putOctal disk (off + checksumAt) diskMaxSize 6 (32 * sizeofChecksum + sum : Nat)
  memcpy disk (off + sizeofTarHeader) diskMaxSize file.data 0 fileDataSize file.size

/-- One iteration of the loop of `fs_flush`, over `disk[]` and `off`. -/
def fsFlushEntry (files : Nat → File) (s : Mem × Nat) (i : Nat) : Except Stop (Mem × Nat) :=
  if (files i).inUse then do
    let disk ← flushFile s.1 s.2 (files i)
    return (disk, u32 (s.2 + alignUp (u32 (sizeofTarHeader + (files i).size)) sectorSize))
  else return s

/-- `fs_flush` up to its last loop: the archive is in `disk[]`. -/
def flushBuffer (fs : Fs) : Except Stop Fs := do
  let disk ← memset fs.disk 0 diskMaxSize 0 diskMaxSize
  let s ← (List.range filesMax).foldlM (fsFlushEntry fs.files) (disk, 0)
  return { fs with disk := s.1 }

/-- `fs_flush` -/
def fsFlush (fs : Fs) : Except Stop Fs := do
  let fs ← flushBuffer fs
  return writeDisk fs

/-! ## System calls -/

/-- `fs_lookup`, from entry `i` on with `n` to go: the index of the file. -/
def fsLookupFrom (fs : Fs) (user : Mem) (filename i : Nat) : Nat → Except Stop (Option Nat)
  | 0 => .ok none
  | n + 1 => do
      let cmp ← strcmp (fs.files i).name 0 fileNameSize user filename (filename + fileNameSize)
      if cmp = 0 then return some i else fsLookupFrom fs user filename (i + 1) n

/-- `fs_lookup` -/
def fsLookup (fs : Fs) (user : Mem) (filename : Nat) : Except Stop (Option Nat) :=
  fsLookupFrom fs user filename 0 filesMax

/-- A `SYS_READFILE` or `SYS_WRITEFILE` as the kernel gets it. -/
structure FileCall where
  /-- The caller's memory. -/
  user : Mem
  /-- Whether it is `SYS_WRITEFILE`. -/
  write : Bool
  filename : Nat
  buf : Nat
  /-- The register `a2`. -/
  a2 : BitVec 32

/-- The length a call asks for, `int len = f->a2`. -/
def FileCall.len (c : FileCall) : Int := c.a2.toInt

/-- What a call leaves in `a0`, and the caller's memory after it. -/
structure FileReturn where
  a0 : Int
  user : Mem

/-- The case of `SYS_READFILE` and `SYS_WRITEFILE` in `handle_syscall`, with `flush` for `fs_flush` and
`keep` for what is left where it is not called. -/
def fileCallWith {α : Type} (flush : Fs → Except Stop α) (keep : Fs → α) (fs : Fs) (c : FileCall) :
    Except Stop (α × FileReturn) := do
  match ← fsLookup fs c.user c.filename with
  | none => return (keep fs, ⟨-1, c.user⟩)
  | some i =>
      let file := fs.files i
      let len := if (fileDataSize : Int) < c.len then i32 file.size else c.len
      let n := (len % 2 ^ 32).toNat
      if c.write then
        let data ← memcpy file.data 0 fileDataSize c.user c.buf (c.buf + n) n
        let files := Function.update fs.files i { file with data, size := n }
        let left ← flush { fs with files }
        return (left, ⟨len, c.user⟩)
      else
        let user ← memcpy c.user c.buf (c.buf + n) file.data 0 fileDataSize n
        return (keep fs, ⟨len, user⟩)

/-- `handle_syscall` for `SYS_READFILE` and `SYS_WRITEFILE`. -/
def handleFileCall (fs : Fs) (c : FileCall) : Except Stop (Fs × FileReturn) :=
  fileCallWith fsFlush (fun fs => fs) fs c

end Os1000
