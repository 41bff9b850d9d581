import Os1000.Kernel.Filesystem
import Os1000.Virtio.Request

/-!
# The disk (`read_write_disk` and the device behind it)

`Virtio/Request.lean` says how a call and the handlers take turns. Here are the bytes:
`struct virtio_blk_req` in memory, the three descriptors that point into it, and a device
that follows them as the virtio-blk specification says. A request is a chain of a header of
sixteen bytes, a buffer of one sector, which the device writes if it is to read the disk and
reads if it is to write it, and a byte for the status, which the device writes.

The device takes a chain when it is available, executes it at some time afterwards, and only
then gives it back. A chain that is not a request stops the device.

The caller's buffer is an array of its own, of one sector.
-/

namespace Os1000

open Lib

/-! ## The driver's side -/

/-- `VIRTIO_BLK_T_IN` -/
def virtioBlkTIn : Nat := 0
/-- `VIRTIO_BLK_T_OUT` -/
def virtioBlkTOut : Nat := 1

/-- `struct virtio_blk_req`: where its fields lie, after `type`. -/
def reqSectorAt : Nat := 8
def reqDataAt : Nat := 16
def reqStatusAt : Nat := 528

/-- `read_write_disk` up to the descriptors. -/
def fillBlkReq (mem : Mem) (blkReq : Nat) (buf : Bytes) (sector : Nat) (isWrite : Bool) :
    Except Stop Mem :=
  let mem := store64 mem (blkReq + reqSectorAt) sector
  let mem := store32 mem blkReq (if isWrite then virtioBlkTOut else virtioBlkTIn)
  if isWrite then
    memcpy mem (blkReq + reqDataAt) (blkReq + reqStatusAt) buf 0 sectorSize sectorSize
  else .ok mem

/-- `read_write_disk` after `wait_for_interrupt`: what it leaves in `buf`. -/
def finishBlkReq (mem : Mem) (blkReq : Nat) (buf : Bytes) (isWrite : Bool) : Except Stop Bytes :=
  if mem (blkReq + reqStatusAt) ≠ 0 then .ok buf
  else if isWrite then .ok buf
  else memcpy buf 0 sectorSize mem (blkReq + reqDataAt) (blkReq + reqStatusAt) sectorSize

/-! ## The device's side -/

/-- What a sector holds. -/
abbrev Sector := Fin sectorSize → UInt8

/-- The sector's worth of bytes at `a`. -/
def sectorAt (m : Mem) (a : Nat) : Sector := fun i => m (a + i)

/-- A sector is copied to `a`. -/
def putSector (m : Mem) (a : Nat) (b : Sector) : Mem := fun x =>
  if h : a ≤ x ∧ x - a < sectorSize then b ⟨x - a, h.2⟩ else m x

/-- The descriptor says that another one follows. -/
def VirtqDesc.hasNext (d : VirtqDesc) : Bool := decide (d.flags &&& virtqDescFNext ≠ 0)

/-- The descriptor is of a buffer that the device may write, and not read. -/
def VirtqDesc.writable (d : VirtqDesc) : Bool := decide (d.flags &&& virtqDescFWrite ≠ 0)

/-- The chain from descriptor `d` on, if it has no more than `n`. -/
def chain (descs : Nat → VirtqDesc) : Nat → Nat → Option (List VirtqDesc)
  | 0, _ => none
  | n + 1, d =>
      if (descs d).hasNext then (chain descs n (descs d).next).map ((descs d) :: ·)
      else some [descs d]

/-- `VIRTIO_BLK_S_OK`, `VIRTIO_BLK_S_IOERR` and `VIRTIO_BLK_S_UNSUPP` of the specification. -/
def blkOk : UInt8 := 0
def blkIoErr : UInt8 := 1
def blkUnsupp : UInt8 := 2

/-- The chain has the form of a request. -/
def IsBlkRequest (header data status : VirtqDesc) : Prop :=
  header.len = 16 ∧ header.writable = false ∧ data.len = sectorSize
    ∧ status.len = 1 ∧ status.writable = true

instance {header data status : VirtqDesc} : Decidable (IsBlkRequest header data status) :=
  inferInstanceAs (Decidable (_ ∧ _))

/-- The device executes the chain that begins at `head`. -/
def executeBlk (sectors : Nat) (descs : Nat → VirtqDesc) (head : Nat) (mem : Mem)
    (disk : Nat → Sector) : Option (Mem × (Nat → Sector)) :=
  match chain descs virtqEntryNum head with
  | some [header, data, status] =>
      if IsBlkRequest header data status then
        let type := load32 mem header.addr
        let sector := load64 mem (header.addr + reqSectorAt)
        if sector < sectors then
          if type = virtioBlkTIn ∧ data.writable = true then
            some (Function.update (putSector mem data.addr (disk sector)) status.addr blkOk, disk)
          else if type = virtioBlkTOut ∧ data.writable = false then
            some (Function.update mem status.addr blkOk,
              Function.update disk sector (sectorAt mem data.addr))
          else some (Function.update mem status.addr blkUnsupp, disk)
        else some (Function.update mem status.addr blkIoErr, disk)
      else none
  | _ => none

/-! ## Both of them -/

/-- The drivers, with the memory the block device reads and writes, and its disk. -/
structure DiskState where
  drv : Drivers
  mem : Mem
  disk : Nat → Sector
  /-- The chains the device has taken and not executed. -/
  todo : List Nat

/-- What is seen of a step. -/
inductive DiskLabel where
  | quiet
  /-- `read_write_disk(buf, sector, is_write)` returns, with `buf'` in the buffer. -/
  | done (buf : Bytes) (sector : Nat) (isWrite : Bool) (buf' : Bytes)

/-- A step that neither writes `blk_req` or its descriptors nor ends a call to the disk. -/
def CallLabel.notDisk : CallLabel → Prop
  | .quiet => True
  | .write c => c.dev ≠ .blk
  | .ret c => c.dev ≠ .blk

/-- Replace the queue that requests to device `d` are made on. -/
def Drivers.setRequests (s : Drivers) (d : VirtioDev) (q : Queue) : Drivers :=
  s.setDev d { s.dev d with queue := Function.update (s.dev d).queue (reqQueue d) q }

/-- One step of the drivers, with the bytes it moves, or of the block device. -/
inductive DiskStep : DiskState → DiskLabel → DiskState → Prop where
  /-- The device's side of the queue is as before, so the block device has not moved. -/
  | drivers {s : DiskState} {l : CallLabel} {drv : Drivers} :
      DriversStep s.drv l drv → l.notDisk → (drv.requests .blk).dev = (s.drv.requests .blk).dev →
      -- `sector` is an `unsigned`
      (∀ buf sector isWrite, drv.call = .fill (.disk buf sector isWrite) → sector < 2 ^ 32) →
      DiskStep s .quiet { s with drv }
  | reject {s : DiskState} {buf : Bytes} {sector : Nat} {isWrite : Bool} {drv : Drivers} :
      s.drv.call = .idle → DriversStep s.drv (.ret (.disk buf sector isWrite)) drv →
      DiskStep s (.done buf sector isWrite buf) { s with drv }
  | fill {s : DiskState} {buf : Bytes} {sector : Nat} {isWrite : Bool} {drv : Drivers} {mem : Mem} :
      s.drv.call = .fill (.disk buf sector isWrite) →
      DriversStep s.drv (.write (.disk buf sector isWrite)) drv →
      fillBlkReq s.mem s.drv.blkReqPaddr buf sector isWrite = .ok mem →
      DiskStep s .quiet { s with drv, mem }
  | descs {s : DiskState} {buf : Bytes} {sector : Nat} {isWrite : Bool} {drv : Drivers} :
      s.drv.call = .descs (.disk buf sector isWrite) →
      DriversStep s.drv (.write (.disk buf sector isWrite)) drv →
      DiskStep s .quiet { s with drv }
  | ret {s : DiskState} {buf buf' : Bytes} {sector : Nat} {isWrite : Bool} {drv : Drivers} :
      s.drv.call = .finish (.disk buf sector isWrite) →
      DriversStep s.drv (.ret (.disk buf sector isWrite)) drv →
      finishBlkReq s.mem s.drv.blkReqPaddr buf isWrite = .ok buf' →
      DiskStep s (.done buf sector isWrite buf') { s with drv }
  | take {s : DiskState} {d : Nat} {q : Queue} :
      DeviceStep (s.drv.requests .blk) (.take d) q →
      DiskStep s .quiet { s with drv := s.drv.setRequests .blk q, todo := s.todo ++ [d] }
  | execute {s : DiskState} {d : Nat} {mem : Mem} {disk : Nat → Sector} :
      d ∈ s.todo →
      executeBlk s.drv.sectors (s.drv.requests .blk).vq.descs d s.mem s.disk = some (mem, disk) →
      DiskStep s .quiet { s with mem, disk, todo := s.todo.erase d }
  /-- A chain is given back when it has been executed. -/
  | giveBack {s : DiskState} {ev : DeviceEvent} {q : Queue} :
      DeviceStep (s.drv.requests .blk) ev q → (∀ d, ev ≠ .take d) →
      (∀ e, q.dev.filled = some e → e.id ∉ s.todo) →
      DiskStep s .quiet { s with drv := s.drv.setRequests .blk q }

/-- After the initialisation of both devices, with a disk of `sectors` sectors. -/
def DiskStart (sectors : Nat) (disk : Nat → Sector) (s : DiskState) : Prop :=
  DriversStart s.drv ∧ s.drv.sectors = sectors ∧ s.disk = disk ∧ s.todo = []

/-! ## What the disk is for -/

/-- An array of sectors answers a call: what is in the buffer afterwards. -/
def sectorAnswer (sectors : Nat) (a : Nat → Sector) (buf : Bytes) (sector : Nat) (isWrite : Bool) :
    Bytes :=
  if sector < sectors ∧ isWrite = false then putSector buf 0 (a sector) else buf

/-- The sector that a call writes, and what it writes to it. -/
def sectorWrite (sectors : Nat) : DiskLabel → Option (Nat × Sector)
  | .done buf sector true _ => if sector < sectors then some (sector, sectorAt buf 0) else none
  | _ => none

end Os1000
