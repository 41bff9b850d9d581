import Os1000.Alloc.Regions

/-!
# Kernel state (`include/process.h`, `kernel/shm.c`)

The process table, the shared memory table and the allocator, side by side.

A process keeps the indices of the regions allocated for it in a fixed array of
`PROC_REGION_MAX` entries, and two loops of the source clear that array with the
bound `MAX_REGIONS`, which is twice as large. What lies behind the array in
`struct process` is the entry count, the shared memory mappings and the kernel
stack, in this order, and an access past the end reaches them. `setRegion` and
`getRegion` follow that layout word by word.

Five fields are proof-only. They record what the C code does not: every region
index appended to a process, which of them are image pages, where `proc->regions`
was written, how many shared memory objects were ever created and which of those
have been destroyed.
-/

namespace Os1000

open Lib

/-- `PROC_REGION_MAX` -/
def procRegionMax : Nat := 64

/-- `PROC_SHM_MAX` -/
def procShmMax : Nat := 4

/-- `SHM_MAX` -/
def shmMax : Nat := 8

/-- `USER_BASE` -/
def userBase : Nat := 0x1000000

/-- `SHM_USER_BASE` -/
def shmUserBase : Nat := 0x01700000

/-- `SHM_PAGE_SIZE` -/
def shmPageSize : Nat := pageSize

/-- `struct shm_mapping` -/
structure ShmMapping where
  used : Int
  shmId : Int
  vaddr : Nat

/-- A mapping with every field zero. -/
def ShmMapping.cleared : ShmMapping := ⟨0, 0, 0⟩

/-- `PROC_UNUSED`, `PROC_RUNNABLE`, `PROC_EXITED` -/
inductive ProcState where
  | unused
  | runnable
  | exited
  deriving DecidableEq, Repr

/-- `struct process`. Its kernel stack is part of memory, see `stackTop`. -/
structure Process where
  pid : Nat
  state : ProcState
  sp : Nat
  pageTable : Nat
  regions : Nat → Nat
  currentIdx : Nat
  shmMappings : Nat → ShmMapping
  /-- Proof-only: every region index appended to `regions` since creation, oldest first. -/
  appended : List Nat
  /-- Proof-only: those of them that hold pages of the process image, in image order. -/
  imageRegions : List Nat
  /-- Proof-only: every index at which `regions` was written, oldest first. -/
  regionWrites : List Nat

/-- `struct shm_object` -/
structure ShmObject where
  used : Bool
  id : Int
  key : Int
  pa : Nat
  regionIdx : Nat
  size : Nat
  refcount : Int
  /-- Proof-only: how many objects had been created before this one. -/
  birth : Nat

/-- An object with every field zero, as `shm_init` and `shm_detach` leave it. -/
def ShmObject.cleared : ShmObject := ⟨false, 0, 0, 0, 0, 0, 0, 0⟩

/-- The kernel's state. Processes and shared memory objects are named by their slots. -/
structure Kernel extends Ram where
  procs : Nat → Process
  currentProc : Nat
  idleProc : Nat
  shmTable : Nat → ShmObject
  nextShmId : Int
  /-- Proof-only: the regions the device drivers allocated at boot. -/
  driverRegions : List Nat
  /-- Proof-only: the number of shared memory objects ever created. -/
  shmCreated : Nat
  /-- Proof-only: the `birth` of every object whose page `shm_detach` released, oldest first. -/
  shmReleased : List Nat

/-- Change process `p`. -/
def Kernel.setProc (k : Kernel) (p : Nat) (f : Process → Process) : Kernel :=
  { k with procs := Function.update k.procs p (f (k.procs p)) }

/-- Change shared memory object `s`. -/
def Kernel.setObj (k : Kernel) (s : Nat) (o : ShmObject) : Kernel :=
  { k with shmTable := Function.update k.shmTable s o }

/-- Change mapping `i` of process `p`. -/
def Kernel.setMapping (k : Kernel) (p i : Nat) (m : ShmMapping) : Kernel :=
  k.setProc p fun q => { q with shmMappings := Function.update q.shmMappings i m }

/-! ## The layout of `struct process` behind `regions` -/

/-- The first byte of the kernel stack of process `p`. -/
def stackBase (L : Layout) (p : Nat) : Nat := L.procs + p * sizeofProcess + 324

/-- `&proc->stack[sizeof(proc->stack)]`, which is also where the next process starts. -/
def stackTop (L : Layout) (p : Nat) : Nat := L.procs + (p + 1) * sizeofProcess

/-- The word index, counted from `regions`, of the first mapping and of the kernel stack. -/
def mappingsWord : Nat := procRegionMax + 1
def stackWord : Nat := mappingsWord + 3 * procShmMax

/-- Proof-only: entry `n` of the `regions` of process `p` is written. -/
def Kernel.noteWrite (k : Kernel) (p n : Nat) : Kernel :=
  k.setProc p fun q => { q with regionWrites := q.regionWrites ++ [n] }

/-- `proc->regions[n] = v`, wherever in `struct process` that word is. -/
def setRegion (L : Layout) (k : Kernel) (p n v : Nat) : Kernel :=
  let k := k.noteWrite p n
  if n < procRegionMax then
    k.setProc p fun q => { q with regions := Function.update q.regions n v }
  else if n < mappingsWord then
    k.setProc p fun q => { q with currentIdx := v }
  else if n < stackWord then
    let i := (n - mappingsWord) / 3
    let m := (k.procs p).shmMappings i
    k.setMapping p i <|
      match (n - mappingsWord) % 3 with
      | 0 => { m with used := i32 v }
      | 1 => { m with shmId := i32 v }
      | _ => { m with vaddr := v }
  else
    { k with mem := store32 k.mem (stackBase L p + 4 * (n - stackWord)) v }

/-- `proc->regions[n]`, wherever in `struct process` that word is. -/
def getRegion (L : Layout) (k : Kernel) (p n : Nat) : Nat :=
  if n < procRegionMax then (k.procs p).regions n
  else if n < mappingsWord then (k.procs p).currentIdx
  else if n < stackWord then
    let m := (k.procs p).shmMappings ((n - mappingsWord) / 3)
    match (n - mappingsWord) % 3 with
    | 0 => (m.used % 2 ^ 32).toNat
    | 1 => (m.shmId % 2 ^ 32).toNat
    | _ => m.vaddr
  else load32 k.mem (stackBase L p + 4 * (n - stackWord))

/-- `proc->regions[(proc->current_idx)++] = r` -/
def recordRegion (L : Layout) (k : Kernel) (p r : Nat) : Kernel :=
  let idx := (k.procs p).currentIdx
  let k := k.setProc p fun q =>
    { q with currentIdx := u32 (idx + 1), appended := q.appended ++ [r] }
  setRegion L k p idx r

/-- `for (int j = 0; j < MAX_REGIONS; j++) proc->regions[j] = 0;` -/
def clearRegions (L : Layout) (k : Kernel) (p : Nat) : Kernel :=
  (List.range maxRegions).foldl (fun k j => setRegion L k p j 0) k

/-- The loop that zeroes every `proc->shm_mappings[j]`. -/
def clearMappings (k : Kernel) (p : Nat) : Kernel :=
  (List.range procShmMax).foldl (fun k j => k.setMapping p j .cleared) k

end Os1000
