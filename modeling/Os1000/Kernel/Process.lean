import Os1000.Kernel.Shm

/-!
# Processes (`kernel/process.c`) and boot (`kernel/kernel.c`)

`create_process` builds the address space of a new process page by page,
`release_process` gives everything back, `yield` picks who runs next. The register
side of `yield`, which stacks are switched and how, is the subject of
`Os1000.Trap.Machine`.
-/

namespace Os1000

open Lib

/-- `VIRTIO_BLK_PADDR` -/
def virtioBlkPaddr : Nat := 0x10001000
/-- `VIRTIO_NET_PADDR` -/
def virtioNetPaddr : Nat := 0x10002000
/-- `PLIC_BASE` -/
def plicBase : Nat := 0x0c000000

/-- The device pages `create_process` maps, in its order. -/
def devicePages : List Nat :=
  [virtioBlkPaddr, virtioNetPaddr, plicBase, plicBase + 0x2000, plicBase + 0x201000]

/-- How many pages the loop from `__kernel_base` to `__free_ram_end` visits. -/
def kernelPages (L : Layout) : Nat := (L.freeRamEnd - kernelBase + (pageSize - 1)) / pageSize

/-- How many pages an image of `n` bytes takes. -/
def imagePages (n : Nat) : Nat := (n + (pageSize - 1)) / pageSize

/-- The callee-saved registers and the return address stacked for the first `switch_context`. -/
def stackInitialContext (L : Layout) (k : Kernel) (p : Nat) : Kernel :=
  let m := (List.range 12).foldl (fun m j => store32 m (stackTop L p - 4 * (j + 1)) 0) k.mem
  { k with mem := store32 m (stackTop L p - 4 * 13) L.userEntry }

/-- The fields `create_process` resets before it allocates anything. -/
def resetProcess (L : Layout) (k : Kernel) (p : Nat) : Kernel :=
  let k := k.setProc p fun q => { q with currentIdx := 0, appended := [], imageRegions := [] }
  let k := clearRegions L k p
  let k := clearMappings k p
  stackInitialContext L k p

/-- The page table page of a new process. -/
def allocPageTable (L : Layout) (k : Kernel) (p : Nat) : Except Panic Kernel := do
  let (pageTable, region, r) ← allocPages k.toRam 1
  let k := ({ k with toRam := r } : Kernel).setProc p fun q => { q with pageTable }
  pure (recordRegion L k p region)

/-- The loop that maps the kernel and all of free RAM onto itself. -/
def mapKernelPages (L : Layout) (k : Kernel) (p : Nat) : Except Panic Kernel :=
  (List.range (kernelPages L)).foldlM (fun k i =>
    let paddr := kernelBase + i * pageSize
    mapPage L k p paddr paddr (pageR ||| pageW ||| pageX)) k

/-- The calls that map the device registers. -/
def mapDevicePages (L : Layout) (k : Kernel) (p : Nat) : Except Panic Kernel :=
  devicePages.foldlM (fun k paddr => mapPage L k p paddr paddr (pageR ||| pageW)) k

/-- One iteration of the loop over the image. -/
def mapImagePage (L : Layout) (image : List UInt8) (p : Nat) (k : Kernel) (i : Nat) :
    Except Panic Kernel := do
  let off := i * pageSize
  let (page, region, r) ← allocPages k.toRam 1
  let k := recordRegion L { k with toRam := r } p region
  let k := k.setProc p fun q => { q with imageRegions := q.imageRegions ++ [region] }
  let k := { k with mem := writeBytes k.mem page ((image.drop off).take pageSize) }
  mapPage L k p (u32 (userBase + off)) page (pageU ||| pageR ||| pageW ||| pageX)

/--
The loop that allocates, fills and maps the pages of the image. `off` would wrap
around after 2^20 pages; the allocator has run out of table entries long before.
-/
def mapImagePages (L : Layout) (image : List UInt8) (k : Kernel) (p : Nat) :
    Except Panic Kernel :=
  (List.range (imagePages image.length)).foldlM (mapImagePage L image p) k

/-- The address space of a new process: its page table, the kernel, the devices, the image. -/
def buildSpace (L : Layout) (k : Kernel) (p : Nat) (image : List UInt8) :
    Except Panic Kernel := do
  let k ← allocPageTable L k p
  let k ← mapKernelPages L k p
  let k ← mapDevicePages L k p
  mapImagePages L image k p

/-- `create_process`: the slot it used and the state after. -/
def createProcess (L : Layout) (k : Kernel) (image : List UInt8) :
    Except Panic (Nat × Kernel) :=
  match (List.range procsMax).find? fun i => decide ((k.procs i).state = .unused) with
  | none => .error .noFreeProcessSlots
  | some p => do
      let k := resetProcess L k p
      let k ← buildSpace L k p image
      let k := k.setProc p fun q =>
        { q with pid := p + 1, state := .runnable, sp := stackTop L p - 4 * 13 }
      pure (p, k)

/-- The loop body of `init_processes`. -/
def initProcess (L : Layout) (k : Kernel) (p : Nat) : Kernel :=
  let k := k.setProc p fun q => { q with pid := 0, state := .unused, sp := 0 }
  clearMappings (clearRegions L k p) p

/-- `init_processes` -/
def initProcesses (L : Layout) (k : Kernel) : Except Panic Kernel := do
  let k := (List.range procsMax).foldl (initProcess L) k
  let (p, k) ← createProcess L k []
  let k := k.setProc p fun q => { q with pid := 0 }
  pure { k with idleProc := p, currentProc := p }

/--
The loop of `release_process` over the recorded regions. The word at index
`PROC_REGION_MAX` is `current_idx` itself: an iteration that gets there clears it, so
the loop never goes further.
-/
def releaseRegions (L : Layout) (k : Kernel) (p : Nat) : Except Panic Kernel :=
  (List.range (procRegionMax + 1)).foldlM (fun k i =>
    if i < (k.procs p).currentIdx then
      if getRegion L k p i ≠ 0 then do
        let r ← releasePages k.toRam (getRegion L k p i : Int)
        pure (setRegion L { k with toRam := r } p i 0)
      else pure k
    else pure k) k

/-- `release_process` -/
def releaseProcess (L : Layout) (k : Kernel) (p : Nat) : Except Panic Kernel := do
  let k ← shmProcessCleanup k p
  let k ← releaseRegions L k p
  let k := k.setProc p fun q =>
    { q with
      pid := 0, state := .unused, sp := 0, pageTable := 0, currentIdx := 0
      appended := [], imageRegions := [] }
  pure (clearMappings k p)

/-- Slot `(current_proc->pid + i) % PROCS_MAX` of the scan. -/
def scanSlot (k : Kernel) (i : Nat) : Nat := ((k.procs k.currentProc).pid + i) % procsMax

/-- `proc->state == PROC_RUNNABLE && proc->pid > 0` -/
def Eligible (k : Kernel) (p : Nat) : Prop := (k.procs p).state = .runnable ∧ 0 < (k.procs p).pid

instance (k : Kernel) (p : Nat) : Decidable (Eligible k p) :=
  inferInstanceAs (Decidable ((k.procs p).state = .runnable ∧ 0 < (k.procs p).pid))

/-- The process the scan of `yield` settles on. -/
def findNext (k : Kernel) : Nat :=
  match (List.range procsMax).find? fun i => decide (Eligible k (scanSlot k i)) with
  | some i => scanSlot k i
  | none => k.idleProc

/-- `yield`. Returning to the caller is the case in which `current_proc` stays. -/
def yield (L : Layout) (k : Kernel) : Except Panic Kernel := do
  let k ←
    if (k.procs k.currentProc).state = .exited then releaseProcess L k k.currentProc else pure k
  pure { k with currentProc := findNext k }

/-- `SYS_EXIT`: `current_proc->state = PROC_EXITED; yield();` -/
def sysExit (L : Layout) (k : Kernel) : Except Panic Kernel :=
  yield L (k.setProc k.currentProc fun q => { q with state := .exited })

/-! ## Boot -/

/-- `align_up(n, PAGE_SIZE) / PAGE_SIZE` -/
def pagesFor (n : Nat) : Nat := (n + (pageSize - 1)) / pageSize

/-- `sizeof(struct virtio_virtq)`: the used ring starts on the second page. -/
def sizeofVirtq : Nat := 8192
/-- `sizeof(struct virtio_blk_req)` -/
def sizeofBlkReq : Nat := 529
/-- `sizeof(struct virtio_net_buf)` -/
def sizeofNetBuf : Nat := 1524

/--
What the drivers allocate at boot, in order: the request queue and the request of
`virtio_blk_init`, the two queues, the receive buffers and the transmit buffer of
`virtio_net_init`.
-/
def driverPages : List Nat :=
  [pagesFor sizeofVirtq, pagesFor sizeofBlkReq, pagesFor sizeofVirtq, pagesFor sizeofVirtq,
    pagesFor (sizeofNetBuf * 16), pagesFor sizeofNetBuf]

/-- One boot-time allocation of a driver. -/
def allocDriver (k : Kernel) (numPages : Nat) : Except Panic Kernel := do
  let (_, region, r) ← allocPages k.toRam numPages
  pure { k with toRam := r, driverRegions := k.driverRegions ++ [region] }

/-- The statics of a kernel whose `.bss` has just been cleared. -/
def Kernel.zeroed (m : Mem) : Kernel where
  regions := fun _ => .cleared
  mem := m
  freed := []
  procs := fun _ => ⟨0, .unused, 0, 0, fun _ => 0, 0, fun _ => .cleared, [], [], []⟩
  currentProc := 0
  idleProc := 0
  shmTable := fun _ => .cleared
  nextShmId := 1
  driverRegions := []
  shmCreated := 0
  shmReleased := []

/-- `kernel_main` up to and including `init_processes`, as far as it concerns this state. -/
def boot (L : Layout) (m : Mem) : Except Panic Kernel := do
  let k := Kernel.zeroed m
  let k := { k with toRam := initRegions L k.toRam }
  let k := shmInit k
  let k ← driverPages.foldlM allocDriver k
  initProcesses L k

/-! ## Steps -/

/-- A process slot in use. -/
def Live (k : Kernel) (p : Nat) : Prop := p < procsMax ∧ (k.procs p).state ≠ .unused

/-- One call into the kernel, with its result. `exit` is `SYS_EXIT` with the `yield` it ends in. -/
inductive Event where
  | create (image : List UInt8) (p : Nat)
  | shmGet (p : Nat) (key ret : Int)
  | shmAttach (p : Nat) (id : Int) (ret : Nat)
  | shmDetach (p vaddr : Nat) (ret : Int)
  | exit (p next : Nat)
  | yield (next : Nat)

/-- One call that returned. -/
inductive Step (L : Layout) : Kernel → Event → Kernel → Prop where
  | create {k k' : Kernel} {image : List UInt8} {p : Nat} :
      createProcess L k image = .ok (p, k') → Step L k (.create image p) k'
  | shmGet {k k' : Kernel} {p : Nat} {key ret : Int} :
      Live k p → shmGet k key = .ok (ret, k') → Step L k (.shmGet p key ret) k'
  | shmAttach {k k' : Kernel} {p : Nat} {id : Int} {ret : Nat} :
      Live k p → shmAttach L k p id = .ok (ret, k') → Step L k (.shmAttach p id ret) k'
  | shmDetach {k k' : Kernel} {p vaddr : Nat} {ret : Int} :
      Live k p → shmDetach k p vaddr = .ok (ret, k') → Step L k (.shmDetach p vaddr ret) k'
  | exit {k k' : Kernel} :
      Live k k.currentProc → k.currentProc ≠ k.idleProc → sysExit L k = .ok k' →
      Step L k (.exit k.currentProc k'.currentProc) k'
  | yield {k k' : Kernel} : yield L k = .ok k' → Step L k (.yield k'.currentProc) k'

/-- The state `kernel_main` reaches before the first user process, from any memory. -/
def Booted (L : Layout) (k : Kernel) : Prop := ∃ m, boot L m = .ok k

end Os1000
