import Os1000.Layout
import Os1000.Lib.Memory

/-!
# The page allocator (`kernel/allocator.c`)

Free RAM is described by a fixed table of `MAX_REGIONS` entries. An entry is
unused, or describes a contiguous block that is free or allocated. Allocation
takes the front of the first free block that is large enough and records it in
the first unused entry; the index of that entry is the handle by which the block
is released. Release marks the block free and runs one merging pass over the
table.

The table is unordered. The merging pass is two nested loops over the entries it
is rewriting, and is translated as exactly that.
-/

namespace Os1000

open Lib

/-- `MAX_REGIONS` -/
def maxRegions : Nat := 128

/-- `region_state_t` -/
inductive RegionState where
  | unused
  | free
  | allocated
  deriving DecidableEq, Repr

/-- `region_t` -/
structure Region where
  start : Nat
  /-- In bytes. -/
  size : Nat
  state : RegionState
  deriving DecidableEq, Repr

/-- An entry as `init_regions` and `merge_free_regions` clear it. -/
def Region.cleared : Region := ⟨0, 0, .unused⟩

/-- `regions[]` -/
abbrev Regions := Nat → Region

/-- The calls of `PANIC` that the modelled functions can reach. -/
inductive Panic where
  /-- "out of memory" -/
  | outOfMemory
  /-- "invalid region index" -/
  | invalidRegionIndex
  /-- " %d region is not allocated", from `release_pages` -/
  | releaseNotAllocated (idx : Int)
  /-- "region %d is not allocated", from `region_to_addr` -/
  | regionNotAllocated (idx : Nat)
  /-- "no free process slots" -/
  | noFreeProcessSlots
  /-- "unaligned vaddr %x" -/
  | unalignedVaddr (vaddr : Nat)
  /-- "unaligned paddr %x" -/
  | unalignedPaddr (paddr : Nat)
  deriving DecidableEq, Repr

/-- The allocator's table and the memory it hands out. -/
structure Ram where
  regions : Regions
  mem : Mem
  /-- Proof-only: the index given to every `release_pages` call that returned, oldest first. -/
  freed : List Nat

/-- `init_regions` -/
def initRegions (L : Layout) (r : Ram) : Ram :=
  { r with
    regions := fun i =>
      if i = 0 then ⟨L.freeRam, u32 (L.freeRamEnd - L.freeRam), .free⟩
      else if i < maxRegions then .cleared
      else r.regions i
    freed := [] }

/-- `find_unused_region_slot` -/
def findUnusedRegionSlot (t : Regions) : Option Nat :=
  (List.range maxRegions).find? fun i => decide ((t i).state = .unused)

/-- `find_suitable_free_region` -/
def findSuitableFreeRegion (t : Regions) (requiredSize : Nat) : Option Nat :=
  (List.range maxRegions).find? fun i =>
    decide ((t i).state = .free ∧ requiredSize ≤ (t i).size)

/-- The table after `alloc_region` took `requiredSize` bytes of `freeIdx` as `newIdx`. -/
def takeFront (t : Regions) (freeIdx newIdx requiredSize : Nat) : Regions :=
  let t := Function.update t newIdx ⟨(t freeIdx).start, requiredSize, .allocated⟩
  let t := Function.update t freeIdx
    { t freeIdx with
      start := u32 ((t freeIdx).start + requiredSize)
      size := (t freeIdx).size - requiredSize }
  if (t freeIdx).size = 0 then
    Function.update t freeIdx { t freeIdx with start := 0, state := .unused }
  else t

/-- `alloc_region` -/
def allocRegion (r : Ram) (numPages : Nat) : Except Panic (Nat × Ram) :=
  let requiredSize := u32 (numPages * pageSize)
  match findSuitableFreeRegion r.regions requiredSize, findUnusedRegionSlot r.regions with
  | some freeIdx, some newIdx =>
      .ok (newIdx, { r with
        regions := takeFront r.regions freeIdx newIdx requiredSize
        mem := fill r.mem (r.regions freeIdx).start 0 requiredSize })
  | _, _ => .error .outOfMemory

/-- `region_to_addr` -/
def regionToAddr (r : Ram) (regionIdx : Nat) : Except Panic Nat :=
  if maxRegions ≤ regionIdx then .error .invalidRegionIndex
  else if (r.regions regionIdx).state ≠ .allocated then .error (.regionNotAllocated regionIdx)
  else .ok (r.regions regionIdx).start

/-- `alloc_pages`: the address, the region index it stores, and the state after. -/
def allocPages (r : Ram) (numPages : Nat) : Except Panic (Nat × Nat × Ram) := do
  let (regionIdx, r) ← allocRegion r numPages
  let paddr ← regionToAddr r regionIdx
  pure (paddr, regionIdx, r)

/-- The inner loop body of `merge_free_regions`: let `i` swallow `j` if it can. -/
def mergeInto (i : Nat) (t : Regions) (j : Nat) : Regions :=
  if i = j ∨ (t j).state ≠ .free then t
  else if u32 ((t i).start + (t i).size) = (t j).start then
    Function.update (Function.update t i { t i with size := u32 ((t i).size + (t j).size) })
      j .cleared
  else t

/-- The outer loop body of `merge_free_regions`. -/
def mergeRow (t : Regions) (i : Nat) : Regions :=
  if (t i).state ≠ .free then t
  else (List.range maxRegions).foldl (mergeInto i) t

/-- `merge_free_regions` -/
def mergeFreeRegions (t : Regions) : Regions :=
  (List.range maxRegions).foldl mergeRow t

/-- Entry `i` marked free, as `release_pages` does before it merges. -/
def markFree (t : Regions) (i : Nat) : Regions :=
  Function.update t i { t i with state := .free }

/-- `release_pages` -/
def releasePages (r : Ram) (regionIdx : Int) : Except Panic Ram :=
  if regionIdx < 0 ∨ (maxRegions : Int) ≤ regionIdx then .error .invalidRegionIndex
  else if (r.regions regionIdx.toNat).state ≠ .allocated then
    .error (.releaseNotAllocated regionIdx)
  else
    .ok { r with
      regions := mergeFreeRegions (markFree r.regions regionIdx.toNat)
      freed := r.freed ++ [regionIdx.toNat] }

/-! ## Sequences of calls -/

/-- A call of the allocator's interface, with the index it returned or was given. -/
inductive AllocCall where
  | alloc (numPages regionIdx : Nat)
  | release (regionIdx : Int)

/-- One call that returned. -/
inductive AllocStep : Ram → AllocCall → Ram → Prop where
  | alloc {r r' : Ram} {numPages paddr idx : Nat} :
      allocPages r numPages = .ok (paddr, idx, r') → AllocStep r (.alloc numPages idx) r'
  | release {r r' : Ram} {idx : Int} :
      releasePages r idx = .ok r' → AllocStep r (.release idx) r'

/-- What `init_regions` leaves behind, whatever was there before. -/
def AllocInit (L : Layout) (r : Ram) : Prop := ∃ r₀, r = initRegions L r₀

end Os1000
