import Os1000.Kernel.State
import Os1000.Lib.Run

/-!
# Sv32 page tables (`map_page`, `unmap_page` of `kernel/process.c`)

A page table is one page of 1024 words; a valid word of the first level names the
page of a second-level table, a valid word there is a leaf. `map_page` allocates
the second-level table on first use and appends its region to the process.
`walk` is what the hardware does with the result.
-/

namespace Os1000

open Lib

/-- `PAGE_V` -/
def pageV : Nat := 1
/-- `PAGE_R` -/
def pageR : Nat := 2
/-- `PAGE_W` -/
def pageW : Nat := 4
/-- `PAGE_X` -/
def pageX : Nat := 8
/-- `PAGE_U` -/
def pageU : Nat := 16

/-- `(vaddr >> 22) & 0x3ff` -/
def vpn1 (vaddr : Nat) : Nat := (vaddr >>> 22) &&& 0x3ff

/-- `(vaddr >> 12) & 0x3ff` -/
def vpn0 (vaddr : Nat) : Nat := (vaddr >>> 12) &&& 0x3ff

/-- `((paddr / PAGE_SIZE) << 10) | flags | PAGE_V` -/
def pte (paddr flags : Nat) : Nat := ((paddr / pageSize) <<< 10) ||| flags ||| pageV

/-- `(entry >> 10) * PAGE_SIZE` -/
def ptePage (entry : Nat) : Nat := u32 ((entry >>> 10) * pageSize)

/-- The second-level table step of `map_page`: allocate and link it when it is missing. -/
def ensureTable (L : Layout) (k : Kernel) (p v1 : Nat) : Except Panic Kernel :=
  let table1 := (k.procs p).pageTable
  if load32 k.mem (table1 + 4 * v1) &&& pageV = 0 then do
    let (ptPaddr, regionIdx, r) ← allocPages k.toRam 1
    let k := recordRegion L { k with toRam := r } p regionIdx
    pure { k with
      mem := store32 k.mem (table1 + 4 * v1) (((ptPaddr / pageSize) <<< 10) ||| pageV) }
  else pure k

/-- `map_page` -/
def mapPage (L : Layout) (k : Kernel) (p vaddr paddr flags : Nat) : Except Panic Kernel :=
  let table1 := (k.procs p).pageTable
  if vaddr % pageSize ≠ 0 then .error (.unalignedVaddr vaddr)
  else if paddr % pageSize ≠ 0 then .error (.unalignedPaddr paddr)
  else do
    let k ← ensureTable L k p (vpn1 vaddr)
    let table0 := ptePage (load32 k.mem (table1 + 4 * vpn1 vaddr))
    pure { k with mem := store32 k.mem (table0 + 4 * vpn0 vaddr) (pte paddr flags) }

/-- `unmap_page` -/
def unmapPage (k : Kernel) (p vaddr : Nat) : Except Panic Kernel :=
  let table1 := (k.procs p).pageTable
  if vaddr % pageSize ≠ 0 then .error (.unalignedVaddr vaddr)
  else if load32 k.mem (table1 + 4 * vpn1 vaddr) &&& pageV = 0 then .ok k
  else
    let table0 := ptePage (load32 k.mem (table1 + 4 * vpn1 vaddr))
    .ok { k with mem := store32 k.mem (table0 + 4 * vpn0 vaddr) 0 }

/--
The leaf entry the hardware finds for `vaddr`, or `none` if the address is not mapped.
A first-level entry with any of R, W and X set would be a leaf itself.
-/
def walk (m : Mem) (root vaddr : Nat) : Option Nat :=
  let e1 := load32 m (root + 4 * vpn1 vaddr)
  if e1 &&& pageV = 0 then none
  else if e1 &&& (pageR ||| pageW ||| pageX) ≠ 0 then some e1
  else
    let e0 := load32 m (ptePage e1 + 4 * vpn0 vaddr)
    if e0 &&& pageV = 0 then none else some e0

end Os1000
