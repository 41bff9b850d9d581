import Os1000.Kernel.Paging

/-!
# Shared memory (`kernel/shm.c`)

An object owns one page. `shm_get` finds or creates the object of a key,
`shm_attach` maps its page into the first free slot of the process's window and
counts the mapping, `shm_detach` undoes one mapping and destroys the object when
the count falls to zero.
-/

namespace Os1000

open Lib

/-- `find_by_id` -/
def findById (k : Kernel) (id : Int) : Option Nat :=
  (List.range shmMax).find? fun i => (k.shmTable i).used && decide ((k.shmTable i).id = id)

/-- `find_by_key` -/
def findByKey (k : Kernel) (key : Int) : Option Nat :=
  (List.range shmMax).find? fun i => (k.shmTable i).used && decide ((k.shmTable i).key = key)

/-- `shm_init` -/
def shmInit (k : Kernel) : Kernel :=
  { (List.range shmMax).foldl (fun k i => k.setObj i .cleared) k with nextShmId := 1 }

/-- `shm_get` -/
def shmGet (k : Kernel) (key : Int) : Except Panic (Int × Kernel) :=
  if key ≤ 0 then .ok (-1, k)
  else
    match findByKey k key with
    | some i => .ok ((k.shmTable i).id, k)
    | none =>
      match (List.range shmMax).find? fun i => !(k.shmTable i).used with
      | some i => do
          let (pa, regionIdx, r) ← allocPages k.toRam 1
          let id := k.nextShmId
          let k := { k with
            toRam := r
            nextShmId := i32 (k.nextShmId + 1)
            shmCreated := k.shmCreated + 1
            shmTable := Function.update k.shmTable i
              { used := true, id, key, pa, regionIdx, size := shmPageSize, refcount := 0,
                birth := k.shmCreated } }
          pure (id, k)
      | none => .ok (-1, k)

/-- `shm_attach` -/
def shmAttach (L : Layout) (k : Kernel) (p : Nat) (id : Int) : Except Panic (Nat × Kernel) :=
  match findById k id with
  | none => .ok (0, k)
  | some s =>
    match (List.range procShmMax).find? fun i => decide (((k.procs p).shmMappings i).used = 0) with
    | none => .ok (0, k)
    | some slot => do
        let vaddr := shmUserBase + slot * shmPageSize
        let k ← mapPage L k p vaddr (k.shmTable s).pa (pageU ||| pageR ||| pageW)
        let k := k.setMapping p slot { used := 1, shmId := id, vaddr }
        let k := k.setObj s { k.shmTable s with refcount := (k.shmTable s).refcount + 1 }
        pure (vaddr, k)

/-- Drop one reference to object `s`, and the object itself with the last one. -/
def shmPut (k : Kernel) (s : Nat) : Except Panic Kernel :=
  let o := { k.shmTable s with refcount := (k.shmTable s).refcount - 1 }
  let k := k.setObj s o
  if o.refcount ≤ 0 then do
    let r ← releasePages k.toRam (o.regionIdx : Int)
    let k := { k with toRam := r, shmReleased := k.shmReleased ++ [o.birth] }
    pure (k.setObj s .cleared)
  else .ok k

/-- `shm_detach` -/
def shmDetach (k : Kernel) (p vaddr : Nat) : Except Panic (Int × Kernel) :=
  let found := (List.range procShmMax).find? fun i =>
    decide (((k.procs p).shmMappings i).used ≠ 0 ∧ ((k.procs p).shmMappings i).vaddr = vaddr)
  match found with
  | none => .ok (-1, k)
  | some i => do
      let mapping := (k.procs p).shmMappings i
      let obj := findById k mapping.shmId
      let k ← unmapPage k p mapping.vaddr
      let k := k.setMapping p i .cleared
      match obj with
      | none => pure (0, k)
      | some s => do
          let k ← shmPut k s
          pure (0, k)

/-- `shm_process_cleanup` -/
def shmProcessCleanup (k : Kernel) (p : Nat) : Except Panic Kernel :=
  (List.range procShmMax).foldlM (fun k i =>
    if ((k.procs p).shmMappings i).used ≠ 0 then do
      let (_, k) ← shmDetach k p ((k.procs p).shmMappings i).vaddr
      pure k
    else pure k) k

end Os1000
