import Os1000.Proof.Common
import Os1000.Virtio.Disk

/-!
# A request to the disk

What a call leaves in `blk_req` and in the descriptors says the same to the device whatever
was there before: every field the device looks at is written anew. The two facts below,
`Requested` and `Described`, are all that the device needs.
-/

namespace Os1000.Proof

open Os1000 Lib

/-- `blk_req` asks for a transfer. -/
structure Requested (mem : Mem) (blkReq : Nat) (buf : Bytes) (sector : Nat) (isWrite : Bool) :
    Prop where
  type : load32 mem blkReq = if isWrite then virtioBlkTOut else virtioBlkTIn
  sector : load64 mem (blkReq + reqSectorAt) = sector
  data : isWrite = true → sectorAt mem (blkReq + reqDataAt) = sectorAt buf 0

/-- The first three descriptors point to the parts of `blk_req`. -/
structure Described (descs : Nat → VirtqDesc) (blkReq : Nat) (isWrite : Bool) : Prop where
  header : descs 0 = ⟨blkReq, 16, virtqDescFNext, 1⟩
  data : descs 1
    = ⟨blkReq + 16, 512, virtqDescFNext ||| (if isWrite then 0 else virtqDescFWrite), 2⟩
  status : ∃ next, descs 2 = ⟨blkReq + 528, 1, virtqDescFWrite, next⟩

/-- The device has done what a call asked for, with `a` on its disk before. -/
structure Transferred (mem : Mem) (blkReq : Nat) (a disk : Nat → Sector) (buf : Bytes)
    (sector : Nat) (isWrite : Bool) : Prop where
  status : mem (blkReq + reqStatusAt) = blkOk
  disk : disk = if isWrite then Function.update a sector (sectorAt buf 0) else a
  data : isWrite = false → sectorAt mem (blkReq + reqDataAt) = a sector

section

variable {mem : Mem} {blkReq sector sectors : Nat} {buf : Bytes} {isWrite : Bool}
  {descs : Nat → VirtqDesc} {a disk : Nat → Sector}

/-! ## The driver -/

/-- **The request is filled in.** -/
theorem fillBlkReq_ok (mem : Mem) (blkReq : Nat) (buf : Bytes) (isWrite : Bool)
    (hsector : sector < 2 ^ 32) :
    ∃ mem', fillBlkReq mem blkReq buf sector isWrite = .ok mem'
      ∧ Requested mem' blkReq buf sector isWrite := by
  obtain ⟨m, hm⟩ : ∃ m, m = store32 (store64 mem (blkReq + reqSectorAt) sector) blkReq
      (if isWrite then virtioBlkTOut else virtioBlkTIn) := ⟨_, rfl⟩
  have htype : load32 m blkReq = if isWrite then virtioBlkTOut else virtioBlkTIn := by
    rw [hm]
    exact load32_store32 (by cases isWrite <;> decide)
  have hsec : load64 m (blkReq + reqSectorAt) = sector := by
    have hbeside : ∀ x, blkReq + reqSectorAt ≤ x → blkReq + 4 ≤ x := fun x hx => by
      unfold reqSectorAt at hx
      omega
    rw [hm, load64_congr fun x hx _ => store32_of_outside (Or.inr (hbeside x hx))]
    exact load64_store64 (by omega)
  unfold fillBlkReq
  dsimp only
  rw [← hm]
  cases isWrite with
  | false => exact ⟨m, rfl, htype, hsec, fun h => by cases h⟩
  | true =>
      have hroom : blkReq + reqDataAt + sectorSize ≤ blkReq + reqStatusAt := Nat.le_refl _
      rw [if_pos rfl, memcpy_ok hroom (by omega)]
      refine ⟨_, rfl, ?_, ?_, fun _ => ?_⟩
      · rw [← htype]
        exact load32_congr fun x _ hx => blit_outside (Or.inl (by unfold reqDataAt; omega))
      · rw [← hsec]
        refine load64_congr fun x _ hx => blit_outside (Or.inl ?_)
        unfold reqSectorAt at hx
        unfold reqDataAt
        omega
      · funext i
        exact blit_inside i.isLt

/-- The descriptors are written. -/
theorem described_requestDescs (s : Drivers) (buf : Bytes) (sector : Nat) :
    Described (requestDescs s descs (.disk buf sector isWrite)) s.blkReqPaddr isWrite := by
  refine ⟨?_, ?_, (descs 2).next, ?_⟩
  · unfold requestDescs
    dsimp only
    rw [Function.update_of_ne (by decide), Function.update_of_ne (by decide), Function.update_self]
  · unfold requestDescs
    dsimp only
    rw [Function.update_of_ne (by decide), Function.update_self]
  · unfold requestDescs
    dsimp only
    rw [Function.update_self, Function.update_of_ne (by decide), Function.update_of_ne (by decide)]

theorem putSector_inside (i : Fin sectorSize) {b : Sector} {at' : Nat} :
    putSector mem at' b (at' + i) = b i := by
  unfold putSector
  rw [dif_pos ⟨by omega, by rw [Nat.add_sub_cancel_left]; exact i.isLt⟩]
  congr 1
  exact Fin.ext (Nat.add_sub_cancel_left ..)

theorem putSector_front (i : Fin sectorSize) {b : Sector} : putSector mem 0 b i = b i := by
  have h : putSector mem 0 b (0 + i) = b i := putSector_inside i
  rw [Nat.zero_add] at h
  exact h

theorem putSector_outside {b : Sector} {at' x : Nat} (h : x < at' ∨ at' + sectorSize ≤ x) :
    putSector mem at' b x = mem x := by
  unfold putSector
  rw [dif_neg (by omega)]

theorem blit_sector : blit buf 0 mem blkReq sectorSize = putSector buf 0 (sectorAt mem blkReq) := by
  funext x
  by_cases hx : x < sectorSize
  · rw [blit_front hx]
    have h : putSector buf 0 (sectorAt mem blkReq) (⟨x, hx⟩ : Fin sectorSize)
        = sectorAt mem blkReq ⟨x, hx⟩ := putSector_front _
    exact h.symm
  · rw [blit_outside (by omega), putSector_outside (by omega)]

/-- **The call returns what an array of sectors answers.** -/
theorem Transferred.finish (h : Transferred mem blkReq a disk buf sector isWrite)
    (hr : sector < sectors) :
    finishBlkReq mem blkReq buf isWrite = .ok (sectorAnswer sectors a buf sector isWrite) := by
  unfold finishBlkReq sectorAnswer
  rw [if_neg (not_not_intro (show mem (blkReq + reqStatusAt) = 0 from h.status))]
  cases isWrite with
  | true => rw [if_pos rfl, if_neg fun h => by cases h.2]
  | false =>
      have hroom : blkReq + reqDataAt + sectorSize ≤ blkReq + reqStatusAt := Nat.le_refl _
      rw [if_neg (fun h => by cases h), if_pos ⟨hr, rfl⟩, memcpy_ok (by omega) hroom, blit_sector,
        h.data rfl]

/-! ## The device -/

/-- What the device learns from the flags. -/
theorem Described.flags (h : Described descs blkReq isWrite) :
    ((descs 0).hasNext = true ∧ (descs 0).writable = false)
      ∧ ((descs 1).hasNext = true ∧ (descs 1).writable = !isWrite)
      ∧ ((descs 2).hasNext = false ∧ (descs 2).writable = true) := by
  obtain ⟨next, hstatus⟩ := h.status
  unfold VirtqDesc.hasNext VirtqDesc.writable
  rw [h.header, h.data, hstatus]
  cases isWrite with
  | false => simp [virtqDescFNext, virtqDescFWrite]
  | true => simp [virtqDescFNext, virtqDescFWrite]

/-- The chain is the three descriptors. -/
theorem Described.chain (h : Described descs blkReq isWrite) :
    chain descs virtqEntryNum 0 = some [descs 0, descs 1, descs 2] := by
  obtain ⟨⟨h0, _⟩, ⟨h1, _⟩, h2, _⟩ := h.flags
  have hn0 : (descs 0).next = 1 := by rw [h.header]
  have hn1 : (descs 1).next = 2 := by rw [h.data]
  show Os1000.chain descs (13 + 1 + 1 + 1) 0 = _
  rw [Os1000.chain, if_pos h0, hn0, Os1000.chain, if_pos h1, hn1, Os1000.chain,
    if_neg (by rw [h2]; exact Bool.false_ne_true)]
  rfl

/-- **The device executes the request.** What it does not write of `blk_req` it does not
need, and what is left there from the request before is not seen. -/
theorem executeBlk_ok (hd : Described descs blkReq isWrite)
    (hq : Requested mem blkReq buf sector isWrite) (hr : sector < sectors) :
    ∃ mem' disk', executeBlk sectors descs 0 mem a = some (mem', disk')
      ∧ Transferred mem' blkReq a disk' buf sector isWrite := by
  obtain ⟨next, hstatus⟩ := hd.status
  obtain ⟨⟨_, hw0⟩, ⟨_, hw1⟩, _, hw2⟩ := hd.flags
  have hform : IsBlkRequest (descs 0) (descs 1) (descs 2) := by
    refine ⟨?_, hw0, ?_, ?_, hw2⟩
    · rw [hd.header]
    · rw [hd.data]
      rfl
    · rw [hstatus]
  unfold executeBlk
  rw [hd.chain]
  dsimp only
  rw [if_pos hform, hw1, hd.header, hd.data, hstatus]
  dsimp only
  rw [hq.sector, hq.type, if_pos hr]
  cases isWrite with
  | false =>
      rw [if_pos ⟨rfl, rfl⟩]
      refine ⟨_, _, rfl, Function.update_self .., rfl, fun _ => ?_⟩
      funext i
      have hi : (i : Nat) < 512 := i.isLt
      unfold sectorAt reqDataAt
      rw [Function.update_of_ne (by omega)]
      exact putSector_inside i
  | true =>
      rw [if_neg (by decide), if_pos ⟨rfl, rfl⟩]
      refine ⟨_, _, rfl, Function.update_self .., ?_, fun h => by cases h⟩
      rw [if_pos rfl, ← hq.data rfl]
      rfl

end

end Os1000.Proof
