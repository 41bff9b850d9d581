import Os1000.Net.Capture
import Os1000.Proof.Common
import Os1000.Proof.RxQueue

/-!
# The capture ring is a bounded queue

`Fifo` is the queue the ring is meant to be: the frames accepted so far in their order, how
many of them have been popped, and how many frames were turned away. A frame is turned away
exactly when sixteen accepted ones have not been popped.

The ring agrees with it step by step. What is in a slot is looked at through `view`, which
sees only as many bytes as the frame has: behind them the slot holds what longer frames have
left there.
-/

namespace Os1000.Proof

open Os1000 Lib

/-- A frame: its type and its bytes. -/
structure EthFrame where
  ethertype : Nat
  bytes : List UInt8

/-- A queue of at most `NET_RX_CAPTURE_NUM` frames, with its history. -/
structure Fifo where
  /-- Every frame that was let in, oldest first. -/
  accepted : List EthFrame
  /-- How many of them have been taken out. -/
  popped : Nat
  rejected : Nat

def Fifo.empty : Fifo := ⟨[], 0, 0⟩

/-- A frame is let in unless the queue is full. -/
def Fifo.capture (q : Fifo) (f : EthFrame) : Fifo :=
  if q.accepted.length - q.popped = netRxCaptureNum then { q with rejected := q.rejected + 1 }
  else { q with accepted := q.accepted ++ [f] }

/-- The frame at the front, cut off at `capacity` bytes, over the bytes `dst` had. -/
def EthFrame.copyTo (f : EthFrame) (dst : Bytes) (capacity : Nat) : PoppedFrame where
  dst := fun i => if i < capacity then f.bytes.getD i (dst i) else dst i
  frameLen := min f.bytes.length capacity
  ethertype := f.ethertype

/-- The oldest frame that has not been taken out, if there is one. -/
def Fifo.pop (q : Fifo) (dst : Bytes) (capacity : Nat) : Option PoppedFrame × Fifo :=
  match q.accepted[q.popped]? with
  | none => (none, q)
  | some f => (some (f.copyTo dst capacity), { q with popped := q.popped + 1 })

/-- The first `n` bytes of a frame. -/
def frameOf (frame : Bytes) (n ethertype : Nat) : EthFrame := ⟨ethertype, (List.range n).map frame⟩

/-- One operation on the queue, with what the pops have returned so far. -/
def Fifo.op (s : Fifo × List (Option PoppedFrame)) :
    CaptureOp → Fifo × List (Option PoppedFrame)
  | .capture frame n ethertype => (s.1.capture (frameOf frame n ethertype), s.2)
  | .pop dst capacity => ((s.1.pop dst capacity).2, s.2 ++ [(s.1.pop dst capacity).1])

/-- The frame in a slot. -/
def view (c : NetCapture) : EthFrame := frameOf c.frame c.len c.ethertype

/-- **The ring stands for the queue.** -/
structure Captures (c : RxCapture) (q : Fifo) : Prop where
  ring : Carries virtqEntryNum (2 ^ 16) (fun i => view (c.captures i)) c.write c.read q.accepted
    q.popped
  drops : c.drops = u32 q.rejected
  /-- No frame is longer than a slot. -/
  short : ∀ i, (c.captures i).len ≤ ethMaxFrameSize ∨
    ∀ k, q.popped ≤ k → k < q.accepted.length → k % virtqEntryNum ≠ i

section

variable {c : RxCapture} {q : Fifo}

theorem captures_reset (c : RxCapture) : Captures c.reset Fifo.empty where
  ring := Carries.start wraps_virtq
  drops := rfl
  short _ := Or.inr fun _ _ hk => absurd hk (Nat.not_lt_zero _)

/-- The ring is full exactly when the queue is. -/
theorem Captures.full_iff (h : Captures c q) :
    netRxCaptureNum ≤ u16 (c.write + 2 ^ 16 - c.read)
      ↔ q.accepted.length - q.popped = netRxCaptureNum := by
  have hd := h.ring.distance wraps_virtq
  have hroom := h.ring.room
  unfold u16 netRxCaptureNum
  rw [hd]
  omega

theorem view_update (f : Nat → NetCapture) (i : Nat) (x : NetCapture) :
    (fun j => view (Function.update f i x j)) = Function.update (fun j => view (f j)) i (view x) := by
  funext j
  by_cases hj : j = i
  · rw [hj, Function.update_self, Function.update_self]
  · rw [Function.update_of_ne hj, Function.update_of_ne hj]

/-- What a copied frame is seen as. -/
theorem view_blit (old frame : Bytes) (n ethertype : Nat) :
    view ⟨n, ethertype, blit old 0 frame 0 n⟩ = frameOf frame n ethertype := by
  have hbytes : (List.range n).map (blit old 0 frame 0 n) = (List.range n).map frame := by
    refine List.map_congr_left fun i hi => ?_
    rw [blit_front (List.mem_range.mp hi), Nat.zero_add]
  unfold view frameOf
  rw [hbytes]

/-- **One frame received.** -/
theorem Captures.capture (h : Captures c q) (frame : Bytes) {n : Nat} (hn : n ≤ ethMaxFrameSize)
    (ethertype : Nat) :
    ∃ c', virtioNetCaptureRx c frame n ethertype = .ok c'
      ∧ Captures c' (q.capture (frameOf frame n ethertype)) := by
  unfold virtioNetCaptureRx Fifo.capture
  by_cases hfull : netRxCaptureNum ≤ u16 (c.write + 2 ^ 16 - c.read)
  · rw [if_pos hfull, if_pos (h.full_iff.mp hfull)]
    refine ⟨_, rfl, h.ring, ?_, h.short⟩
    show u32 (c.drops + 1) = u32 (q.rejected + 1)
    rw [h.drops]
    unfold u32
    omega
  · have hnf : ¬ q.accepted.length - q.popped = netRxCaptureNum :=
      fun he => hfull (h.full_iff.mpr he)
    rw [if_neg hfull, if_neg hnf]
    dsimp only
    have hroom : q.accepted.length < q.popped + virtqEntryNum := by
      have := h.ring.room
      unfold netRxCaptureNum at hnf
      omega
    rw [memcpy_ok (by omega) (by omega), ok_bind]
    refine ⟨_, rfl, ?_, h.drops, ?_⟩
    · have hw := (h.ring.write wraps_virtq hroom (frameOf frame n ethertype)).publish wraps_virtq
        hroom (Function.update_self ..)
      dsimp only
      rw [view_update, view_blit]
      exact hw
    · intro i
      by_cases hi : i = c.write % netRxCaptureNum
      · left
        dsimp only
        rw [hi, Function.update_self]
        exact hn
      · dsimp only
        rw [Function.update_of_ne hi]
        refine (h.short i).imp_right fun hs k hk hlt => ?_
        rw [List.length_append, List.length_singleton] at hlt
        by_cases hke : k = q.accepted.length
        · rw [hke, ← wraps_virtq.slot_eq, ← h.ring.head]
          exact fun he => hi he.symm
        · exact hs k hk (by omega)

/-- A byte of a frame, or of what was there before. -/
theorem getD_frame (frame : Bytes) (n i : Nat) (b : UInt8) :
    ((List.range n).map frame).getD i b = if i < n then frame i else b := by
  rw [List.getD_eq_getElem?_getD, List.getElem?_map]
  by_cases hi : i < n
  · rw [List.getElem?_range hi, if_pos hi]
    rfl
  · rw [List.getElem?_eq_none (by rw [List.length_range]; omega), if_neg hi]
    rfl

/-- Copying out of a slot gives the frame in it, as far as there is room. -/
theorem view_copyTo (x : NetCapture) (dst : Bytes) (capacity : Nat) :
    (view x).copyTo dst capacity
      = ⟨blit dst 0 x.frame 0 (min x.len capacity), min x.len capacity, x.ethertype⟩ := by
  unfold EthFrame.copyTo view frameOf
  dsimp only
  rw [List.length_map, List.length_range]
  congr 1
  funext i
  rw [getD_frame]
  by_cases hi : i < capacity
  · rw [if_pos hi]
    by_cases hl : i < x.len
    · rw [if_pos hl, blit_front (by omega), Nat.zero_add]
    · rw [if_neg hl, blit_outside (by omega)]
  · rw [if_neg hi, blit_outside (by omega)]

/-- **One frame popped**, or none. -/
theorem Captures.pop (h : Captures c q) (dst : Bytes) (capacity : Nat) :
    ∃ c', virtioNetPopRxFrame c dst capacity = .ok ((q.pop dst capacity).1, c')
      ∧ Captures c' (q.pop dst capacity).2 := by
  unfold virtioNetPopRxFrame Fifo.pop
  by_cases he : c.read = c.write
  · have hall := (h.ring.eq_iff wraps_virtq).mp he
    rw [if_pos he, List.getElem?_eq_none (by omega)]
    exact ⟨c, rfl, h⟩
  · have hnext := h.ring.next wraps_virtq he
    have hlt : q.popped < q.accepted.length := (List.getElem?_eq_some_iff.mp hnext).1
    rw [if_neg he, hnext]
    dsimp only
    have hlen : (c.captures (c.read % netRxCaptureNum)).len ≤ ethMaxFrameSize := by
      refine (h.short _).resolve_right fun hs => hs q.popped (Nat.le_refl _) hlt ?_
      rw [h.ring.tail]
      exact (wraps_virtq.slot_eq _).symm
    rw [memcpy_ok (by omega) (by omega), ok_bind]
    refine ⟨{ c with read := u16 (c.read + 1) }, ?_, h.ring.take wraps_virtq he, h.drops,
      fun i => (h.short i).imp_right fun hs k hk => hs k (by dsimp only at hk; omega)⟩
    rw [view_copyTo]
    rfl

/-! ## Whole sequences -/

/-- An operation whose frame fits a slot. -/
def FitsSlot : CaptureOp → Prop
  | .capture _ n _ => n ≤ ethMaxFrameSize
  | .pop _ _ => True

/-- One operation, on the ring and on the queue. -/
theorem Captures.op (h : Captures c q) (ret : List (Option PoppedFrame)) {op : CaptureOp}
    (hs : FitsSlot op) :
    ∃ c', captureOp (c, ret) op = .ok (c', (Fifo.op (q, ret) op).2)
      ∧ Captures c' (Fifo.op (q, ret) op).1 := by
  cases op with
  | capture frame n ethertype =>
      obtain ⟨c', hc, h'⟩ := h.capture frame hs ethertype
      exact ⟨c', bind_eq_ok.mpr ⟨c', hc, rfl⟩, h'⟩
  | pop dst capacity =>
      obtain ⟨c', hc, h'⟩ := h.pop dst capacity
      exact ⟨c', bind_eq_ok.mpr ⟨_, hc, rfl⟩, h'⟩

/--
**The capture ring refines a bounded queue**, over any number of operations: none of them
leaves an array, the pops return what pops from the queue return, the drops are counted
modulo 2^32, and the counters are the number of accepted and of popped frames modulo 2^16.
-/
theorem capture_ring_refines (c : RxCapture) (ops : List CaptureOp)
    (h : ∀ op, op ∈ ops → FitsSlot op) :
    ∃ c' ret, ops.foldlM captureOp (c.reset, []) = .ok (c', ret)
      ∧ ret = (ops.foldl Fifo.op (Fifo.empty, [])).2
      ∧ c'.drops = (ops.foldl Fifo.op (Fifo.empty, [])).1.rejected % 2 ^ 32
      ∧ c'.write = (ops.foldl Fifo.op (Fifo.empty, [])).1.accepted.length % 2 ^ 16
      ∧ c'.read = (ops.foldl Fifo.op (Fifo.empty, [])).1.popped % 2 ^ 16 := by
  obtain ⟨s, hs, hcap, hret⟩ := listM_ok (f := captureOp)
    (fun pre t => Captures t.1 (pre.foldl Fifo.op (Fifo.empty, [])).1
      ∧ t.2 = (pre.foldl Fifo.op (Fifo.empty, [])).2) ops (s := (c.reset, []))
    ⟨captures_reset c, rfl⟩ (by
    rintro pre op post t hl ⟨hcap, hret⟩
    obtain ⟨c', hc, h'⟩ := hcap.op t.2 (h op (by rw [← hl]; simp))
    rw [List.foldl_append]
    refine ⟨_, hc, ?_, ?_⟩
    · rw [hret] at h'
      exact h'
    · rw [hret]
      rfl)
  exact ⟨s.1, s.2, hs, hret, hcap.drops, hcap.ring.head, hcap.ring.tail⟩

/-- Of seventeen frames in a row the last one is dropped, and a pop with little room returns. -/
theorem capture_ring_refines_full :
    ∃ c' ret, (List.replicate 17 (CaptureOp.capture (fun _ => 7) 60 0x88b5)
        ++ [CaptureOp.pop (fun _ => 0) 4]).foldlM captureOp
        (RxCapture.reset ⟨fun _ => ⟨0, 0, fun _ => 0⟩, 0, 0, 0⟩, []) = .ok (c', ret)
      ∧ ret.length = 1 ∧ c'.drops = 1 ∧ c'.write = 16 ∧ c'.read = 1 := by
  obtain ⟨c', ret, hrun, hret, hdrops, hwrite, hread⟩ :=
    capture_ring_refines ⟨fun _ => ⟨0, 0, fun _ => 0⟩, 0, 0, 0⟩
      (List.replicate 17 (CaptureOp.capture (fun _ => 7) 60 0x88b5) ++ [CaptureOp.pop (fun _ => 0) 4])
      (by
        intro op hop
        rcases List.mem_append.mp hop with h1 | h1
        · rw [List.eq_of_mem_replicate h1]
          exact (show 60 ≤ 1514 by decide)
        · rw [List.mem_singleton.mp h1]
          trivial)
  exact ⟨c', ret, hrun, by rw [hret]; rfl, by rw [hdrops]; rfl, by rw [hwrite]; rfl,
    by rw [hread]; rfl⟩

end

end Os1000.Proof
