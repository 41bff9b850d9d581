import Os1000.Lib.Sv32
import Os1000.Proof.Handles

/-!
# Page table words, and whose pages are written

The shifts and masks of `map_page` in terms of the page table library, and the one
fact about the allocator that page tables rest on: blocks that are held do not
overlap, so what is written to one is not seen in another.
-/

namespace Os1000.Proof

open Os1000 Lib

/-! ## Words -/

/-- Masking with a low mask sees only the low bits. -/
theorem and_low {x y c : Nat} (hy : y < 1024) (hc : c < 1024) :
    (x * 1024 + y) &&& c = y &&& c := by
  apply Nat.eq_of_testBit_eq
  intro i
  rw [Nat.testBit_and, Nat.testBit_and, Nat.mul_comm,
    show (1024 : Nat) = 2 ^ 10 by rfl, Nat.testBit_two_pow_mul_add x hy]
  by_cases hi : i < 10
  · rw [if_pos hi]
  · have hle : 2 ^ 10 ≤ 2 ^ i := Nat.pow_le_pow_right (by decide) (by omega)
    rw [Nat.testBit_lt_two_pow (Nat.lt_of_lt_of_le hc hle)]
    simp

theorem shift_or {x y : Nat} (hy : y < 1024) : x <<< 10 ||| y = x * 1024 + y := by
  rw [← Nat.shiftLeft_add_eq_or_of_lt (show y < 2 ^ 10 from hy), Nat.shiftLeft_eq]

theorem or_lt {x y : Nat} (hx : x < 1024) (hy : y < 1024) : x ||| y < 1024 :=
  Nat.or_lt_two_pow (n := 10) hx hy

theorem linkTo_eq (a : Nat) : linkTo a = linkWord a := shift_or (by decide)

theorem pte_eq {flags : Nat} (paddr : Nat) (hf : flags < 1024) :
    pte paddr flags = paddr / 4096 * 1024 + (flags ||| pageV) := by
  unfold pte
  rw [Nat.or_assoc]
  exact shift_or (or_lt hf (by decide))

theorem pte_lt {paddr flags : Nat} (hp : paddr < 2 ^ 32) (hf : flags < 1024) :
    pte paddr flags < 2 ^ 32 := by
  have := or_lt hf (show pageV < 1024 by decide)
  rw [pte_eq paddr hf]
  omega

/-- The flags of a leaf word. -/
theorem pte_and {paddr flags c : Nat} (hf : flags < 1024) (hc : c < 1024) :
    pte paddr flags &&& c = (flags ||| pageV) &&& c := by
  rw [pte_eq paddr hf]
  exact and_low (or_lt hf (by decide)) hc

/-- Whatever the flags, `map_page` makes the word valid. -/
theorem pte_valid {pa fl : Nat} (hfl : fl < 1024) : pte pa fl &&& pageV ≠ 0 := by
  rw [pte_and hfl (by decide), Nat.and_or_distrib_right, Nat.and_self]
  exact fun h0 => absurd (Nat.or_eq_zero_iff.mp h0).2 (by decide)

theorem linkWord_lt {a : Nat} (h : a < 2 ^ 32) : linkWord a < 2 ^ 32 := by
  unfold linkWord
  omega

theorem linkWord_and {a c : Nat} (hc : c < 1024) : linkWord a &&& c = 1 &&& c :=
  and_low (by decide) hc

/-- A link names the table it was made for. -/
theorem ptePage_linkWord {a : Nat} (h : a % 4096 = 0) (hlt : a < 2 ^ 32) :
    ptePage (linkWord a) = a := by
  unfold ptePage linkWord
  rw [Nat.shiftRight_eq_div_pow, u32_of_lt (by unfold pageSize; omega)]
  unfold pageSize
  omega

/-- A leaf word names the page it was made for. -/
theorem ptePage_pte {a flags : Nat} (h : a % 4096 = 0) (hlt : a < 2 ^ 32) (hf : flags < 1024) :
    ptePage (pte a flags) = a := by
  have := or_lt hf (show pageV < 1024 by decide)
  rw [pte_eq a hf]
  unfold ptePage
  rw [Nat.shiftRight_eq_div_pow, u32_of_lt (by unfold pageSize; omega)]
  unfold pageSize
  omega

theorem vpn1_eq (va : Nat) : vpn1 va = va / 4194304 % 1024 := by
  unfold vpn1
  rw [Nat.shiftRight_eq_div_pow, show (0x3ff : Nat) = 2 ^ 10 - 1 by rfl,
    Nat.and_two_pow_sub_one_eq_mod]

theorem vpn0_eq (va : Nat) : vpn0 va = va / 4096 % 1024 := by
  unfold vpn0
  rw [Nat.shiftRight_eq_div_pow, show (0x3ff : Nat) = 2 ^ 10 - 1 by rfl,
    Nat.and_two_pow_sub_one_eq_mod]

theorem vpn1_lt (va : Nat) : vpn1 va < 1024 := by rw [vpn1_eq]; omega

theorem vpn0_lt (va : Nat) : vpn0 va < 1024 := by rw [vpn0_eq]; omega

/-- The two indices are the two halves of the page number. -/
theorem vpn_eq {va : Nat} (h : va < 2 ^ 32) : vpn1 va * 1024 + vpn0 va = va / 4096 := by
  rw [vpn1_eq, vpn0_eq]
  omega

/-- **The hardware finds what the tree says.** -/
theorem walk_eq {m : Mem} {root va : Nat} {T : Nat → Option Nat} {M : Nat → Nat}
    (h : Sv32 m root T M) (hT : ∀ i a, i < 1024 → T i = some a → a % 4096 = 0 ∧ a < 2 ^ 32)
    (hva : va < 2 ^ 32) :
    walk m root va = if M (va / 4096) &&& pageV = 0 then none else some (M (va / 4096)) := by
  have hlink := h.link (vpn1 va) (vpn1_lt va)
  unfold walk
  dsimp only
  rw [hlink]
  cases ht : T (vpn1 va) with
  | none =>
      have hz := h.bare _ (vpn1_lt va) ht _ (vpn0_lt va)
      rw [vpn_eq hva] at hz
      rw [hz]
      rfl
  | some a =>
      have hl := h.leaf _ a (vpn1_lt va) ht _ (vpn0_lt va)
      obtain ⟨h1, h2⟩ := hT _ _ (vpn1_lt va) ht
      rw [vpn_eq hva] at hl
      unfold rootWord
      rw [linkWord_and (by decide), linkWord_and (by decide), ptePage_linkWord h1 h2, hl]
      rfl

/-! ## Held pages -/

/-- Entry `r` and the bytes of its block are the same in both. -/
def SamePage (k k' : Kernel) (r : Nat) : Prop :=
  k'.regions r = k.regions r ∧ ∀ x, (k.regions r).start ≤ x →
    x < (k.regions r).start + (k.regions r).size → k'.mem x = k.mem x

theorem SamePage.refl (k : Kernel) (r : Nat) : SamePage k k r := ⟨rfl, fun _ _ _ => rfl⟩

theorem SamePage.trans {k k' k'' : Kernel} {r : Nat} (h : SamePage k k' r)
    (h' : SamePage k' k'' r) : SamePage k k'' r := by
  refine ⟨h'.1.trans h.1, fun x h1 h2 => ?_⟩
  rw [h'.2 x (by rw [h.1]; exact h1) (by rw [h.1]; exact h2), h.2 x h1 h2]

/-- Two allocated blocks do not overlap. -/
theorem Partition.disjoint {L : Layout} {t : Regions} (h : Partition L t) {i j : Nat}
    (hi : i < maxRegions) (hj : j < maxRegions) (hij : i ≠ j)
    (hai : (t i).state = .allocated) (haj : (t j).state = .allocated) :
    (t i).start + (t i).size ≤ (t j).start ∨ (t j).start + (t j).size ≤ (t i).start :=
  h.tiles.apart i j ⟨hi, by rw [hai]; decide⟩ ⟨hj, by rw [haj]; decide⟩ hij

/-- **Allocation touches no block that is in use.** -/
theorem alloc_samePage {L : Layout} {k : Kernel} {n pa idx i : Nat} {r : Ram}
    (hpart : Partition L k.regions) (hreq : u32 (n * pageSize) ≠ 0)
    (ha : allocPages k.toRam n = .ok (pa, idx, r)) (hi : i < maxRegions)
    (hst : (k.regions i).state = .allocated) : SamePage k { k with toRam := r } i := by
  have hs := allocPages_spec ha
  have hkeep := hs.keeps i hst
  refine ⟨hkeep, fun x h1 h2 => ?_⟩
  have hne : i ≠ idx := by
    rintro rfl
    rw [hs.wasUnused] at hst
    cases hst
  have hpart' := partition_alloc hpart hreq (allocPages_ok.mp ha).1
  have hd := Partition.disjoint hpart' hi hs.lt hne (by rw [hkeep]; exact hst) (by rw [hs.entry])
  rw [hkeep, hs.entry] at hd
  dsimp only at hd
  show r.mem x = k.mem x
  rw [hs.mem, fill_apply, if_neg (by omega)]

/-- A write inside one block is not seen in another. -/
theorem store_samePage {L : Layout} {k : Kernel} {i j a v : Nat} (hpart : Partition L k.regions)
    (hi : i < maxRegions) (hj : j < maxRegions) (hij : i ≠ j)
    (hai : (k.regions i).state = .allocated) (haj : (k.regions j).state = .allocated)
    (h1 : (k.regions j).start ≤ a) (h2 : a + 4 ≤ (k.regions j).start + (k.regions j).size) :
    SamePage k { k with mem := store32 k.mem a v } i := by
  have hd := Partition.disjoint hpart hi hj hij hai haj
  refine ⟨rfl, fun x h3 h4 => ?_⟩
  exact store32_of_outside (by omega)

theorem writeBytes_samePage {L : Layout} {k : Kernel} {i j : Nat} {bs : List UInt8}
    (hpart : Partition L k.regions) (hi : i < maxRegions) (hj : j < maxRegions) (hij : i ≠ j)
    (hai : (k.regions i).state = .allocated) (haj : (k.regions j).state = .allocated)
    (hlen : bs.length ≤ (k.regions j).size) :
    SamePage k { k with mem := writeBytes k.mem (k.regions j).start bs } i := by
  have hd := Partition.disjoint hpart hi hj hij hai haj
  refine ⟨rfl, fun x h3 h4 => ?_⟩
  exact writeBytes_of_outside (by omega)

/-- The kernel stacks lie below free RAM. -/
theorem stackTop_le (L : Layout) {p : Nat} (hp : p < procsMax) : stackTop L p ≤ L.freeRam := by
  refine Nat.le_trans ?_ L.procs_le
  unfold stackTop
  exact Nat.add_le_add_left (Nat.mul_le_mul_right _ hp) _

theorem stack_samePage {L : Layout} {k k' : Kernel} {p i : Nat} (hp : p < procsMax)
    (hpart : Partition L k.regions) (ht : k'.regions = k.regions)
    (hm : SameOutsideStack L p k.mem k'.mem) (hi : i < maxRegions)
    (hst : (k.regions i).state = .allocated) : SamePage k k' i := by
  refine ⟨by rw [ht], fun x h1 h2 => hm x (Or.inr ?_)⟩
  have hge := hpart.ge_freeRam (i := i) ⟨hi, by rw [hst]; decide⟩
  have htop := stackTop_le L hp
  omega

end Os1000.Proof
