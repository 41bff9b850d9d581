import Os1000.Lib.Slots
import Os1000.Net.Arp
import Mathlib.Data.Finset.Card
import Mathlib.Data.Finset.Image

/-!
# The ARP cache over whole runs

The cache is a map in eight slots, from addresses to hardware addresses. An accepted
packet binds its sender's address: in the slot that holds it already, else in the
first slot that is not valid, else in slot 0, whose address is forgotten. So the cache
never holds an address twice, and what it holds is what was bound last.
-/

namespace Os1000.Proof

open Os1000 Lib

/-- The cache as a map in slots. -/
def slots (cache : ArpCache) : Slots Nat Mac := fun i =>
  if (cache i).valid then some ((cache i).ip, (cache i).mac) else none

/-- The addresses in the cache. -/
def cachedIps (cache : ArpCache) : Finset Nat :=
  ((Finset.range arpCacheSize).filter fun i => (cache i).valid).image fun i => (cache i).ip

/-- The sender of a frame `arp_receive` accepts. -/
def sender (f : Bytes × Nat) : Option (Nat × Mac) :=
  if arpAccepts f.1 f.2 then some (readIpv4 f.1 senderIpAt, readMac f.1 senderMacAt) else none

/-- The senders of the accepted frames, in order. -/
def accepted (frames : List (Bytes × Nat)) : List (Nat × Mac) := frames.filterMap sender

/-- The state of `arp.c` after these frames since `arp_init`. -/
def arpRun (frames : List (Bytes × Nat)) : Arp :=
  frames.foldl (fun a f => arpReceive a f.1 f.2) arpInit

section

variable {cache : ArpCache} {ip : Nat} {mac : Mac} {i : Nat}

theorem holding_slots : Holding (slots cache) ip i ↔ (cache i).valid ∧ (cache i).ip = ip := by
  unfold Holding slots
  cases h : (cache i).valid with
  | false => simp
  | true => simp

theorem arpLookup_eq (cache : ArpCache) (ip : Nat) :
    arpLookup cache ip = valueOf (slots cache) arpCacheSize ip := by
  unfold arpLookup valueOf slotOf
  have hp : (fun i => decide (Holding (slots cache) ip i))
      = fun i => decide ((cache i).valid ∧ (cache i).ip = ip) := by
    funext i
    exact decide_eq_decide.mpr holding_slots
  rw [hp]
  cases hf : (List.range arpCacheSize).find? fun i =>
      decide ((cache i).valid ∧ (cache i).ip = ip) with
  | none => rfl
  | some i =>
      have hi := List.find?_some hf
      rw [decide_eq_true_eq] at hi
      simp [slots, hi.1]

/-! ## The scan -/

/-- What the scan knows after the first `n` entries, if it has not stopped. -/
structure Scanned (cache : ArpCache) (ip n : Nat) (freeIndex : Option Nat) : Prop where
  absent : ∀ j, j < n → ¬ ((cache j).valid ∧ (cache j).ip = ip)
  free : ∀ i, freeIndex = some i → i < n ∧ (cache i).valid = false
  full : freeIndex = none → ∀ j, j < n → (cache j).valid = true

/-- The scan stops at an entry for `ip`, or has seen that there is none. -/
theorem scan_spec (cache : ArpCache) (ip n : Nat) :
    match (List.range n).foldlM (scanEntry cache ip) none with
    | .error i => i < n ∧ (cache i).valid ∧ (cache i).ip = ip
    | .ok freeIndex => Scanned cache ip n freeIndex := by
  induction n with
  | zero => exact ⟨by omega, nofun, by omega⟩
  | succ n ih =>
      rw [List.range_succ, List.foldlM_append]
      cases hs : (List.range n).foldlM (scanEntry cache ip) none with
      | error i =>
          rw [hs] at ih
          exact ⟨Nat.lt_succ_of_lt ih.1, ih.2⟩
      | ok freeIndex =>
          rw [hs] at ih
          show match scanEntry cache ip freeIndex n >>= pure with
            | .error i => _
            | .ok freeIndex => _
          rw [bind_pure]
          unfold scanEntry
          by_cases hm : (cache n).valid ∧ (cache n).ip = ip
          · rw [if_pos hm]
            exact ⟨Nat.lt_succ_self n, hm⟩
          · have habs : ∀ j, j < n + 1 → ¬ ((cache j).valid ∧ (cache j).ip = ip) := by
              intro j hj
              by_cases hjn : j = n
              · rw [hjn]; exact hm
              · exact ih.absent j (by omega)
            rw [if_neg hm]
            by_cases hv : ¬ (cache n).valid ∧ freeIndex = none
            · rw [if_pos hv]
              refine ⟨habs, ?_, nofun⟩
              intro i hi
              injection hi with hi
              rw [← hi]
              exact ⟨Nat.lt_succ_self n, by simpa using hv.1⟩
            · rw [if_neg hv]
              refine ⟨habs, fun i hi => ⟨Nat.lt_succ_of_lt (ih.free i hi).1, (ih.free i hi).2⟩, ?_⟩
              intro hnone j hj
              by_cases hjn : j = n
              · rw [hjn]
                by_contra hval
                exact hv ⟨hval, hnone⟩
              · exact ih.full hnone j (by omega)

/-- **One update** binds the address in a slot that may take it. -/
theorem arpCacheUpdate_spec (ho : OneEach (slots cache) arpCacheSize) (ip : Nat) (mac : Mac) :
    ∃ i, Admits (slots cache) arpCacheSize ip i
      ∧ slots (arpCacheUpdate cache ip mac) = Function.update (slots cache) i (some (ip, mac))
      ∧ (Holding (slots cache) ip i ∨ slots cache i = none
        ∨ (i = 0 ∧ arpLookup cache ip = none ∧ ∀ j, j < arpCacheSize → (cache j).valid)) := by
  have hspec := scan_spec cache ip arpCacheSize
  unfold arpCacheUpdate
  cases hs : (List.range arpCacheSize).foldlM (scanEntry cache ip) none with
  | error i =>
      rw [hs] at hspec
      obtain ⟨hi, hv, he⟩ := hspec
      have hh : Holding (slots cache) ip i := holding_slots.mpr ⟨hv, he⟩
      refine ⟨i, ⟨hi, fun j hj hk => ho ip j i hj hi hk hh⟩, ?_, Or.inl hh⟩
      funext j
      by_cases hj : j = i
      · subst hj
        simp [slots, hv, he]
      · simp [slots, Function.update_of_ne hj]
  | ok freeIndex =>
      rw [hs] at hspec
      have habs : ∀ j, j < arpCacheSize → ¬ Holding (slots cache) ip j :=
        fun j hj hk => hspec.absent j hj (holding_slots.mp hk)
      have hslots : slots (Function.update cache (freeIndex.getD 0) ⟨true, ip, mac⟩)
          = Function.update (slots cache) (freeIndex.getD 0) (some (ip, mac)) := by
        funext j
        by_cases hj : j = freeIndex.getD 0
        · subst hj
          simp [slots]
        · simp [slots, Function.update_of_ne hj]
      cases freeIndex with
      | some i =>
          obtain ⟨hi, hv⟩ := hspec.free i rfl
          refine ⟨i, ⟨hi, fun j hj hk => absurd hk (habs j hj)⟩, hslots, Or.inr (Or.inl ?_)⟩
          simp [slots, hv]
      | none =>
          have hnone : arpLookup cache ip = none := by
            rw [arpLookup_eq]
            exact valueOf_none_iff.mpr habs
          exact ⟨0, ⟨by decide, fun j hj hk => absurd hk (habs j hj)⟩, hslots,
            Or.inr (Or.inr ⟨rfl, hnone, hspec.full rfl⟩)⟩

/-- With fewer addresses than slots, some slot is not valid. -/
theorem not_all_valid (ho : OneEach (slots cache) arpCacheSize)
    (hc : (cachedIps cache).card < arpCacheSize) : ¬ ∀ j, j < arpCacheSize → (cache j).valid := by
  intro hall
  have hfilter : (Finset.range arpCacheSize).filter (fun i => (cache i).valid)
      = Finset.range arpCacheSize :=
    Finset.filter_true_of_mem fun i hi => hall i (Finset.mem_range.mp hi)
  unfold cachedIps at hc
  rw [hfilter, Finset.card_image_of_injOn, Finset.card_range] at hc
  · exact absurd hc (Nat.lt_irrefl _)
  · intro i hi j hj he
    have hi := Finset.mem_range.mp hi
    have hj := Finset.mem_range.mp hj
    exact ho _ i j hi hj (holding_slots.mpr ⟨hall i hi, rfl⟩)
      (holding_slots.mpr ⟨hall j hj, he.symm⟩)

end

/-! ## Runs -/

/-- What holds of the cache after a history of senders. -/
structure Cached (a : Arp) (h : List (Nat × Mac)) : Prop where
  oneEach : OneEach (slots a.cache) arpCacheSize
  upToDate : UpToDate (slots a.cache) arpCacheSize h
  /-- The last sender is in the cache. -/
  last : ∀ ip mac, h.getLast? = some (ip, mac) → arpLookup a.cache ip = some mac

section

variable {a : Arp} {h : List (Nat × Mac)} {frame : Bytes} {frameLen : Nat}

theorem arpReceive_cache (ha : arpAccepts frame frameLen = true) :
    (arpReceive a frame frameLen).cache
      = arpCacheUpdate a.cache (readIpv4 frame senderIpAt) (readMac frame senderMacAt) := by
  unfold arpReceive
  rw [if_pos ha]
  dsimp only
  split <;> rfl

/-- The mailbox does not matter to the cache. -/
theorem arpReceive_cache_congr {a' : Arp} (he : a.cache = a'.cache) (frame : Bytes) (frameLen : Nat) :
    (arpReceive a frame frameLen).cache = (arpReceive a' frame frameLen).cache := by
  by_cases ha : arpAccepts frame frameLen = true
  · rw [arpReceive_cache ha, arpReceive_cache ha, he]
  · unfold arpReceive
    rw [if_neg ha, if_neg ha]
    exact he

theorem cached_init : Cached arpInit [] := by
  have hnone : ∀ ip, valueOf (slots arpInit.cache) arpCacheSize ip = none := by
    intro ip
    rw [← arpLookup_eq]
    simp [arpLookup, arpInit]
  refine ⟨?_, ?_, nofun⟩
  · intro k i j _ _ hi _
    exact absurd (holding_slots.mp hi).1 (by simp [arpInit])
  · intro ip mac hv
    rw [hnone] at hv
    cases hv

/-- **One packet** keeps the cache in order. -/
theorem cached_step (hc : Cached a h) (f : Bytes × Nat) :
    Cached (arpReceive a f.1 f.2) (h ++ (sender f).toList) := by
  unfold sender
  by_cases ha : arpAccepts f.1 f.2 = true
  · obtain ⟨i, hi, hs, _⟩ := arpCacheUpdate_spec hc.oneEach (readIpv4 f.1 senderIpAt)
      (readMac f.1 senderMacAt)
    rw [if_pos ha, Option.toList_some]
    rw [← arpReceive_cache ha] at hs
    refine ⟨?_, ?_, ?_⟩
    · rw [hs]; exact hc.oneEach.put hi
    · rw [hs]; exact hc.upToDate.put hc.oneEach hi
    · intro ip mac he
      rw [List.getLast?_append] at he
      simp only [List.getLast?_singleton, Option.some_or, Option.some.injEq, Prod.mk.injEq] at he
      rw [arpLookup_eq, hs, ← he.1, ← he.2]
      exact hc.oneEach.valueOf_put hi
  · rw [if_neg ha, Option.toList_none, List.append_nil]
    have hsame : arpReceive a f.1 f.2 = a := by
      unfold arpReceive
      rw [if_neg ha]
    rw [hsame]
    exact hc

/-- **After any frames** the cache is in order. -/
theorem cached_run (frames : List (Bytes × Nat)) : Cached (arpRun frames) (accepted frames) := by
  induction frames using List.reverseRecOn with
  | nil => exact cached_init
  | append_singleton frames f ih =>
      have h1 : arpRun (frames ++ [f]) = arpReceive (arpRun frames) f.1 f.2 := by
        unfold arpRun
        rw [List.foldl_append]
        rfl
      have h2 : accepted (frames ++ [f]) = accepted frames ++ (sender f).toList := by
        unfold accepted
        rw [List.filterMap_append]
        cases hs : sender f with
        | none => simp [hs]
        | some b => simp [hs]
      rw [h1, h2]
      exact cached_step ih f

/-- What one packet does to the other addresses. -/
theorem lookup_others (hc : Cached a h) (ha : arpAccepts frame frameLen = true) :
    ∃ i, (∀ x, x ≠ readIpv4 frame senderIpAt → arpLookup (arpReceive a frame frameLen).cache x
        = if Holding (slots a.cache) x i then none else arpLookup a.cache x)
      ∧ ((cachedIps a.cache).card < arpCacheSize
          ∨ arpLookup a.cache (readIpv4 frame senderIpAt) ≠ none →
        ∀ x, x ≠ readIpv4 frame senderIpAt → ¬ Holding (slots a.cache) x i) := by
  obtain ⟨i, hi, hs, hwhy⟩ := arpCacheUpdate_spec hc.oneEach (readIpv4 frame senderIpAt)
    (readMac frame senderMacAt)
  rw [← arpReceive_cache ha] at hs
  refine ⟨i, ?_, ?_⟩
  · intro x hx
    rw [arpLookup_eq, arpLookup_eq, hs]
    exact hc.oneEach.valueOf_put_other hi hx
  · intro hroom x hx hold
    rcases hwhy with hip | hnone | ⟨_, habs, hfull⟩
    · exact hx ((holding_slots.mp hold).2.symm.trans (holding_slots.mp hip).2)
    · unfold Holding at hold
      rw [hnone] at hold
      cases hold
    · rcases hroom with hlt | hne
      · exact not_all_valid hc.oneEach hlt hfull
      · exact hne habs

/--
Accepted, the packet leaves `mac` as what is found for `ip`: it is from there, or it is from another
address and does not get the slot of `ip`. It does if it has none, all are taken, and `ip` is in slot 0.
-/
def Keeps (cache : ArpCache) (mac : Mac) (ip : Nat) (frame : Bytes) : Prop :=
  if readIpv4 frame senderIpAt = ip then readMac frame senderMacAt = mac
  else ¬ (arpLookup cache (readIpv4 frame senderIpAt) = none
    ∧ (∀ j, j < arpCacheSize → (cache j).valid) ∧ (cache 0).ip = ip)

/-- **What one packet does to a binding.** -/
theorem lookup_kept_iff {ip : Nat} {mac : Mac} (hc : Cached a h)
    (ha : arpAccepts frame frameLen = true) (hl : arpLookup a.cache ip = some mac) :
    arpLookup (arpReceive a frame frameLen).cache ip = some mac ↔ Keeps a.cache mac ip frame := by
  obtain ⟨i, hi, hs, hwhy⟩ := arpCacheUpdate_spec hc.oneEach (readIpv4 frame senderIpAt)
    (readMac frame senderMacAt)
  rw [← arpReceive_cache ha] at hs
  unfold Keeps
  by_cases hip : readIpv4 frame senderIpAt = ip
  · rw [if_pos hip, arpLookup_eq, hs, ← hip, hc.oneEach.valueOf_put hi, Option.some.injEq]
  · -- it is lost when its slot is the one that the sender gets
    have hlost : Holding (slots a.cache) ip i ↔ arpLookup a.cache (readIpv4 frame senderIpAt) = none
        ∧ (∀ j, j < arpCacheSize → (a.cache j).valid) ∧ (a.cache 0).ip = ip := by
      constructor
      · intro hold
        rcases hwhy with hown | hfree | ⟨rfl, habs, hfull⟩
        · exact absurd ((holding_slots.mp hown).2.symm.trans (holding_slots.mp hold).2) hip
        · unfold Holding at hold
          rw [hfree] at hold
          cases hold
        · exact ⟨habs, hfull, (holding_slots.mp hold).2⟩
      · rintro ⟨habs, hfull, h0⟩
        rcases hwhy with hown | hfree | ⟨rfl, _⟩
        · rw [arpLookup_eq] at habs
          exact absurd hown (valueOf_none_iff.mp habs i hi.1)
        · simp [slots, hfull i hi.1] at hfree
        · exact holding_slots.mpr ⟨hfull 0 hi.1, h0⟩
    rw [if_neg hip, ← hlost, arpLookup_eq, hs, hc.oneEach.valueOf_put_other hi (Ne.symm hip),
      ← arpLookup_eq, hl]
    by_cases hold : Holding (slots a.cache) ip i <;> simp [hold]

end

/--
**The ARP cache.** After any frames since `arp_init`: no two valid entries have the same address; an
address that is found has the hardware address of the last accepted packet sent from it; the sender
of the last accepted packet is found; and the next accepted packet changes the result for at most one
address other than its sender's, and for none while fewer than eight addresses are cached or if the
sender's was.
-/
theorem arp_cache_semantics (frames : List (Bytes × Nat)) :
    (∀ i j, i < arpCacheSize → j < arpCacheSize → ((arpRun frames).cache i).valid →
      ((arpRun frames).cache j).valid →
      ((arpRun frames).cache i).ip = ((arpRun frames).cache j).ip → i = j)
    ∧ (∀ ip mac, arpLookup (arpRun frames).cache ip = some mac →
      latest (accepted frames) ip = some mac)
    ∧ (∀ ip mac, (accepted frames).getLast? = some (ip, mac) →
      arpLookup (arpRun frames).cache ip = some mac)
    ∧ ∀ frame frameLen, arpAccepts frame frameLen = true →
      (∀ x y, x ≠ readIpv4 frame senderIpAt → y ≠ readIpv4 frame senderIpAt →
        arpLookup (arpReceive (arpRun frames) frame frameLen).cache x
          ≠ arpLookup (arpRun frames).cache x →
        arpLookup (arpReceive (arpRun frames) frame frameLen).cache y
          ≠ arpLookup (arpRun frames).cache y → x = y)
      ∧ ((cachedIps (arpRun frames).cache).card < arpCacheSize
          ∨ arpLookup (arpRun frames).cache (readIpv4 frame senderIpAt) ≠ none →
        ∀ x, x ≠ readIpv4 frame senderIpAt →
          arpLookup (arpReceive (arpRun frames) frame frameLen).cache x
            = arpLookup (arpRun frames).cache x) := by
  have hc := cached_run frames
  refine ⟨?_, ?_, hc.last, ?_⟩
  · intro i j hi hj hvi hvj he
    exact hc.oneEach _ i j hi hj (holding_slots.mpr ⟨hvi, rfl⟩) (holding_slots.mpr ⟨hvj, he.symm⟩)
  · intro ip mac hl
    rw [arpLookup_eq] at hl
    exact hc.upToDate ip mac hl
  · intro frame frameLen ha
    obtain ⟨i, hother, hnone⟩ := lookup_others hc ha
    refine ⟨?_, ?_⟩
    · intro x y hx hy hcx hcy
      -- both were in the slot that was taken
      have key : ∀ z, z ≠ readIpv4 frame senderIpAt →
          arpLookup (arpReceive (arpRun frames) frame frameLen).cache z
            ≠ arpLookup (arpRun frames).cache z → Holding (slots (arpRun frames).cache) z i := by
        intro z hz hcz
        by_contra hold
        rw [hother z hz, if_neg hold] at hcz
        exact hcz rfl
      exact (holding_slots.mp (key x hx hcx)).2.symm.trans (holding_slots.mp (key y hy hcy)).2
    · intro hroom x hx
      rw [hother x hx, if_neg (hnone hroom x hx)]

end Os1000.Proof
