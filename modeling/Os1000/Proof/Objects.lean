import Os1000.Proof.Handles

/-!
# The identity of shared memory objects

Slots, keys and pages of the object table are reused; the number of objects created
before an object, its `birth`, is not. An id is its object's birth plus one, so as long
as the counter has not wrapped, an id belongs to one object for ever. What the calls
do to the table is one of two things: `shm_get` may put a new object into a free slot,
and every other call only thins the table out and moves reference counts.
-/

namespace Os1000.Proof

open Os1000 Lib

variable {L : Layout} {k k' k'' : Kernel} {p : Nat}

/-! ## Thinning -/

/--
Every object in use was there before, the same but for its reference count, and a count that
changed is positive. The page of every other object was released, once.
-/
structure Thins (k k' : Kernel) : Prop where
  nextShmId : k'.nextShmId = k.nextShmId
  shmCreated : k'.shmCreated = k.shmCreated
  obj : ∀ s, s < shmMax → (k'.shmTable s).used = true →
    k'.shmTable s = { k.shmTable s with refcount := (k'.shmTable s).refcount }
  count : ∀ s, s < shmMax → (k'.shmTable s).used = true → 0 ≤ (k.shmTable s).refcount →
    (k'.shmTable s).refcount = (k.shmTable s).refcount ∨ 0 < (k'.shmTable s).refcount
  gone : ∃ l : List Nat, l.Nodup
    ∧ (∀ s, s ∈ l ↔ s < shmMax ∧ (k.shmTable s).used = true ∧ (k'.shmTable s).used = false)
    ∧ k'.shmReleased = k.shmReleased ++ l.map fun s => (k.shmTable s).birth

theorem Thins.used (h : Thins k k') {s : Nat} (hs : s < shmMax)
    (hu : (k'.shmTable s).used = true) : (k.shmTable s).used = true := by
  rw [h.obj s hs hu] at hu
  exact hu

theorem thins_of_eq (ht : k'.shmTable = k.shmTable) (hn : k'.nextShmId = k.nextShmId)
    (hc : k'.shmCreated = k.shmCreated) (hr : k'.shmReleased = k.shmReleased) : Thins k k' := by
  refine ⟨hn, hc, fun s _ _ => by rw [ht], fun s _ _ _ => Or.inl (by rw [ht]), [], .nil, ?_, ?_⟩
  · intro s
    rw [ht]
    refine ⟨fun h => absurd h List.not_mem_nil, ?_⟩
    rintro ⟨_, h1, h2⟩
    rw [h1] at h2
    cases h2
  · rw [hr]
    exact (List.append_nil _).symm

theorem Thins.refl (k : Kernel) : Thins k k := thins_of_eq rfl rfl rfl rfl

theorem Thins.trans (h : Thins k k') (h' : Thins k' k'') : Thins k k'' := by
  refine ⟨h'.nextShmId.trans h.nextShmId, h'.shmCreated.trans h.shmCreated, ?_, ?_, ?_⟩
  · intro s hs hu
    have e1 := h'.obj s hs hu
    have e2 := h.obj s hs (h'.used hs hu)
    rw [e1, e2]
  · intro s hs hu h0
    rcases h.count s hs (h'.used hs hu) h0 with e | hpos
    · rw [← e] at h0 ⊢
      exact h'.count s hs hu h0
    · rcases h'.count s hs hu hpos.le with e | hpos'
      · exact Or.inr (by rw [e]; exact hpos)
      · exact Or.inr hpos'
  · obtain ⟨l, hnd, hl, hrel⟩ := h.gone
    obtain ⟨l', hnd', hl', hrel'⟩ := h'.gone
    refine ⟨l ++ l', List.nodup_append.mpr ⟨hnd, hnd', ?_⟩, ?_, ?_⟩
    · rintro s hs _ hs' rfl
      have h1 := ((hl s).mp hs).2.2
      rw [((hl' s).mp hs').2.1] at h1
      cases h1
    · intro s
      rw [List.mem_append, hl, hl']
      constructor
      · rintro (⟨hs, hu, hg⟩ | ⟨hs, hu, hg⟩)
        · refine ⟨hs, hu, ?_⟩
          cases hu'' : (k''.shmTable s).used with
          | false => rfl
          | true =>
              rw [h'.used hs hu''] at hg
              cases hg
        · exact ⟨hs, h.used hs hu, hg⟩
      · rintro ⟨hs, hu, hg⟩
        cases hu' : (k'.shmTable s).used with
        | false => exact Or.inl ⟨hs, hu, rfl⟩
        | true => exact Or.inr ⟨hs, rfl, hg⟩
    · rw [hrel', hrel, List.append_assoc, List.map_append]
      congr 2
      refine List.map_congr_left fun s hs => ?_
      obtain ⟨hs', hu, _⟩ := (hl' s).mp hs
      rw [h.obj s hs' hu]

theorem Local.thins (h : Local p k k') : Thins k k' :=
  thins_of_eq h.shmTable h.nextShmId h.shmCreated h.shmReleased

theorem thins_setRefcount (k : Kernel) (s : Nat) {n : Int}
    (hn : 0 ≤ (k.shmTable s).refcount → 0 < n) :
    Thins k (k.setObj s { k.shmTable s with refcount := n }) := by
  refine ⟨rfl, rfl, ?_, ?_, [], .nil, ?_, (List.append_nil _).symm⟩
  · intro s' _ _
    by_cases hs : s' = s
    · subst hs; rw [setObj_self]
    · rw [setObj_of_ne _ _ _ hs]
  · intro s' _ _ h0
    by_cases hs : s' = s
    · subst hs; rw [setObj_self]; exact Or.inr (hn h0)
    · rw [setObj_of_ne _ _ _ hs]; exact Or.inl rfl
  · intro s'
    refine ⟨fun h => absurd h List.not_mem_nil, ?_⟩
    rintro ⟨_, h1, h2⟩
    by_cases hs : s' = s
    · subst hs; rw [setObj_self] at h2; exact absurd (h1.symm.trans h2) (by decide)
    · rw [setObj_of_ne _ _ _ hs, h1] at h2; cases h2

theorem thins_destroyed {s : Nat} (hs : s < shmMax) (hu : (k.shmTable s).used = true) (r : Ram) :
    Thins k (destroyed k s r) := by
  have hself : (destroyed k s r).shmTable s = .cleared := setObj_self ..
  have hother : ∀ s', s' ≠ s → (destroyed k s r).shmTable s' = k.shmTable s' :=
    fun s' hs' => setObj_of_ne _ _ _ hs'
  refine ⟨rfl, rfl, ?_, ?_, [s], List.nodup_singleton s, ?_, rfl⟩
  · intro s' _ hu'
    by_cases he : s' = s
    · subst he; rw [hself] at hu'; cases hu'
    · rw [hother s' he]
  · intro s' _ hu' _
    by_cases he : s' = s
    · subst he; rw [hself] at hu'; cases hu'
    · rw [hother s' he]; exact Or.inl rfl
  · intro s'
    rw [List.mem_singleton]
    constructor
    · rintro rfl
      exact ⟨hs, hu, by rw [hself]; rfl⟩
    · rintro ⟨_, h1, h2⟩
      by_contra he
      rw [hother s' he, h1] at h2
      cases h2

theorem thins_shmPut {s : Nat} (hs : s < shmMax) (hu : (k.shmTable s).used = true)
    (h : shmPut k s = .ok k') : Thins k k' := by
  rcases shmPut_ok h with ⟨hr, rfl⟩ | ⟨_, r, _, rfl⟩
  · exact thins_setRefcount k s fun _ => by omega
  · exact thins_destroyed hs hu r

theorem thins_unmapPage {vaddr : Nat} (h : unmapPage k p vaddr = .ok k') : Thins k k' := by
  rcases unmapPage_ok h with ⟨_, rfl⟩ | ⟨_, rfl⟩
  · exact Thins.refl _
  · exact thins_of_eq rfl rfl rfl rfl

theorem thins_shmDetach {vaddr : Nat} {ret : Int} (h : shmDetach k p vaddr = .ok (ret, k')) :
    Thins k k' := by
  rcases shmDetach_ok h with ⟨_, rfl, _⟩ | ⟨_, i, k1, _, hun, ⟨_, rfl⟩ | ⟨s, hf, hput⟩⟩
  · exact Thins.refl _
  · exact (thins_unmapPage hun).trans (thins_of_eq rfl rfl rfl rfl)
  · obtain ⟨hs, hu, _⟩ := findById_some hf
    have hu1 : ((k1.setMapping p i .cleared).shmTable s).used = true := by
      rw [setMapping_shmTable, (unmapPage_shmTable hun).1]
      exact hu
    have h1 : Thins k (k1.setMapping p i .cleared) :=
      (thins_unmapPage hun).trans (thins_of_eq rfl rfl rfl rfl)
    exact h1.trans (thins_shmPut hs hu1 hput)

theorem thins_shmAttach {id : Int} {ret : Nat} (h : shmAttach L k p id = .ok (ret, k')) :
    Thins k k' := by
  rcases shmAttach_ok h with ⟨_, rfl⟩ | ⟨s, slot, k1, _, _, _, hm, _, rfl⟩
  · exact Thins.refl _
  · exact (grow_mapPage hm).toLocal.thins.trans
      ((thins_setRefcount k1 s fun _ => by omega).trans (thins_of_eq rfl rfl rfl rfl))

theorem thins_shmProcessCleanup (h : shmProcessCleanup k p = .ok k') : Thins k k' :=
  shmProcessCleanup_inv (fun _ t => Thins k t) (Thins.refl k) (fun _ _ _ ht _ => ht)
    (fun _ _ _ _ _ ht _ hd => ht.trans (thins_shmDetach hd)) h

theorem thins_releaseRegions (h : releaseRegions L k p = .ok k') : Thins k k' := by
  refine loopM_inv (fun _ t => Thins k t) _ (Thins.refl k) ?_ h
  intro i t t' _ ht hb
  split at hb
  · split at hb
    · obtain ⟨r, _, hb⟩ := bind_eq_ok.mp hb
      obtain rfl := pure_eq_ok.mp hb
      exact ht.trans ((local_setRam p t r).trans (grow_setRegion L _ p i 0).toLocal).thins
    · obtain rfl := pure_eq_ok.mp hb
      exact ht
  · obtain rfl := pure_eq_ok.mp hb
    exact ht

theorem thins_releaseProcess (h : releaseProcess L k p = .ok k') : Thins k k' := by
  obtain ⟨k1, k2, f, h1, h2, _, rfl⟩ := releaseProcess_ok h
  exact ((thins_shmProcessCleanup h1).trans (thins_releaseRegions h2)).trans
    (local_setProc k2 p _).thins

/-- **What a call does to the object table.** -/
theorem thins_or_created {e : Event} (h : Step L k e k') :
    Thins k k' ∨ ∃ q key s pa idx r, e = .shmGet q key k.nextShmId ∧ 0 < key
      ∧ findByKey k key = none ∧ s < shmMax ∧ (k.shmTable s).used = false
      ∧ allocPages k.toRam 1 = .ok (pa, idx, r) ∧ k' = created k s key pa idx r := by
  cases h with
  | create hc => exact Or.inl (made_createProcess hc).toLocal.thins
  | shmGet hl hc =>
      rename_i q key ret
      rcases shmGet_ok hc with ⟨_, rfl⟩ | ⟨s, _, _, rfl⟩ | ⟨hk, hf, s, pa, idx, r, hs, hu, ha, hr, hk'⟩
      · exact Or.inl (Thins.refl _)
      · exact Or.inl (Thins.refl _)
      · exact Or.inr ⟨q, key, s, pa, idx, r, by rw [hr], hk, hf, hs, hu, ha, hk'⟩
  | shmAttach hl hc => exact Or.inl (thins_shmAttach hc)
  | shmDetach hl hc => exact Or.inl (thins_shmDetach hc)
  | exit hl hi hc =>
      obtain ⟨k1, hr, rfl⟩ := sysExit_ok hc
      exact Or.inl (((local_setProc k _ _).thins.trans (thins_releaseProcess hr)).trans
        (thins_of_eq rfl rfl rfl rfl))
  | yield hc =>
      rcases yield_ok hc with ⟨_, k1, hr, rfl⟩ | ⟨_, rfl⟩
      · exact Or.inl ((thins_releaseProcess hr).trans (thins_of_eq rfl rfl rfl rfl))
      · exact Or.inl (thins_of_eq rfl rfl rfl rfl)

/-! ## Ids -/

/-- Ids are births plus one, and neither births nor keys are shared. -/
structure Ids (k : Kernel) : Prop where
  next : k.nextShmId = k.shmCreated + 1
  id : ∀ s, s < shmMax → (k.shmTable s).used = true → (k.shmTable s).id = (k.shmTable s).birth + 1
  birth_lt : ∀ s, s < shmMax → (k.shmTable s).used = true → (k.shmTable s).birth < k.shmCreated
  birth_inj : ∀ s s', s < shmMax → s' < shmMax → (k.shmTable s).used = true →
    (k.shmTable s').used = true → (k.shmTable s).birth = (k.shmTable s').birth → s = s'
  key_pos : ∀ s, s < shmMax → (k.shmTable s).used = true → 0 < (k.shmTable s).key
  key_inj : ∀ s s', s < shmMax → s' < shmMax → (k.shmTable s).used = true →
    (k.shmTable s').used = true → (k.shmTable s).key = (k.shmTable s').key → s = s'

/-- Fewer than 2^31-1 objects have been created, so the id counter has not wrapped. -/
def FewObjects (k : Kernel) : Prop := k.shmCreated < 2 ^ 31 - 1

theorem Ids.id_inj (h : Ids k) {s s' : Nat} (hs : s < shmMax) (hs' : s' < shmMax)
    (hu : (k.shmTable s).used = true) (hu' : (k.shmTable s').used = true)
    (he : (k.shmTable s).id = (k.shmTable s').id) : s = s' := by
  refine h.birth_inj s s' hs hs' hu hu' ?_
  rw [h.id s hs hu, h.id s' hs' hu'] at he
  omega

/-- An object in use is the one its id finds. -/
theorem Ids.findById_eq (h : Ids k) {s : Nat} (hs : s < shmMax)
    (hu : (k.shmTable s).used = true) : findById k (k.shmTable s).id = some s := by
  cases hf : findById k (k.shmTable s).id with
  | none => exact absurd rfl (findById_none_iff.mp hf _ hs hu)
  | some s' =>
      obtain ⟨hs', hu', he⟩ := findById_some hf
      rw [h.id_inj hs' hs hu' hu he]

theorem Ids.thins (h : Ids k) (ht : Thins k k') : Ids k' := by
  have hobj : ∀ s, s < shmMax → (k'.shmTable s).used = true → (k.shmTable s).used = true
      ∧ (k'.shmTable s).id = (k.shmTable s).id ∧ (k'.shmTable s).birth = (k.shmTable s).birth
      ∧ (k'.shmTable s).key = (k.shmTable s).key := by
    intro s hs hu
    have e := ht.obj s hs hu
    exact ⟨ht.used hs hu, by rw [e], by rw [e], by rw [e]⟩
  refine ⟨by rw [ht.nextShmId, ht.shmCreated]; exact h.next, ?_, ?_, ?_, ?_, ?_⟩
  · intro s hs hu
    obtain ⟨g1, g2, g3, _⟩ := hobj s hs hu
    rw [g2, g3]; exact h.id s hs g1
  · intro s hs hu
    obtain ⟨g1, _, g3, _⟩ := hobj s hs hu
    rw [g3, ht.shmCreated]; exact h.birth_lt s hs g1
  · intro s s' hs hs' hu hu' he
    obtain ⟨g1, _, g3, _⟩ := hobj s hs hu
    obtain ⟨f1, _, f3, _⟩ := hobj s' hs' hu'
    rw [g3, f3] at he
    exact h.birth_inj s s' hs hs' g1 f1 he
  · intro s hs hu
    obtain ⟨g1, _, _, g4⟩ := hobj s hs hu
    rw [g4]; exact h.key_pos s hs g1
  · intro s s' hs hs' hu hu' he
    obtain ⟨g1, _, _, g4⟩ := hobj s hs hu
    obtain ⟨f1, _, _, f4⟩ := hobj s' hs' hu'
    rw [g4, f4] at he
    exact h.key_inj s s' hs hs' g1 f1 he

theorem created_self (k : Kernel) (s : Nat) (key : Int) (pa idx : Nat) (r : Ram) :
    (created k s key pa idx r).shmTable s = newObject k key pa idx := Function.update_self ..

theorem created_of_ne (k : Kernel) {s s' : Nat} (key : Int) (pa idx : Nat) (r : Ram)
    (h : s' ≠ s) : (created k s key pa idx r).shmTable s' = k.shmTable s' :=
  Function.update_of_ne h ..

/-- What tells objects apart still does when the new object has a value of its own. -/
theorem created_inj {α : Type} {s pa idx : Nat} {key : Int} {r : Ram} (f : ShmObject → α)
    (hinj : ∀ a b, a < shmMax → b < shmMax → (k.shmTable a).used = true →
      (k.shmTable b).used = true → f (k.shmTable a) = f (k.shmTable b) → a = b)
    (hnew : ∀ b, b < shmMax → (k.shmTable b).used = true →
      f (k.shmTable b) ≠ f (newObject k key pa idx)) :
    ∀ a b, a < shmMax → b < shmMax → ((created k s key pa idx r).shmTable a).used = true →
      ((created k s key pa idx r).shmTable b).used = true →
      f ((created k s key pa idx r).shmTable a) = f ((created k s key pa idx r).shmTable b) →
      a = b := by
  intro a b ha hb hua hub he
  by_cases ea : a = s <;> by_cases eb : b = s
  · rw [ea, eb]
  · subst ea
    rw [created_of_ne _ _ _ _ _ eb] at hub he
    rw [created_self] at he
    exact absurd he.symm (hnew b hb hub)
  · subst eb
    rw [created_of_ne _ _ _ _ _ ea] at hua he
    rw [created_self] at he
    exact absurd he (hnew a ha hua)
  · rw [created_of_ne _ _ _ _ _ ea] at hua he
    rw [created_of_ne _ _ _ _ _ eb] at hub he
    exact hinj a b ha hb hua hub he

theorem Ids.created (h : Ids k) {s pa idx : Nat} {key : Int} {r : Ram} (hkey : 0 < key)
    (hnone : findByKey k key = none) (hfew : FewObjects (created k s key pa idx r)) :
    Ids (created k s key pa idx r) := by
  have hnew : (Proof.created k s key pa idx r).shmCreated = k.shmCreated + 1 := rfl
  unfold FewObjects at hfew
  rw [hnew] at hfew
  refine ⟨?_, ?_, ?_, ?_, ?_, ?_⟩
  · show i32 (k.nextShmId + 1) = ((k.shmCreated + 1 : Nat) : Int) + 1
    rw [h.next]
    unfold i32
    omega
  · intro s' hs' hu
    by_cases he : s' = s
    · subst he; rw [created_self]; exact h.next
    · rw [created_of_ne _ _ _ _ _ he] at hu ⊢; exact h.id s' hs' hu
  · intro s' hs' hu
    rw [hnew]
    by_cases he : s' = s
    · subst he; rw [created_self]; exact Nat.lt_succ_self _
    · rw [created_of_ne _ _ _ _ _ he] at hu ⊢
      exact Nat.lt_succ_of_lt (h.birth_lt s' hs' hu)
  · refine created_inj ShmObject.birth h.birth_inj fun b hb hub he => ?_
    exact absurd (h.birth_lt b hb hub) (Nat.not_lt.mpr (Nat.le_of_eq he.symm))
  · intro s' hs' hu
    by_cases he : s' = s
    · subst he; rw [created_self]; exact hkey
    · rw [created_of_ne _ _ _ _ _ he] at hu ⊢; exact h.key_pos s' hs' hu
  · refine created_inj ShmObject.key h.key_inj fun b hb hub he => ?_
    exact absurd he (findByKey_none_iff.mp hnone _ hb hub)

/-- **Ids stay births plus one**, until the counter wraps. -/
theorem ids_step {e : Event} (h : Ids k) (hs : Step L k e k') (hfew : FewObjects k') : Ids k' := by
  rcases thins_or_created hs with ht | ⟨_, key, s, pa, idx, r, _, hkey, hnone, _, _, _, rfl⟩
  · exact h.thins ht
  · exact h.created hkey hnone hfew

/-- Nothing has been created yet. -/
structure NoObjects (k : Kernel) : Prop where
  next : k.nextShmId = 1
  none : k.shmCreated = 0
  released : k.shmReleased = []
  unused : ∀ s, s < shmMax → (k.shmTable s).used = false

theorem NoObjects.local (h : NoObjects k) (hl : Local p k k') : NoObjects k' :=
  ⟨hl.nextShmId.trans h.next, hl.shmCreated.trans h.none, hl.shmReleased.trans h.released,
    fun s hs => by rw [hl.shmTable]; exact h.unused s hs⟩

theorem noObjects_boot (h : Booted L k) : NoObjects k := by
  obtain ⟨m, hm⟩ := h
  obtain ⟨k2, p, k3, ⟨hno, _⟩, hc, rfl⟩ := boot_inv (fun t => NoObjects t ∧ Blank t)
    (fun f hf => ⟨⟨rfl, rfl, rfl, fun s hs => by dsimp only; rw [hf s hs]; rfl⟩,
      blank_zeroed m _ f⟩)
    (fun t _ _ _ _ ht _ _ => ⟨⟨ht.1.next, ht.1.none, ht.1.released, ht.1.unused⟩, ht.2.driven⟩)
    (fun t p _ ht => ⟨ht.1.local
      (initProcess_spec L (ht.2.appended p) (ht.2.imageRegions p)).1.toLocal,
      blank_initProcess ht.2 p⟩) hm
  have h3 := hno.local (made_createProcess hc).toLocal
  exact ⟨h3.next, h3.none, h3.released, h3.unused⟩

theorem NoObjects.ids (h : NoObjects k) : Ids k := by
  have hno : ∀ s, s < shmMax → (k.shmTable s).used = true → False := by
    intro s hs hu
    rw [h.unused s hs] at hu
    cases hu
  exact ⟨by rw [h.next, h.none]; rfl, fun s hs hu => (hno s hs hu).elim,
    fun s hs hu => (hno s hs hu).elim, fun s _ hs _ hu => (hno s hs hu).elim,
    fun s hs hu => (hno s hs hu).elim, fun s _ hs _ hu => (hno s hs hu).elim⟩

end Os1000.Proof
