import Mathlib.Data.Finset.Prod
import Os1000.Proof.Objects

/-!
# Reference counts

The count of an object is the number of mappings, over all slots of all processes,
that name it. Attaching fills an empty slot, detaching empties one, and the object goes
when the last slot that named it is empty; so a mapping in use always names an object
that is there.
-/

namespace Os1000.Proof

open Os1000 Lib

variable {L : Layout} {X : Nat → Prop} {k k' : Kernel} {p : Nat}

/-- Slot `i` of process `p` is in use and names `id`. -/
def Names (k : Kernel) (id : Int) (p i : Nat) : Prop :=
  ((k.procs p).shmMappings i).used ≠ 0 ∧ ((k.procs p).shmMappings i).shmId = id

instance (k : Kernel) (id : Int) (p i : Nat) : Decidable (Names k id p i) :=
  inferInstanceAs (Decidable (_ ∧ _))

/-- All slots of all processes that name `id`. -/
def namers (k : Kernel) (id : Int) : Finset (Nat × Nat) :=
  (Finset.range procsMax ×ˢ Finset.range procShmMax).filter fun x => Names k id x.1 x.2

/-- Counts are right, and mappings in use name objects in use. -/
structure Counted (k : Kernel) : Prop where
  named : ∀ p, p < procsMax → ∀ i, i < procShmMax → ((k.procs p).shmMappings i).used ≠ 0 →
    ∃ s, s < shmMax ∧ (k.shmTable s).used = true
      ∧ (k.shmTable s).id = ((k.procs p).shmMappings i).shmId
  count : ∀ s, s < shmMax → (k.shmTable s).used = true →
    (k.shmTable s).refcount = (namers k (k.shmTable s).id).card

theorem mem_namers {id : Int} {x : Nat × Nat} :
    x ∈ namers k id ↔ (x.1 < procsMax ∧ x.2 < procShmMax) ∧ Names k id x.1 x.2 := by
  unfold namers
  rw [Finset.mem_filter, Finset.mem_product, Finset.mem_range, Finset.mem_range]

theorem namers_congr {id : Int}
    (h : ∀ p i, p < procsMax → i < procShmMax → (Names k' id p i ↔ Names k id p i)) :
    namers k' id = namers k id := by
  ext x
  rw [mem_namers, mem_namers]
  exact and_congr_right fun hx => h x.1 x.2 hx.1 hx.2

theorem names_of_eq {id : Int} {i : Nat}
    (h : (k'.procs p).shmMappings i = (k.procs p).shmMappings i) :
    Names k' id p i ↔ Names k id p i := by
  unfold Names
  rw [h]

/-- Counting survives when objects and mappings look the same. -/
theorem Counted.same (h : Counted k) (ht : k'.shmTable = k.shmTable)
    (hm : ∀ p i, p < procsMax → i < procShmMax →
      (k'.procs p).shmMappings i = (k.procs p).shmMappings i
        ∨ (((k'.procs p).shmMappings i).used = 0 ∧ ((k.procs p).shmMappings i).used = 0)) :
    Counted k' := by
  have hn : ∀ id, namers k' id = namers k id := by
    intro id
    refine namers_congr fun p i hp hi => ?_
    rcases hm p i hp hi with e | ⟨e1, e2⟩
    · exact names_of_eq e
    · exact ⟨fun hh => absurd e1 hh.1, fun hh => absurd e2 hh.1⟩
  refine ⟨?_, ?_⟩
  · intro p hp i hi hu
    rcases hm p i hp hi with e | ⟨e1, _⟩
    · rw [ht, e]
      rw [e] at hu
      exact h.named p hp i hi hu
    · exact absurd e1 hu
  · intro s hs hu
    rw [ht] at hu ⊢
    rw [hn]
    exact h.count s hs hu

/-! ## One slot changes -/

/-- Process `p` is the only one whose mappings differ, and only in slot `i`. -/
def OnlySlot (k k' : Kernel) (p i : Nat) : Prop :=
  ∀ q j, (q, j) ≠ (p, i) → (k'.procs q).shmMappings j = (k.procs q).shmMappings j

theorem onlySlot_setMapping {k1 : Kernel} {i : Nat} {m : ShmMapping}
    (h : ∀ q, (k1.procs q).shmMappings = (k.procs q).shmMappings) :
    OnlySlot k (k1.setMapping p i m) p i := by
  intro q j hne
  by_cases hq : q = p
  · subst hq
    have hj : j ≠ i := fun e => hne (e ▸ rfl)
    rw [setMapping_self]
    dsimp only
    rw [Function.update_of_ne hj, h]
  · rw [setMapping_of_ne _ _ _ _ hq, h]

/-- A slot that starts to name `id`. -/
theorem namers_fill {i : Nat} {id : Int} (hp : p < procsMax) (hi : i < procShmMax)
    (ho : OnlySlot k k' p i) (hnew : Names k' id p i) :
    namers k' id = insert (p, i) (namers k id) := by
  ext ⟨q, j⟩
  rw [mem_namers, Finset.mem_insert, mem_namers]
  by_cases he : (q, j) = (p, i)
  · obtain ⟨rfl, rfl⟩ := Prod.mk.inj he
    exact ⟨fun _ => Or.inl rfl, fun _ => ⟨⟨hp, hi⟩, hnew⟩⟩
  · rw [names_of_eq (k := k) (ho q j he)]
    exact ⟨Or.inr, fun hh => hh.resolve_left he⟩

/-- A slot that no longer names `id`. -/
theorem namers_empty {i : Nat} {id : Int} (ho : OnlySlot k k' p i) (hnew : ¬ Names k' id p i) :
    namers k' id = (namers k id).erase (p, i) := by
  ext ⟨q, j⟩
  rw [mem_namers, Finset.mem_erase, mem_namers]
  by_cases he : (q, j) = (p, i)
  · obtain ⟨rfl, rfl⟩ := Prod.mk.inj he
    exact ⟨fun hh => absurd hh.2 hnew, fun hh => absurd rfl hh.1⟩
  · rw [names_of_eq (k := k) (ho q j he)]
    exact ⟨fun hh => ⟨he, hh⟩, fun hh => hh.2⟩

/-- A slot that named something else before and after. -/
theorem namers_other {i : Nat} {id : Int} (ho : OnlySlot k k' p i) (hold : ¬ Names k id p i)
    (hnew : ¬ Names k' id p i) : namers k' id = namers k id := by
  rw [namers_empty ho hnew, Finset.erase_eq_of_notMem]
  rw [mem_namers]
  exact fun hh => hold hh.2

theorem Counted.attached (h : Counted k) (hid : Ids k) {s slot : Nat} {id : Int}
    (hp : p < procsMax) (hf : findById k id = some s) (hslot : slot < procShmMax)
    (hfree : ((k.procs p).shmMappings slot).used = 0) {k1 : Kernel}
    (ht : k1.shmTable = k.shmTable)
    (hm : ∀ q, (k1.procs q).shmMappings = (k.procs q).shmMappings) :
    Counted (attached k1 p slot s id) := by
  obtain ⟨hs, hu, he⟩ := findById_some hf
  obtain ⟨k', hk'⟩ : ∃ k', k' = Proof.attached k1 p slot s id := ⟨_, rfl⟩
  have hmap : (k'.procs p).shmMappings slot = ⟨1, id, slotAddr slot⟩ := by
    rw [hk']
    unfold Proof.attached
    rw [setObj_procs, setMapping_self]
    exact Function.update_self ..
  have honly : OnlySlot k k' p slot := by
    rw [hk']
    exact onlySlot_setMapping hm
  have hself : k'.shmTable s = { k.shmTable s with refcount := (k.shmTable s).refcount + 1 } := by
    rw [hk']
    unfold Proof.attached
    rw [setObj_self, ht]
  have hother : ∀ s', s' ≠ s → k'.shmTable s' = k.shmTable s' := by
    intro s' hs'
    rw [hk']
    unfold Proof.attached
    rw [setObj_of_ne _ _ _ hs', setMapping_shmTable, ht]
  have hnew : Names k' id p slot := by
    unfold Names
    rw [hmap]
    exact ⟨one_ne_zero, rfl⟩
  rw [← hk']
  refine ⟨?_, ?_⟩
  · intro q hq i hi hused
    -- the object an old mapping names is still there, whichever it is
    have hback : ∀ s', (k.shmTable s').used = true →
        (k'.shmTable s').used = true ∧ (k'.shmTable s').id = (k.shmTable s').id := by
      intro s' hu'
      by_cases hss : s' = s
      · rw [hss, hself]; exact ⟨hu, rfl⟩
      · rw [hother s' hss]; exact ⟨hu', rfl⟩
    by_cases hqi : (q, i) = (p, slot)
    · obtain ⟨rfl, rfl⟩ := Prod.mk.inj hqi
      rw [hmap]
      exact ⟨s, hs, (hback s hu).1, (hback s hu).2.trans he⟩
    · rw [honly q i hqi] at hused ⊢
      obtain ⟨s', hs', hu', he'⟩ := h.named q hq i hi hused
      exact ⟨s', hs', (hback s' hu').1, (hback s' hu').2.trans he'⟩
  · intro s' hs' hu'
    by_cases hss : s' = s
    · subst hss
      rw [hself]
      show (k.shmTable s').refcount + 1 = ((namers k' (k.shmTable s').id).card : Int)
      rw [he, namers_fill hp hslot honly hnew, Finset.card_insert_of_notMem, h.count s' hs' hu, he]
      · rfl
      · rw [mem_namers]
        exact fun hh => hh.2.1 hfree
    · rw [hother s' hss] at hu' ⊢
      have hne : id ≠ (k.shmTable s').id := by
        intro e
        rw [← he] at e
        exact hss (hid.id_inj hs' hs hu' hu e.symm)
      rw [h.count s' hs' hu', namers_other honly (fun hh => hh.1 hfree)]
      intro hh
      rw [Names, hmap] at hh
      exact hne hh.2

/-- Slot `i` of process `p` is emptied and its object put back. -/
theorem Counted.detached (h : Counted k) (hid : Ids k) {i s : Nat} (hp : p < procsMax)
    (hi : i < procShmMax) (hused : ((k.procs p).shmMappings i).used ≠ 0)
    (hf : findById k ((k.procs p).shmMappings i).shmId = some s) {k1 : Kernel}
    (ht : k1.shmTable = k.shmTable) (hm : k1.procs = k.procs)
    (hput : shmPut (k1.setMapping p i .cleared) s = .ok k') : Counted k' := by
  obtain ⟨hs, hu, he⟩ := findById_some hf
  obtain ⟨id, hidef⟩ : ∃ id, id = ((k.procs p).shmMappings i).shmId := ⟨_, rfl⟩
  rw [← hidef] at he
  have honly1 : OnlySlot k (k1.setMapping p i .cleared) p i :=
    onlySlot_setMapping fun q => by rw [hm]
  have hcl1 : ((k1.setMapping p i .cleared).procs p).shmMappings i = .cleared := by
    rw [setMapping_self]; exact Function.update_self ..
  have ht1 : (k1.setMapping p i .cleared).shmTable = k.shmTable := ht
  -- what `shm_put` does to the table, and that it leaves the mappings alone
  have hcount := h.count s hs hu
  rw [he] at hcount
  have hmem : (p, i) ∈ namers k id := mem_namers.mpr ⟨⟨hp, hi⟩, hused, hidef.symm⟩
  obtain ⟨hprocs, hother, hcase⟩ : k'.procs = (k1.setMapping p i .cleared).procs
      ∧ (∀ s', s' ≠ s → k'.shmTable s' = k.shmTable s')
      ∧ ((1 < (k.shmTable s).refcount ∧ k'.shmTable s
            = { k.shmTable s with refcount := (k.shmTable s).refcount - 1 })
        ∨ ((k.shmTable s).refcount ≤ 1 ∧ k'.shmTable s = .cleared)) := by
    rcases shmPut_ok hput with ⟨hr, rfl⟩ | ⟨hr, r, _, rfl⟩
    · rw [ht1] at hr
      refine ⟨rfl, ?_, Or.inl ⟨hr, by rw [setObj_self, ht1]⟩⟩
      intro s' hs'
      rw [setObj_of_ne _ _ _ hs', ht1]
    · rw [ht1] at hr
      refine ⟨rfl, ?_, Or.inr ⟨hr, setObj_self ..⟩⟩
      intro s' hs'
      unfold destroyed
      rw [setObj_of_ne _ _ _ hs']
      exact congrFun ht1 s'
  have honly : OnlySlot k k' p i := by
    intro q j hne
    rw [hprocs]; exact honly1 q j hne
  have hcl : (k'.procs p).shmMappings i = .cleared := by rw [hprocs]; exact hcl1
  have hnot : ∀ id', ¬ Names k' id' p i := by
    intro id' hh
    rw [Names, hcl] at hh
    exact hh.1 rfl
  have hcard : (namers k' id).card + 1 = (namers k id).card := by
    rw [namers_empty honly (hnot id), Finset.card_erase_of_mem hmem]
    have := Finset.card_pos.mpr ⟨_, hmem⟩
    omega
  have hne : ∀ s', s' < shmMax → s' ≠ s → (k.shmTable s').used = true →
      id ≠ (k.shmTable s').id := by
    intro s' hs' hss hu' e
    rw [← he] at e
    exact hss (hid.id_inj hs' hs hu' hu e.symm)
  refine ⟨?_, ?_⟩
  · intro q hq j hj hused'
    have hqj : (q, j) ≠ (p, i) := by
      intro e
      obtain ⟨rfl, rfl⟩ := Prod.mk.inj e
      rw [hcl] at hused'
      exact hused' rfl
    rw [honly q j hqj] at hused' ⊢
    obtain ⟨s', hs', hu', he'⟩ := h.named q hq j hj hused'
    by_cases hss : s' = s
    · subst hss
      rcases hcase with ⟨_, hself⟩ | ⟨hr, _⟩
      · refine ⟨s', hs', ?_⟩
        rw [hself]
        exact ⟨hu, he'⟩
      · -- the last mapping went, but this one names the object too
        exfalso
        have hin : (q, j) ∈ namers k' id := by
          rw [namers_empty honly (hnot id), Finset.mem_erase]
          exact ⟨hqj, mem_namers.mpr ⟨⟨hq, hj⟩, hused', by rw [← he', he]⟩⟩
        have := Finset.card_pos.mpr ⟨_, hin⟩
        omega
    · exact ⟨s', hs', by rw [hother s' hss]; exact ⟨hu', he'⟩⟩
  · intro s' hs' hu'
    by_cases hss : s' = s
    · subst hss
      rcases hcase with ⟨_, hself⟩ | ⟨_, hself⟩
      · rw [hself]
        show (k.shmTable s').refcount - 1 = ((namers k' (k.shmTable s').id).card : Int)
        rw [he]
        omega
      · rw [hself] at hu'; cases hu'
    · rw [hother s' hss] at hu' ⊢
      rw [h.count s' hs' hu', namers_other honly ?_ (hnot _)]
      intro hh
      exact hne s' hs' hss hu' (hidef.trans hh.2)

/-! ## Calls -/

theorem counted_shmDetach {vaddr : Nat} {ret : Int} (h : Counted k) (hid : Ids k)
    (hp : p < procsMax) (hd : shmDetach k p vaddr = .ok (ret, k')) : Counted k' := by
  rcases shmDetach_ok hd with ⟨_, rfl, _⟩ | ⟨_, i, k1, ⟨hi, hu, _⟩, hun, ⟨hnone, _⟩ | ⟨s, hf, hput⟩⟩
  · exact h
  · obtain ⟨s, hs, hu', he⟩ := h.named p hp i hi hu
    exact absurd he (findById_none_iff.mp hnone _ hs hu')
  · obtain ⟨e1, e2, _⟩ := unmapPage_shmTable hun
    exact h.detached hid hp hi hu hf e1 e2 hput

theorem slotAddr_inj {i j : Nat} (h : slotAddr i = slotAddr j) : i = j := by
  unfold slotAddr shmPageSize pageSize at h
  omega

/-- Detaching empties the slot that lies at the address, and no other. -/
theorem shmDetach_mappings {i : Nat} {ret : Int} (ho : Own L X k) (hp : p < procsMax)
    (hi : i < procShmMax) (hu : ((k.procs p).shmMappings i).used ≠ 0)
    (hd : shmDetach k p ((k.procs p).shmMappings i).vaddr = .ok (ret, k')) :
    (k'.procs p).shmMappings = Function.update (k.procs p).shmMappings i .cleared := by
  have key : ∀ (j : Nat) (k1 : Kernel), Mapped k p j ((k.procs p).shmMappings i).vaddr → k1.procs = k.procs →
      ((k1.setMapping p j .cleared).procs p).shmMappings
        = Function.update (k.procs p).shmMappings i .cleared := by
    rintro j k1 ⟨hj, huj, hv⟩ hk1
    rw [ho.window p hp j hj huj, ho.window p hp i hi hu] at hv
    obtain rfl := slotAddr_inj hv
    rw [setMapping_self, hk1]
  rcases shmDetach_ok hd with ⟨_, _, hno⟩ | ⟨_, j, k1, hj, hun, ⟨_, rfl⟩ | ⟨s, _, hput⟩⟩
  · exact absurd ⟨hi, hu, rfl⟩ (hno i)
  · exact key j k1 hj (unmapPage_shmTable hun).2.1
  · rw [← key j k1 hj (unmapPage_shmTable hun).2.1]
    rcases shmPut_ok hput with ⟨_, rfl⟩ | ⟨_, r, _, rfl⟩
    · rfl
    · rfl

/-- **Cleaning up leaves nothing attached.** -/
theorem counted_shmProcessCleanup (h : Counted k) (hid : Ids k) (ho : Own L X k)
    (hp : p < procsMax) (hc : shmProcessCleanup k p = .ok k') :
    Counted k' ∧ ∀ i, i < procShmMax → ((k'.procs p).shmMappings i).used = 0 := by
  have := shmProcessCleanup_inv (p := p) (fun n t => Counted t ∧ Ids t ∧ Own L X t
    ∧ ∀ i, i < n → ((t.procs p).shmMappings i).used = 0) ⟨h, hid, ho, by omega⟩ ?_ ?_ hc
  · exact ⟨this.1, this.2.2.2⟩
  · rintro n t _ ⟨h1, h2, h3, h4⟩ hz
    refine ⟨h1, h2, h3, fun i hi => ?_⟩
    by_cases he : i = n
    · rw [he]; exact hz
    · exact h4 i (by omega)
  · rintro n t t' ret hn ⟨h1, h2, h3, h4⟩ hu hd
    refine ⟨counted_shmDetach h1 h2 hp hd, h2.thins (thins_shmDetach hd),
      own_shmDetach hp h3 hd, fun i hi => ?_⟩
    rw [shmDetach_mappings h3 hp hn hu hd]
    by_cases he : i = n
    · rw [he, Function.update_self]; rfl
    · rw [Function.update_of_ne he]; exact h4 i (by omega)

theorem counted_releaseProcess (h : Counted k) (hid : Ids k) (ho : Own L X k)
    (hp : p < procsMax) (hr : releaseProcess L k p = .ok k') : Counted k' := by
  obtain ⟨k1, k2, f, h1, h2, hf, rfl⟩ := releaseProcess_ok hr
  obtain ⟨hc, hzero⟩ := counted_shmProcessCleanup h hid ho hp h1
  obtain ⟨k2', h2', hl, _, hm⟩ := releaseRegions_spec hp (own_shmProcessCleanup hp ho h1)
  obtain rfl : k2 = k2' := by rw [h2] at h2'; injection h2'
  refine hc.same hl.shmTable ?_
  intro q i hq hi
  by_cases he : q = p
  · subst he
    rw [setProc_self]
    dsimp only
    rw [hf i hi]
    exact Or.inr ⟨rfl, hzero i hi⟩
  · rw [setProc_of_ne _ _ _ he, hl.procs q he]
    exact Or.inl rfl

theorem counted_shmGet {key ret : Int} (h : Counted k) (hid : Ids k)
    (hg : shmGet k key = .ok (ret, k')) : Counted k' := by
  rcases shmGet_ok hg with ⟨_, rfl⟩ | ⟨_, _, _, rfl⟩ | ⟨_, _, s, pa, idx, r, hs, hu, _, _, rfl⟩
  · exact h
  · exact h
  · have hfree : ∀ s', (k.shmTable s').used = true → s' ≠ s := by
      rintro s' hu' rfl
      rw [hu] at hu'
      cases hu'
    refine ⟨?_, ?_⟩
    · intro q hq i hi hused
      obtain ⟨s', hs', hu', he⟩ := h.named q hq i hi hused
      refine ⟨s', hs', ?_⟩
      rw [created_of_ne _ _ _ _ _ (hfree s' hu')]
      exact ⟨hu', he⟩
    · intro s' hs' hu'
      have hnam : ∀ id, namers (created k s key pa idx r) id = namers k id :=
        fun id => namers_congr fun _ _ _ _ => Iff.rfl
      by_cases he : s' = s
      · subst he
        rw [created_self, hnam]
        -- nobody can name an id that has not been given out yet
        show (0 : Int) = ((namers k k.nextShmId).card : Int)
        rw [Finset.card_eq_zero.mpr]
        · rfl
        · refine Finset.eq_empty_of_forall_notMem fun x hx => ?_
          obtain ⟨⟨h1, h2⟩, h3, h4⟩ := mem_namers.mp hx
          obtain ⟨s'', hs'', hu'', he''⟩ := h.named _ h1 _ h2 h3
          have h5 := hid.id s'' hs'' hu''
          have h6 := hid.birth_lt s'' hs'' hu''
          have h7 := hid.next
          rw [he'', h4] at h5
          omega
      · rw [created_of_ne _ _ _ _ _ he] at hu' ⊢
        rw [hnam]
        exact h.count s' hs' hu'

theorem counted_shmAttach {id : Int} {ret : Nat} (h : Counted k) (hid : Ids k)
    (ho : Own L X k) (hp : p < procsMax) (hat : shmAttach L k p id = .ok (ret, k'))
    (hlen : (k'.procs p).appended.length ≤ procRegionMax + 1) : Counted k' := by
  rcases shmAttach_ok hat with ⟨_, rfl⟩ | ⟨s, slot, k1, hf, hslot, hfree, hm, _, rfl⟩
  · exact h
  · unfold attached at hlen
    rw [setObj_procs, setMapping_self] at hlen
    have hmap := (ownIf_mapPage hp (fun _ => ⟨ho, rfl⟩) hm hlen).2
    have hg := grow_mapPage hm
    refine h.attached hid hp hf hslot hfree hg.shmTable ?_
    intro q
    by_cases hq : q = p
    · rw [hq]; exact hmap
    · rw [hg.procs q hq]

/-- **Counts stay right**, if the records still have room. -/
theorem counted_step {e : Event} (hset : Settled k) (ho : Own L X k) (hid : Ids k)
    (h : Counted k) (hs : Step L k e k') (hroom : Roomy k') : Counted k' := by
  cases hs with
  | @create _ image p hc =>
      have hmade := made_createProcess hc
      obtain ⟨_, hm⟩ := own_createProcess ho (fun q hq hu => (hset.blank q hq hu).1) hc
        (hroom p hmade.lt)
      refine h.same hmade.shmTable ?_
      intro q i hq hi
      by_cases he : q = p
      · subst he
        rw [hm i hi, (hset.blank q hq hmade.wasUnused).2 i hi]
        exact Or.inl rfl
      · rw [hmade.procs q he]
        exact Or.inl rfl
  | shmGet hl hc => exact counted_shmGet h hid hc
  | shmAttach hl hc => exact counted_shmAttach h hid ho hl.1 hc (hroom _ hl.1)
  | shmDetach hl hc => exact counted_shmDetach h hid hl.1 hc
  | exit hl hi hc =>
      obtain ⟨k1, hr, rfl⟩ := sysExit_ok hc
      have hex : Counted (exiting k) := by
        refine h.same rfl fun q i _ _ => Or.inl ?_
        by_cases he : q = k.currentProc
        · rw [he]; unfold exiting; rw [setProc_self]
        · unfold exiting; rw [setProc_of_ne _ _ _ he]
      have h1 := counted_releaseProcess hex (hid.thins (local_setProc k _ _).thins)
        (ho.exiting hl.1) hl.1 hr
      exact h1.same rfl fun _ _ _ _ => Or.inl rfl
  | yield hc =>
      rw [hset.yield_eq hc]
      exact h.same rfl fun _ _ _ _ => Or.inl rfl

theorem NoObjects.counted (h : NoObjects k)
    (hm : ∀ p i, p < procsMax → i < procShmMax → ((k.procs p).shmMappings i).used = 0) :
    Counted k := by
  refine ⟨?_, ?_⟩
  · intro p hp i hi hu
    exact absurd (hm p i hp hi) hu
  · intro s hs hu
    rw [h.unused s hs] at hu
    cases hu

end Os1000.Proof
