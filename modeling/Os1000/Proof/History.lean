import Os1000.Proof.Exclusive
import Mathlib.Data.List.Perm.Basic

/-!
# What becomes of an object

Statements about shared memory that no single state can make: an id names the same
object for as long as it names one, and an object that was made goes away again.

Both rest on the birth number of an object, the count of objects made before it. Ids
are births plus one, so an id that was handed out once cannot come to name an object
born later; and every birth is accounted for, as that of an object in use or of one
whose page was released.
-/

namespace Os1000.Proof

open Os1000 Lib

/-! ## Ids -/

/-- A call after which fewer than `2 ^ 31 - 1` objects have been made. -/
def FewStep (L : Layout) (k : Kernel) (e : Event) (k' : Kernel) : Prop :=
  Step L k e k' ∧ FewObjects k'

/-- The objects that were there in `k₁` and still are in `k` have not changed. -/
structure Since (k₁ k : Kernel) : Prop where
  later : k₁.shmCreated ≤ k.shmCreated
  old : ∀ s, s < shmMax → (k.shmTable s).used = true → (k.shmTable s).birth < k₁.shmCreated →
    (k₁.shmTable s).used = true
      ∧ k.shmTable s = { k₁.shmTable s with refcount := (k.shmTable s).refcount }

section

variable {L : Layout} {X : Nat → Prop} {k k' k₁ : Kernel} {p : Nat}

theorem Since.refl (k : Kernel) : Since k k := ⟨le_refl _, fun _ _ hu _ => ⟨hu, rfl⟩⟩

/-- A call removes old objects or adds a younger one. -/
theorem since_step {e : Event} (h : Since k₁ k) (hs : Step L k e k') : Since k₁ k' := by
  rcases thins_or_created hs with ht | ⟨_, key, s, pa, idx, r, _, _, _, _, _, _, rfl⟩
  · refine ⟨by rw [ht.shmCreated]; exact h.later, ?_⟩
    intro s hs' hu hb
    have hobj := ht.obj s hs' hu
    rw [hobj] at hb
    obtain ⟨h1, h2⟩ := h.old s hs' (ht.used hs' hu) hb
    refine ⟨h1, ?_⟩
    rw [hobj, h2]
  · refine ⟨h.later.trans (Nat.le_succ _), ?_⟩
    intro s' hs' hu hb
    by_cases he : s' = s
    · subst he
      rw [created_self] at hb
      exact absurd hb (Nat.not_lt.mpr h.later)
    · rw [created_of_ne _ _ _ _ _ he] at hu hb ⊢
      exact h.old s' hs' hu hb

theorem ids_run {tr : List Event} (h : Run (Booted L) (FewStep L) tr k) : Ids k :=
  Run.invariant (P := Ids) (fun _ hb => (noObjects_boot hb).ids)
    (fun _ _ _ hid hs => ids_step hid hs.1 hs.2) h

/-- The object whose id `shm_get` returned. -/
theorem shmGet_object {key id : Int} (hpos : 0 < id) (hg : shmGet k key = .ok (id, k')) :
    ∃ s, s < shmMax ∧ (k'.shmTable s).used = true ∧ (k'.shmTable s).id = id
      ∧ (k'.shmTable s).key = key := by
  rcases shmGet_ok hg with ⟨rfl, _⟩ | ⟨s, hf, rfl, rfl⟩ | ⟨_, _, s, pa, idx, r, hs, _, _, rfl, rfl⟩
  · exact absurd hpos (by decide)
  · obtain ⟨h1, h2, h3⟩ := findByKey_some hf
    exact ⟨s, h1, h2, rfl, h3⟩
  · refine ⟨s, hs, ?_⟩
    rw [created_self]
    exact ⟨rfl, rfl, rfl⟩

end

/--
**An id never goes stale.** `shm_get(key)` returned `id`, and after any number of further calls some
process attaches `id`. Then `shm_attach` returns 0, or the object it maps is the one `shm_get`
returned: in the same slot, with the same birth, key, page and region, born no later.
-/
theorem attach_never_stale {L : Layout} {tr : List Event} {k₀ k₁ k₂ k₃ : Kernel}
    {es : List (Event × Kernel)} {q p ret : Nat} {key id : Int}
    (hrun : Run (Booted L) (FewStep L) tr k₀)
    (hget : FewStep L k₀ (.shmGet q key id) k₁) (hpos : 0 < id)
    (hbetween : Path (FewStep L) k₁ es k₂) (hattach : Step L k₂ (.shmAttach p id ret) k₃) :
    ret = 0 ∨ ∃ s i k, s < shmMax ∧ (k₁.shmTable s).used = true ∧ (k₁.shmTable s).id = id
      ∧ (k₁.shmTable s).key = key ∧ (k₁.shmTable s).birth < k₁.shmCreated
      ∧ k₂.shmTable s = { k₁.shmTable s with refcount := (k₂.shmTable s).refcount }
      ∧ mapPage L k₂ p ret (k₁.shmTable s).pa (pageU ||| pageR ||| pageW) = .ok k
      ∧ ret = slotAddr i ∧ k₃ = attached k p i s id := by
  have hid₁ : Ids k₁ := ids_step (ids_run hrun) hget.1 hget.2
  obtain ⟨hid₂, hsince⟩ := Path.invariant (P := fun k => Ids k ∧ Since k₁ k)
    (fun _ _ _ h hs => ⟨ids_step h.1 hs.1 hs.2, since_step h.2 hs.1⟩) hbetween
    ⟨hid₁, Since.refl k₁⟩
  obtain ⟨s₁, hs₁, hu₁, hi₁, hk₁⟩ : ∃ s, s < shmMax ∧ (k₁.shmTable s).used = true
      ∧ (k₁.shmTable s).id = id ∧ (k₁.shmTable s).key = key := by
    cases hget.1 with
    | shmGet _ hg => exact shmGet_object hpos hg
  cases hattach with
  | shmAttach hl hat =>
      rcases shmAttach_ok hat with ⟨hret, _⟩ | ⟨s, i, k, hf, _, _, hm, hret, hk⟩
      · exact Or.inl hret
      · obtain ⟨hs, hu, hi⟩ := findById_some hf
        -- an object with that id is no younger than the one that was returned
        have hb : (k₂.shmTable s).birth < k₁.shmCreated := by
          have h1 := hid₂.id s hs hu
          have h2 := hid₁.id s₁ hs₁ hu₁
          have h3 := hid₁.birth_lt s₁ hs₁ hu₁
          omega
        obtain ⟨hu', hobj⟩ := hsince.old s hs hu hb
        have hsame : s = s₁ := by
          refine hid₁.id_inj hs hs₁ hu' hu₁ ?_
          rw [hobj] at hi
          exact hi.trans hi₁.symm
        subst hsame
        refine Or.inr ⟨s, i, k, hs, hu₁, hi₁, hk₁, hid₁.birth_lt s hs hu₁, hobj, ?_, hret, hk⟩
        rw [hobj] at hm
        rw [hret]
        exact hm

/--
Process 1 makes an object, attaches and detaches it, and makes another one, in the same slot. The id
of the first maps its page before, and is refused after.
-/
theorem attach_never_stale_reused :
    ∃ tr k₀ k₁ k₂ k₃ k₄, Run (Booted sampleLayout) (FewStep sampleLayout) tr k₀
      ∧ FewStep sampleLayout k₀ (.shmGet 1 2 2) k₁
      ∧ Path (FewStep sampleLayout) k₁ [(.shmAttach 1 2 (slotAddr 1), k₂),
        (.shmDetach 1 (slotAddr 1) 0, k₃), (.shmGet 1 3 3, k₄)] k₄
      ∧ ((k₁.shmTable 1).id = 2 ∧ ∃ s k, s < shmMax ∧ (k₁.shmTable s).id = 2 ∧ mapPage sampleLayout k₁ 1
        (slotAddr 1) (k₁.shmTable s).pa (pageU ||| pageR ||| pageW) = .ok k)
      ∧ ((k₄.shmTable 1).id = 3 ∧ Step sampleLayout k₄ (.shmAttach 1 2 0) k₄
        ∧ ∀ ret k, Step sampleLayout k₄ (.shmAttach 1 2 ret) k → ret = 0) := by
  obtain ⟨k₀, k₁, k₂, k₃, n, hrun, hpath, ⟨_, hid₁⟩, ⟨hu, hid, hkey⟩, hrest, hn, _, _, hst, _, hcr, _,
    hroom⟩ := slotZero_run (L := sampleLayout) (by decide) (by decide)
  have hn : n ≤ 49 := hn
  have hinv := inv_run (L := sampleLayout) (Run.append hrun hpath)
  have hrun₀ : Run (Booted sampleLayout) (FewStep sampleLayout) _ k₀ :=
    Run.weaken (fun _ hb => hb.1) (fun _ _ _ hs => ⟨hs.1, hs.2.2⟩) hrun
  obtain ⟨hget, hat, hdet⟩ : FewStep sampleLayout k₀ (.shmGet 1 2 2) k₁
      ∧ FewStep sampleLayout k₁ (.shmAttach 1 2 (slotAddr 1)) k₂
      ∧ FewStep sampleLayout k₂ (.shmDetach 1 (slotAddr 1) 0) k₃ := by
    obtain _ | ⟨h1, _ | ⟨h2, _ | ⟨h3, _⟩⟩⟩ := hpath
    exact ⟨⟨h1.1, h1.2.2⟩, ⟨h2.1, h2.2.2⟩, ⟨h3.1, h3.2.2⟩⟩
  -- the new object
  obtain ⟨pa, idx, r, ha, _⟩ := (hroom 1 (by unfold maxRegions; omega)).alloc
  have hnone : findByKey k₃ 3 = none := findByKey_other (by rw [hkey]; decide) hrest
  have hnext : k₃.nextShmId = 3 := by rw [hinv.ids.next, hcr]; rfl
  have hl : Live k₃ 1 := ⟨by decide, by rw [hst 1 (by decide)]; decide⟩
  have hnew := shmGet_new (by decide) hnone (show 1 < shmMax by decide) (hrest 1 (by decide) (by decide))
    (fun j hj => by obtain rfl : j = 0 := by omega
                    exact hu) ha
  rw [hnext] at hnew
  obtain ⟨k₄, hk₄⟩ : ∃ k₄, created k₃ 1 3 pa idx r = k₄ := ⟨_, rfl⟩
  rw [hk₄] at hnew
  have hfew : FewObjects k₄ := by
    rw [← hk₄]
    show k₃.shmCreated + 1 < _
    rw [hcr]; decide
  have hid₄ : (k₄.shmTable 1).id = 3 := by
    rw [← hk₄, created_self]
    exact hnext
  -- nobody has the id 2 any more
  have hgone : ∀ s, s < shmMax → (k₄.shmTable s).used = true → (k₄.shmTable s).id ≠ 2 := by
    intro s hs hused
    by_cases h1 : s = 1
    · rw [h1, hid₄]; decide
    · rw [← hk₄, created_of_ne _ _ _ _ _ h1] at hused ⊢
      by_cases h0 : s = 0
      · rw [h0, hid]; decide
      · rw [hrest s hs h0] at hused
        cases hused
  have hpath' : Path (FewStep sampleLayout) k₁ [(.shmAttach 1 2 (slotAddr 1), k₂),
      (.shmDetach 1 (slotAddr 1) 0, k₃), (.shmGet 1 3 3, k₄)] k₄ :=
    .cons hat (.cons hdet (.cons ⟨.shmGet hl hnew, hfew⟩ .nil))
  refine ⟨_, k₀, k₁, k₂, k₃, k₄, hrun₀, hget, hpath', ⟨hid₁, ?_⟩, hid₄, ?_, fun ret k hs => ?_⟩
  · rcases attach_never_stale hrun₀ hget (by decide) .nil hat.1 with
      h0 | ⟨s, _, k, hs, _, h1, _, _, _, hm, _⟩
    · exact absurd h0 (by decide)
    · exact ⟨s, k, hs, h1, hm⟩
  · refine .shmAttach ?_ ?_
    · rw [← hk₄]
      exact hl
    · unfold shmAttach
      rw [findById_none_iff.mpr hgone]
  · rcases attach_never_stale hrun₀ hget (by decide) hpath' hs with
      h0 | ⟨s, _, _, hs', hused, h1, _, _, hsame, _⟩
    · exact h0
    · rw [← h1] at hgone
      exact absurd (by rw [hsame]) (hgone s hs' (by rw [hsame]; exact hused))

/-! ## Every birth accounted for -/

/-- An object that was made is in use or was released, and not both. -/
structure Accounted (k : Kernel) : Prop where
  nodup : k.shmReleased.Nodup
  split : ∀ b, b < k.shmCreated ↔
    b ∈ k.shmReleased ∨ ∃ s, s < shmMax ∧ (k.shmTable s).used = true ∧ (k.shmTable s).birth = b
  apart : ∀ s, s < shmMax → (k.shmTable s).used = true → (k.shmTable s).birth ∉ k.shmReleased

section

variable {L : Layout} {X : Nat → Prop} {k k' : Kernel} {p q i : Nat}

theorem NoObjects.accounted (h : NoObjects k) : Accounted k := by
  refine ⟨by rw [h.released]; exact .nil, ?_, ?_⟩
  · intro b
    rw [h.none, h.released]
    refine ⟨fun hb => absurd hb (Nat.not_lt_zero b), ?_⟩
    rintro (hb | ⟨s, hs, hu, _⟩)
    · exact absurd hb List.not_mem_nil
    · rw [h.unused s hs] at hu
      cases hu
  · intro s hs hu
    rw [h.unused s hs] at hu
    cases hu

theorem Accounted.thins (h : Accounted k) (hid : Ids k) (ht : Thins k k') : Accounted k' := by
  obtain ⟨l, hnd, hl, hrel⟩ := ht.gone
  have hbirth : ∀ s, s < shmMax → (k'.shmTable s).used = true →
      (k'.shmTable s).birth = (k.shmTable s).birth :=
    fun s hs hu => by rw [ht.obj s hs hu]
  refine ⟨?_, ?_, ?_⟩
  · rw [hrel]
    refine List.nodup_append.mpr ⟨h.nodup, hnd.map_on ?_, ?_⟩
    · intro s hs s' hs' he
      obtain ⟨h1, h2, _⟩ := (hl s).mp hs
      obtain ⟨h1', h2', _⟩ := (hl s').mp hs'
      exact hid.birth_inj s s' h1 h1' h2 h2' he
    · rintro b hb _ hb' rfl
      obtain ⟨s, hs, rfl⟩ := List.mem_map.mp hb'
      obtain ⟨h1, h2, _⟩ := (hl s).mp hs
      exact h.apart s h1 h2 hb
  · intro b
    rw [ht.shmCreated, h.split b, hrel, List.mem_append, or_assoc]
    refine or_congr_right ?_
    constructor
    · rintro ⟨s, hs, hu, rfl⟩
      cases hu' : (k'.shmTable s).used with
      | false => exact Or.inl (List.mem_map.mpr ⟨s, (hl s).mpr ⟨hs, hu, hu'⟩, rfl⟩)
      | true => exact Or.inr ⟨s, hs, hu', hbirth s hs hu'⟩
    · rintro (hb | ⟨s, hs, hu, rfl⟩)
      · obtain ⟨s, hs, rfl⟩ := List.mem_map.mp hb
        obtain ⟨h1, h2, _⟩ := (hl s).mp hs
        exact ⟨s, h1, h2, rfl⟩
      · exact ⟨s, hs, ht.used hs hu, (hbirth s hs hu).symm⟩
  · intro s hs hu
    rw [hbirth s hs hu, hrel, List.mem_append]
    rintro (hb | hb)
    · exact h.apart s hs (ht.used hs hu) hb
    · obtain ⟨s', hs', he⟩ := List.mem_map.mp hb
      obtain ⟨h1, h2, h3⟩ := (hl s').mp hs'
      have hsame := hid.birth_inj s' s h1 hs h2 (ht.used hs hu) he
      rw [hsame, hu] at h3
      cases h3

theorem Accounted.created (h : Accounted k) {s pa idx : Nat} {key : Int} {r : Ram}
    (hs : s < shmMax) (hu : (k.shmTable s).used = false) :
    Accounted (created k s key pa idx r) := by
  have hold : ∀ s', (k.shmTable s').used = true → s' ≠ s := by
    rintro s' hu' rfl
    rw [hu] at hu'
    cases hu'
  refine ⟨h.nodup, ?_, ?_⟩
  · intro b
    show b < k.shmCreated + 1 ↔ _
    rw [Nat.lt_succ_iff_lt_or_eq, h.split b, or_assoc]
    refine or_congr_right ?_
    constructor
    · rintro (⟨s', hs', hu', rfl⟩ | rfl)
      · exact ⟨s', hs', by rw [created_of_ne _ _ _ _ _ (hold s' hu')]; exact ⟨hu', rfl⟩⟩
      · exact ⟨s, hs, by rw [created_self]; exact ⟨rfl, rfl⟩⟩
    · rintro ⟨s', hs', hu', rfl⟩
      by_cases he : s' = s
      · subst he
        rw [created_self]
        exact Or.inr rfl
      · rw [created_of_ne _ _ _ _ _ he] at hu' ⊢
        exact Or.inl ⟨s', hs', hu', rfl⟩
  · intro s' hs' hu'
    by_cases he : s' = s
    · subst he
      rw [created_self]
      intro hb
      exact absurd ((h.split k.shmCreated).mpr (Or.inl hb)) (Nat.lt_irrefl _)
    · rw [created_of_ne _ _ _ _ _ he] at hu' ⊢
      exact h.apart s' hs' hu'

theorem accounted_step {e : Event} (h : Accounted k) (hid : Ids k) (hs : Step L k e k') :
    Accounted k' := by
  rcases thins_or_created hs with ht | ⟨_, key, s, pa, idx, r, _, _, _, hs', hu, _, rfl⟩
  · exact h.thins hid ht
  · exact h.created hs' hu

/-! ## Who is still there -/

/-- Process `p` made a call that meets `P`, and has not exited since. -/
def Standing (P : Event → Prop) (past : List Event) (p : Nat) : Prop :=
  ∃ pre e post, past = pre ++ e :: post ∧ P e ∧ ∀ next, Event.exit p next ∉ post

/-- Process `p` has called `shm_get`, and has not exited since. -/
def Calling (past : List Event) (p : Nat) : Prop :=
  Standing (fun e => ∃ key ret, e = .shmGet p key ret) past p

/-- Process `p` has been given `id` by `shm_get`, and has not exited since. -/
def Obtained (past : List Event) (p : Nat) (id : Int) : Prop :=
  Standing (fun e => ∃ key, e = .shmGet p key id) past p

theorem Standing.now {P : Event → Prop} {past : List Event} {e : Event} (h : P e) :
    Standing P (past ++ [e]) p :=
  ⟨past, e, [], rfl, h, fun _ => List.not_mem_nil⟩

theorem Standing.still {P : Event → Prop} {past : List Event} {e : Event} (h : Standing P past p)
    (he : ∀ next, e ≠ .exit p next) : Standing P (past ++ [e]) p := by
  obtain ⟨pre, f, post, rfl, hf, hno⟩ := h
  refine ⟨pre, f, post ++ [e], by rw [List.append_assoc]; rfl, hf, ?_⟩
  intro next hm
  rcases List.mem_append.mp hm with hm | hm
  · exact hno next hm
  · exact he next (List.mem_singleton.mp hm).symm

theorem Obtained.calling {past : List Event} {id : Int} (h : Obtained past p id) :
    Calling past p := by
  obtain ⟨pre, e, post, hp, ⟨key, he⟩, hno⟩ := h
  exact ⟨pre, e, post, hp, ⟨key, id, he⟩, hno⟩

theorem mapped_shmDetach {vaddr : Nat} {ret : Int} (hd : shmDetach k p vaddr = .ok (ret, k'))
    (hu : ((k'.procs q).shmMappings i).used ≠ 0) : ((k.procs q).shmMappings i).used ≠ 0 := by
  have key : ∀ (j : Nat) (k1 : Kernel), k1.procs = k.procs →
      (((k1.setMapping p j .cleared).procs q).shmMappings i).used ≠ 0 →
      ((k.procs q).shmMappings i).used ≠ 0 := by
    intro j k1 hk1 hu
    by_cases hq : q = p
    · subst hq
      rw [setMapping_self] at hu
      dsimp only at hu
      by_cases hi : i = j
      · rw [hi, Function.update_self] at hu
        exact absurd rfl hu
      · rw [Function.update_of_ne hi, hk1] at hu
        exact hu
    · rw [setMapping_of_ne _ _ _ _ hq, hk1] at hu
      exact hu
  rcases shmDetach_ok hd with ⟨_, rfl, _⟩ | ⟨_, j, k1, _, hun, ⟨_, rfl⟩ | ⟨s, _, hput⟩⟩
  · exact hu
  · exact key j k1 (unmapPage_shmTable hun).2.1 hu
  · refine key j k1 (unmapPage_shmTable hun).2.1 ?_
    rcases shmPut_ok hput with ⟨_, rfl⟩ | ⟨_, r, _, rfl⟩
    · exact hu
    · exact hu

/-- A mapping in use was in use before, and its process has not just exited; or it is new. -/
theorem mapped_step {e : Event} (h : Inv L X k) (hs : Step L k e k') (hfit : ImageFits L e)
    (hi : i < procShmMax) (hu : ((k'.procs q).shmMappings i).used ≠ 0) :
    (((k.procs q).shmMappings i).used ≠ 0 ∧ ∀ next, e ≠ .exit q next)
      ∨ ∃ id ret, e = .shmAttach q id ret := by
  have hroom := roomy_step h hs hfit
  cases hs with
  | @create _ image p hc =>
      have hmade := made_createProcess hc
      obtain ⟨_, hm⟩ := own_createProcess h.own (fun q hq hu => (h.settled.blank q hq hu).1) hc
        (hroom p hmade.lt)
      by_cases he : q = p
      · subst he
        rw [hm i hi] at hu
        exact absurd rfl hu
      · rw [hmade.procs q he] at hu
        exact Or.inl ⟨hu, nofun⟩
  | @shmGet _ p _ _ hl hc =>
      rw [show k'.procs q = k.procs q from (keep_shmGet (q + 1) hc).procs q (by omega)] at hu
      exact Or.inl ⟨hu, nofun⟩
  | @shmAttach _ p _ _ hl hc =>
      by_cases he : q = p
      · subst he
        exact Or.inr ⟨_, _, rfl⟩
      · rw [(keep_shmAttach hc).procs q he] at hu
        exact Or.inl ⟨hu, nofun⟩
  | shmDetach hl hc => exact Or.inl ⟨mapped_shmDetach hc hu, nofun⟩
  | exit hl hidle hc =>
      obtain ⟨k1, hr, rfl⟩ := sysExit_ok hc
      have hgone := gone_releaseProcess hr
      have hu : ((k1.procs q).shmMappings i).used ≠ 0 := hu
      by_cases he : q = k.currentProc
      · rw [he, hgone.mappings i hi] at hu
        exact absurd rfl hu
      · rw [hgone.procs q he] at hu
        unfold exiting at hu
        rw [setProc_of_ne _ _ _ he] at hu
        refine Or.inl ⟨hu, fun next e => he ?_⟩
        injection e with e
        exact e.symm
  | yield hc =>
      rw [h.settled.yield_eq hc] at hu
      exact Or.inl ⟨hu, nofun⟩

end

/-! ## Reclaiming -/

/-- The kernel, and the calls that led to it. -/
structure Record where
  kernel : Kernel
  past : List Event

/--
What a call must keep to for objects to be reclaimed: only a process that has called `shm_get`
attaches, and no process exits that has been given an object nobody has attached.
-/
def Tidy (r : Record) : Event → Prop
  | .shmAttach p _ _ => Calling r.past p
  | .exit p _ => ∀ s, s < shmMax → (r.kernel.shmTable s).used = true →
      Obtained r.past p (r.kernel.shmTable s).id → 0 < (r.kernel.shmTable s).refcount
  | _ => True

/-- A call, written down. -/
def RecordedStep (L : Layout) (r : Record) (e : Event) (r' : Record) : Prop :=
  Step L r.kernel e r'.kernel ∧ ImageFits L e ∧ FewObjects r'.kernel ∧ r'.past = r.past ++ [e]

/-- The runs of a guarded kernel whose calls are all tidy. -/
def TidyRun (L : Layout) : List Event → Record → Prop :=
  Run (fun r => Booted L r.kernel ∧ regionsNeeded L 0 ≤ procRegionMax ∧ r.past = [])
    (fun r e r' => RecordedStep L r e r' ∧ Tidy r e)

/-- Every mapping and every object that is not attached has somebody who answers for it. -/
structure Answered (L : Layout) (r : Record) : Prop where
  inv : Inv L (fun _ => True) r.kernel
  accounted : Accounted r.kernel
  mapped : ∀ p i, p < procsMax → i < procShmMax →
    ((r.kernel.procs p).shmMappings i).used ≠ 0 → Calling r.past p
  unattached : ∀ s, s < shmMax → (r.kernel.shmTable s).used = true →
    (r.kernel.shmTable s).refcount = 0 → ∃ p, Obtained r.past p (r.kernel.shmTable s).id

section

variable {L : Layout} {r r' : Record}

theorem answered_boot (hb : Booted L r.kernel) (hfit : regionsNeeded L 0 ≤ procRegionMax) :
    Answered L r := by
  have hinv : Inv L (fun _ => True) r.kernel := inv_boot hb hfit
  have hno := noObjects_boot hb
  refine ⟨hinv, hno.accounted, ?_, ?_⟩
  · intro p i hp hi hu
    obtain ⟨s, hs, hus, _⟩ := hinv.counted.named p hp i hi hu
    rw [hno.unused s hs] at hus
    cases hus
  · intro s hs hu
    rw [hno.unused s hs] at hu
    cases hu

theorem answered_step {e : Event} (h : Answered L r) (hs : RecordedStep L r e r')
    (ht : Tidy r e) : Answered L r' := by
  obtain ⟨hstep, hfit, hfew, hpast⟩ := hs
  refine ⟨inv_step h.inv hstep hfit hfew fun _ _ _ _ _ => trivial,
    accounted_step h.accounted h.inv.ids hstep, ?_, ?_⟩
  · intro p i hp hi hu
    rw [hpast]
    rcases mapped_step h.inv hstep hfit hi hu with ⟨hu', hne⟩ | ⟨id, ret, rfl⟩
    · exact (h.mapped p i hp hi hu').still hne
    · exact Standing.still ht nofun
  · intro s hs hu h0
    rw [hpast]
    rcases thins_or_created hstep with hth | ⟨q, key, s₁, pa, idx, t, rfl, _, _, _, _, _, hk'⟩
    · -- the count was 0 before, for a count that changes does not become 0
      have hu₀ := hth.used hs hu
      have hcount := h.inv.counted.count s hs hu₀
      have hold : (r.kernel.shmTable s).refcount = 0 := by
        rcases hth.count s hs hu (by omega) with he | hpos
        · rw [← he]; exact h0
        · omega
      obtain ⟨p, hp⟩ := h.unattached s hs hu₀ hold
      rw [hth.obj s hs hu]
      refine ⟨p, hp.still ?_⟩
      rintro next rfl
      have := ht s hs hu₀ hp
      omega
    · rw [hk'] at hu h0 ⊢
      by_cases he : s = s₁
      · subst he
        rw [created_self]
        exact ⟨q, Standing.now ⟨key, rfl⟩⟩
      · rw [created_of_ne _ _ _ _ _ he] at hu h0 ⊢
        obtain ⟨p, hp⟩ := h.unattached s hs hu h0
        exact ⟨p, hp.still nofun⟩

theorem answered_run {tr : List Event} (h : TidyRun L tr r) : Answered L r :=
  Run.invariant (P := Answered L) (fun _ hb => answered_boot hb.1 hb.2.1)
    (fun _ _ _ ha hs => answered_step ha hs.1 hs.2) h

end

section

variable {L : Layout} {k k' : Kernel} {p : Nat}

/-- The last call was this process's exit. -/
theorem Standing.exit_last {P : Event → Prop} {past : List Event} {next : Nat}
    (h : Standing P (past ++ [.exit p next]) p) : P (.exit p next) := by
  obtain ⟨pre, e, post, he, hP, hno⟩ := h
  rcases List.eq_nil_or_concat post with rfl | ⟨post', x, hpost⟩
  · obtain ⟨_, h2⟩ := List.append_inj' he rfl
    injection h2 with h2
    rw [h2]
    exact hP
  · exfalso
    rw [hpost, List.concat_eq_append, ← List.cons_append, ← List.append_assoc] at he
    obtain ⟨_, h2⟩ := List.append_inj' he rfl
    injection h2 with h2
    refine hno next ?_
    rw [h2, hpost, List.concat_eq_append]
    exact List.mem_append_right _ (List.mem_singleton_self x)

theorem Standing.exists_mem {P : Event → Prop} {past : List Event} (h : Standing P past p) :
    ∃ e ∈ past, P e := by
  obtain ⟨pre, e, post, rfl, hP, _⟩ := h
  exact ⟨e, List.mem_append_right _ List.mem_cons_self, hP⟩

/-- Where only process `p` has called `shm_get`, nobody is left when it exits. -/
theorem not_calling_of_exit {past : List Event}
    (h : ∀ q key ret, Event.shmGet q key ret ∈ past → q = p) (next q : Nat) :
    ¬ Calling (past ++ [.exit p next]) q := by
  intro hc
  obtain ⟨e, he, key, ret, rfl⟩ := hc.exists_mem
  obtain rfl : q = p := by
    rcases List.mem_append.mp he with he | he
    · exact h q key ret he
    · cases List.mem_singleton.mp he
  obtain ⟨_, _, hex⟩ := hc.exit_last
  cases hex

/-- A run of calls that are tidy whatever came before, written down. -/
theorem tidy_of_guarded {tr : List Event} (h : GuardedRun L tr k)
    (ht : ∀ e ∈ tr, ∀ r, Tidy r e) : TidyRun L tr ⟨k, tr⟩ := by
  unfold GuardedRun at h
  induction h with
  | start hb => exact .start ⟨hb.1, hb.2, rfl⟩
  | snoc _ hs ih =>
      have hpre := ih fun e he => ht e (List.mem_append_left _ he)
      exact .snoc hpre ⟨⟨hs.1, hs.2.1, hs.2.2, rfl⟩,
        ht _ (List.mem_append_right _ (List.mem_singleton_self _)) _⟩

/-- Releasing a process that has nothing attached leaves the objects alone. -/
theorem releaseProcess_unmapped {X : Nat → Prop} (ho : Own L X k) (hp : p < procsMax)
    (hun : ∀ i, i < procShmMax → ((k.procs p).shmMappings i).used = 0)
    (hrel : releaseProcess L k p = .ok k') :
    k'.shmTable = k.shmTable ∧ k'.shmCreated = k.shmCreated ∧ k'.shmReleased = k.shmReleased := by
  obtain ⟨k1, k2, f, h1, h2, _, rfl⟩ := releaseProcess_ok hrel
  rw [shmProcessCleanup_unmapped hun] at h1
  injection h1 with h1
  subst h1
  obtain ⟨k2', h2', hl, _, _⟩ := releaseRegions_spec hp ho
  obtain rfl : k2 = k2' := by rw [h2] at h2'; injection h2'
  exact ⟨hl.shmTable, hl.shmCreated, hl.shmReleased⟩

end

/--
**Objects go when their users are gone.** In a tidy run, once every process that called `shm_get`
has exited, no object is in use, and the page of every object ever made has been released, once.
-/
theorem shm_reclaimed {L : Layout} {tr : List Event} {r : Record} (h : TidyRun L tr r)
    (hgone : ∀ p, ¬ Calling r.past p) :
    (∀ s, s < shmMax → (r.kernel.shmTable s).used = false)
      ∧ r.kernel.shmReleased.Perm (List.range r.kernel.shmCreated) := by
  have ha := answered_run h
  have hnone : ∀ s, s < shmMax → (r.kernel.shmTable s).used = false := by
    intro s hs
    cases hu : (r.kernel.shmTable s).used with
    | false => rfl
    | true =>
        exfalso
        have hcount := ha.inv.counted.count s hs hu
        rcases Nat.eq_zero_or_pos (namers r.kernel (r.kernel.shmTable s).id).card with h0 | hpos
        · obtain ⟨p, hp⟩ := ha.unattached s hs hu (by omega)
          exact hgone p hp.calling
        · obtain ⟨x, hx⟩ := Finset.card_pos.mp hpos
          obtain ⟨⟨h1, h2⟩, h3, _⟩ := mem_namers.mp hx
          exact hgone x.1 (ha.mapped x.1 x.2 h1 h2 h3)
  refine ⟨hnone, (List.perm_ext_iff_of_nodup ha.accounted.nodup List.nodup_range).mpr ?_⟩
  intro b
  rw [List.mem_range, ha.accounted.split b]
  refine ⟨Or.inl, ?_⟩
  rintro (hb | ⟨s, hs, hu, _⟩)
  · exact hb
  · rw [hnone s hs] at hu
    cases hu

/-- Process 1 makes an object, attaches it and exits. -/
theorem shm_reclaimed_one :
    ∃ tr r, TidyRun sampleLayout tr r ∧ .shmGet 1 1 1 ∈ r.past ∧ r.kernel.shmCreated = 1
      ∧ (∀ p, ¬ Calling r.past p) ∧ (∀ s, s < shmMax → (r.kernel.shmTable s).used = false)
      ∧ r.kernel.shmReleased = [0] := by
  obtain ⟨k, n, hrun, hn, h, hcur, hmap, ⟨hu, hid, _, href⟩, hrest⟩ :=
    gotten_run (L := sampleLayout) (by decide) (by decide)
  have hn : n ≤ 47 := hn
  have hrec := tidy_of_guarded hrun (by simp [creates, Tidy])
  have hcall : Calling (creates 1 ++ [.yield 1] ++ [.shmGet 1 1 1]) 1 :=
    Standing.now ⟨1, 1, rfl⟩
  have honly : ∀ q key ret, Event.shmGet q key ret ∈
      creates 1 ++ [.yield 1] ++ [.shmGet 1 1 1] ++ [.shmAttach 1 1 (slotAddr 0)] → q = 1 := by
    simp +contextual [creates]
  obtain ⟨tr, htr⟩ : ∃ tr, creates 1 ++ [.yield 1] ++ [.shmGet 1 1 1] = tr := ⟨_, rfl⟩
  have hmem : .shmGet 1 1 1 ∈ tr := by rw [← htr]; simp
  rw [htr] at hrec hcall honly
  obtain ⟨k1, n', hm, hs, _, h', hfew, _⟩ := h.shmAttach (p := 1) (i := 0)
    (h.live (by decide) (by decide)) (show 0 < shmMax by decide) hu
    (by decide) (hmap 1 0 (by decide) (by decide)) (fun j hj => absurd hj (Nat.not_lt_zero j))
    (by unfold maxRegions; omega) (by decide)
  rw [hid] at hs h' hfew
  have htable : k1.shmTable = k.shmTable := (grow_mapPage hm).shmTable
  have hself : ((attached k1 1 0 0 1).shmTable 0).refcount = 1 := by
    unfold attached
    rw [setObj_self, htable, href]
    rfl
  have hother : ∀ s, s < shmMax → s ≠ 0 → ((attached k1 1 0 0 1).shmTable s).used = false := by
    intro s hs' hne
    unfold attached
    rw [setObj_of_ne _ _ _ hne, setMapping_shmTable, htable]
    exact hrest s hs' hne
  have hcur' : (attached k1 1 0 0 1).currentProc = 1 := by
    show k1.currentProc = 1
    rw [(grow_mapPage hm).currentProc, hcur]
  obtain ⟨k2, hk2⟩ : ∃ k2, attached k1 1 0 0 1 = k2 := ⟨_, rfl⟩
  rw [hk2] at hs h' hfew hself hother hcur'
  have hrec2 : TidyRun sampleLayout (tr ++ [.shmAttach 1 1 (slotAddr 0)])
      ⟨k2, tr ++ [.shmAttach 1 1 (slotAddr 0)]⟩ := .snoc hrec ⟨⟨hs, trivial, hfew, rfl⟩, hcall⟩
  obtain ⟨k3, hrel, hs3⟩ := exit_ok h'.inv.own (by rw [hcur']; exact h'.live (by decide) (by decide))
    (by rw [hcur', h'.idle]; decide)
  have hcr : k3.shmCreated = 1 := (thins_releaseProcess hrel).shmCreated.trans h'.objects
  have hfew3 : FewObjects (scheduled k3) := by
    show k3.shmCreated < _
    rw [hcr]; decide
  rw [hcur'] at hs3
  have hrec3 : TidyRun sampleLayout
      (tr ++ [.shmAttach 1 1 (slotAddr 0)] ++ [.exit 1 (findNext k3)])
      ⟨scheduled k3, tr ++ [.shmAttach 1 1 (slotAddr 0)] ++ [.exit 1 (findNext k3)]⟩ := by
    refine .snoc hrec2 ⟨⟨hs3, trivial, hfew3, rfl⟩, ?_⟩
    intro s hs' hus _
    by_cases hne : s = 0
    · rw [hne, hself]; decide
    · rw [hother s hs' hne] at hus; cases hus
  have hgone := not_calling_of_exit honly
  obtain ⟨hnone, hperm⟩ := shm_reclaimed hrec3 (hgone _)
  refine ⟨_, _, hrec3, by simp [hmem], hcr, hgone _, hnone, ?_⟩
  have hone : (scheduled k3).shmCreated = 1 := hcr
  rw [hone] at hperm
  exact List.perm_singleton.mp hperm

/-- Process 1 makes an object and exits without attaching it: the object stays for ever. -/
theorem shm_get_then_exit_leaks :
    ∃ tr k, Run (Booted sampleLayout) (Step sampleLayout) tr k ∧ .shmGet 1 1 1 ∈ tr
      ∧ (∀ p, ¬ Calling tr p) ∧ (k.procs 1).state = .unused
      ∧ (k.shmTable 0).used = true ∧ k.shmCreated = 1 ∧ k.shmReleased = [] := by
  obtain ⟨k, n, hrun, _, h, hcur, hmap, ⟨hu, _, _, _⟩, _⟩ :=
    gotten_run (L := sampleLayout) (by decide) (by decide)
  have hrun' : Run (Booted sampleLayout) (Step sampleLayout) _ k :=
    Run.weaken (fun _ hb => hb.1) (fun _ _ _ hs => hs.1) hrun
  have hacc := (answered_run (tidy_of_guarded hrun (by simp [creates, Tidy]))).accounted
  obtain ⟨k1, hrel, hs⟩ := exit_ok h.inv.own (by rw [hcur]; exact h.live (by decide) (by decide))
    (by rw [hcur, h.idle]; decide)
  have hlt : k.currentProc < procsMax := by rw [hcur]; decide
  obtain ⟨h1, h2, h3⟩ := releaseProcess_unmapped (h.inv.own.exiting hlt) hlt (by
    intro i hi
    unfold exiting
    rw [setProc_self]
    exact hmap _ i hlt hi) hrel
  have hgone := gone_releaseProcess hrel
  rw [hcur] at hs hgone
  refine ⟨_, _, .snoc hrun' hs, by simp, not_calling_of_exit (by simp +contextual [creates]) _,
    hgone.state,
    ?_, h2.trans h.objects, ?_⟩
  · show (k1.shmTable 0).used = true
    rw [h1]
    exact hu
  · -- the only birth is that of the object in use
    show k1.shmReleased = []
    rw [h3]
    refine List.eq_nil_iff_forall_not_mem.mpr fun b hb => ?_
    have hb : b ∈ k.shmReleased := hb
    have hlt := (hacc.split b).mpr (Or.inl hb)
    have hb0 : b = 0 := by
      have hlt : b < k.shmCreated := hlt
      rw [h.objects] at hlt
      omega
    have h0 := h.inv.ids.birth_lt 0 (by decide) hu
    rw [h.objects] at h0
    have hsame : (k.shmTable 0).birth = b := by omega
    exact hacc.apart 0 (by decide) hu (by rw [hsame]; exact hb)

end Os1000.Proof
