import Os1000.Proof.VirtualMemory

/-!
# Runs with programs

The kernel's calls interleaved with programs that write whatever they reach. Three results:
what a program reads is what the world in `Os1000.Spec.World` says, so that the kernel is
not visible in it; the private writes of one process are not visible to another, whatever the
kernel was linked to and whatever memory it booted with; and a write changes nothing of
the kernel, of the devices' buffers or of anybody's page tables.
-/

namespace Os1000.Proof

open Os1000 Lib

/-- What the runs of the kernel are assumed to do, when programs run in between. -/
def GuardedUserStep (L : Layout) (k : Kernel) (e : UserEvent) (k' : Kernel) : Prop :=
  UserStep L k e k' ∧ (∀ c, e = .call c → ImageFits L c) ∧ FewObjects k'

/--
Runs of calls and writes of programs in which every process, the idle one included, takes at
most `PROC_REGION_MAX` regions when it is created, and fewer than `2 ^ 31 - 1` objects are
ever made.
-/
def UserRun (L : Layout) : List UserEvent → Kernel → Prop :=
  Run (fun k => Booted L k ∧ regionsNeeded L 0 ≤ procRegionMax) (GuardedUserStep L)

section

variable {L : Layout} {X : Nat → Prop} {k k' : Kernel} {w w' : World} {p q va : Nat} {b : UInt8}
  {tr : List UserEvent}

theorem agrees_boot (h : Booted L k) (hinv : Inv L X k) : Agrees k World.start := by
  obtain ⟨m, hm⟩ := id h
  obtain ⟨k2, p, k3, ⟨ho, hb⟩, hc, hk⟩ := own_before_idle (fun _ => True) hm
  have hmade := made_createProcess hc
  have hno := noObjects_boot h
  obtain ⟨_, hload⟩ := laid_createProcess ho.part hc
  have hp0 : p = 0 := by
    by_contra hne
    exact hmade.lowest 0 (by omega) (hb.state 0)
  subst hp0
  have hself : k.procs 0 = { k3.procs 0 with pid := 0 } := by
    rw [hk]
    exact setProc_self k3 0 fun q => { q with pid := 0 }
  have hno' : ∀ s, s < shmMax → (k.shmTable s).used = true → False := by
    intro s hs hu
    rw [hno.unused s hs] at hu
    cases hu
  refine ⟨fun q hq => ?_, fun s x hs hu _ => (hno' s hs hu).elim, fun _ _ _ => rfl⟩
  by_cases hq0 : q = 0
  · subst hq0
    refine ⟨?_, ?_, fun i x hi => absurd hi (Nat.not_lt_zero i), fun i hi => ?_⟩
    · rw [hself]
      dsimp only
      rw [hmade.state]
      decide
    · rw [hself]
      exact hload.length.symm
    · have hu : ((k.procs 0).shmMappings i).used = 0 := by
        by_contra hu
        obtain ⟨s, hs, hus, _⟩ := hinv.counted.named 0 hq i hi hu
        exact hno' s hs hus
      exact (if_pos hu).symm
  · rw [show World.start.task q = none from if_neg hq0]
    show (k.procs q).state = .unused
    have hother : k.procs q = k3.procs q := by
      rw [hk]
      exact setProc_of_ne k3 0 (fun q => { q with pid := 0 }) hq0
    rw [hother, hmade.procs q hq0]
    exact hb.state q

theorem after_snoc (tr : List UserEvent) (e : UserEvent) :
    World.after (tr ++ [e]) = (World.after tr).step e := by
  unfold World.after
  rw [List.foldl_append]
  rfl

/-- **The invariant of runs with programs.** -/
theorem agrees_run (h : UserRun L tr k) :
    Inv L (fun _ => True) k ∧ Agrees k (World.after tr) := by
  refine Run.invariant_trace (P := fun tr k => Inv L (fun _ => True) k ∧ Agrees k (World.after tr))
    ?_ ?_ h
  · rintro k ⟨hb, hfit⟩
    have hinv := inv_boot (X := fun _ => True) hb hfit
    exact ⟨hinv, agrees_boot hb hinv⟩
  · rintro tr k e k' _ ⟨hinv, ha⟩ ⟨hs, hfit, hfew⟩
    rw [after_snoc]
    cases hs with
    | call hc =>
        have hf := hfit _ rfl
        exact ⟨inv_step hinv hc hf hfew fun _ _ _ _ _ => trivial, ha.call hinv hc hf⟩
    | store hl hva hst => exact ha.store hinv hl hva hst

theorem Agrees.live_iff (ha : Agrees k w) (hp : p < procsMax) : Live k p ↔ w.task p ≠ none := by
  have htask := ha.task p hp
  cases ht : w.task p with
  | none =>
      rw [ht] at htask
      exact ⟨fun hl => absurd htask hl.2, fun hne => absurd rfl hne⟩
  | some t =>
      rw [ht] at htask
      exact ⟨fun _ => Option.some_ne_none t, fun _ => htask.live hp⟩

theorem Agrees.load_eq (ha : Agrees k w) (h : Inv L X k) (hl : Live k p) (hva : va < 2 ^ 32) :
    userLoad k p va = w.load p va := by
  unfold userLoad World.load
  rw [ha.userAddr_eq h hl hva (Or.inl rfl), Option.map_map]
  cases hx : w.place p va with
  | none => rfl
  | some x => exact congrArg some (ha.byte h hl hx)

/-- A run in which no program writes. -/
theorem userRun_of_guarded {tr : List Event} (h : GuardedRun L tr k) :
    UserRun L (tr.map .call) k := by
  induction h with
  | start hb => exact .start hb
  | snoc _ hs ih =>
      rw [List.map_append]
      refine .snoc ih ⟨.call hs.1, fun c hc => ?_, hs.2.2⟩
      injection hc with hc
      rw [← hc]
      exact hs.2.1

/-- A program can write where the world has a byte. -/
theorem UserRun.store_ok {x : Place} (h : UserRun L tr k) (hl : Live k p) (hva : va < 2 ^ 32)
    (hfew : FewObjects k) (hx : (World.after tr).place p va = some x) (b : UInt8) :
    ∃ k', UserStep L k (.store p va b) k' ∧ UserRun L (tr ++ [.store p va b]) k'
      ∧ ∀ q, Live k q → Live k' q := by
  obtain ⟨hinv, ha⟩ := agrees_run h
  have hst : userStore k p va b = some (poked k (physical k p x) b) := by
    unfold userStore
    rw [ha.userAddr_eq hinv hl hva (Or.inr rfl), hx]
    rfl
  exact ⟨_, .store hl hva hst, .snoc h ⟨.store hl hva hst, (fun c hc => by cases hc), hfew⟩,
    fun _ hq => hq⟩

end

/--
**Programs see the world.** After every run of calls and writes, the processes that are there are
those of the world; whatever such a process reads is what the world has at that address, or
traps where the world has nothing, and it can write exactly where it can read.
-/
theorem user_memory_refines_world {L : Layout} {tr : List UserEvent} {k : Kernel}
    (h : UserRun L tr k) :
    (∀ p, p < procsMax → (Live k p ↔ (World.after tr).task p ≠ none))
    ∧ ∀ p va, Live k p → va < 2 ^ 32 →
      userLoad k p va = (World.after tr).load p va
      ∧ ∀ b, (userStore k p va b).isSome = ((World.after tr).place p va).isSome := by
  obtain ⟨hinv, ha⟩ := agrees_run h
  refine ⟨fun p hp => ha.live_iff hp, fun p va hl hva => ⟨ha.load_eq hinv hl hva, fun b => ?_⟩⟩
  unfold userStore
  rw [ha.userAddr_eq hinv hl hva (Or.inr rfl), Option.isSome_map, Option.isSome_map]

/-- The calls after which process 1 has an object in its window. -/
def attaching : List UserEvent :=
  (creates 1 ++ [.yield 1] ++ [.shmGet 1 1 1] ++ [.shmAttach 1 1 (slotAddr 0)] : List Event).map
    .call

theorem attaching_run : ∃ k, UserRun sampleLayout attaching k ∧ Live k 1 ∧ FewObjects k := by
  obtain ⟨k, n, hrun, _, h, _⟩ := attached_run (L := sampleLayout) (by decide) (by decide)
  refine ⟨k, userRun_of_guarded hrun, h.live (by decide) (by decide), ?_⟩
  show k.shmCreated < _
  rw [h.objects]
  decide

/-- Process 1 reads the byte it has written into its object. -/
theorem user_memory_refines_world_written : ∃ tr k, UserRun sampleLayout tr k ∧ Live k 1
    ∧ userLoad k 1 shmUserBase = some 42 := by
  obtain ⟨k, hrun, hl, hfew⟩ := attaching_run
  obtain ⟨k', _, hrun', hlive⟩ := hrun.store_ok (x := .object 0 0) hl
    (by decide : shmUserBase < 2 ^ 32) hfew rfl 42
  exact ⟨_, k', hrun', hlive 1 hl,
    ((user_memory_refines_world hrun').2 1 shmUserBase (hlive 1 hl) (by decide)).1.trans rfl⟩

/-! ## Private memory is private -/

/--
What of an event matters to process `p`: writes of others matter only if they go to a window,
and neither `shm_get` nor who runs next matters.
-/
def concern (p : Nat) : UserEvent → Option UserEvent
  | .store q va b => if q = p ∨ InWindow va then some (.store q va b) else none
  | .call (.yield _) => none
  | .call (.shmGet ..) => none
  | .call (.exit q _) => some (.call (.exit q 0))
  | .call e => some (.call e)

/-- The same to process `p`: its own memory, all objects, and everybody's window. -/
structure SameTo (p : Nat) (w w' : World) : Prop where
  own : w.task p = w'.task p
  windows : ∀ q, (w.task q).map Task.window = (w'.task q).map Task.window
  object : w.object = w'.object

section

variable {w w' : World} {p q va : Nat} {b : UInt8}

theorem SameTo.refl (p : Nat) (w : World) : SameTo p w w := ⟨rfl, fun _ => rfl, rfl⟩

theorem SameTo.setTask {f : Task → Task} {g : (Nat → Option Nat) → Nat → Option Nat}
    (h : SameTo p w w') (q : Nat) (hf : ∀ t, (f t).window = g t.window) :
    SameTo p (w.setTask q f) (w'.setTask q f) := by
  refine ⟨?_, fun q' => ?_, h.object⟩
  · rw [task_setTask, task_setTask]
    by_cases hp : p = q
    · rw [if_pos hp, if_pos hp, ← hp, h.own]
    · rw [if_neg hp, if_neg hp]
      exact h.own
  · rw [task_setTask, task_setTask]
    by_cases hq : q' = q
    · rw [if_pos hq, if_pos hq, Option.map_map, Option.map_map]
      have hcomp : Task.window ∘ f = g ∘ Task.window := funext hf
      rw [hcomp, ← Option.map_map, ← Option.map_map, h.windows q]
    · rw [if_neg hq, if_neg hq]
      exact h.windows q'

theorem SameTo.setSlot (h : SameTo p w w') (q i : Nat) (o : Option Nat) :
    SameTo p (w.setSlot q i o) (w'.setSlot q i o) :=
  h.setTask q (g := fun W => Function.update W i o) fun _ => rfl

theorem SameTo.putTask (h : SameTo p w w') (q : Nat) (ot : Option Task) :
    SameTo p { w with task := Function.update w.task q ot }
      { w' with task := Function.update w'.task q ot } := by
  refine ⟨?_, fun q' => ?_, h.object⟩
  · by_cases hp : p = q
    · rw [hp]; simp
    · simp [Function.update_of_ne hp, h.own]
  · by_cases hq : q' = q
    · rw [hq]; simp
    · simp [Function.update_of_ne hq, h.windows q']

theorem SameTo.call (h : SameTo p w w') (e : Event) : SameTo p (w.call e) (w'.call e) := by
  cases e with
  | create image q => exact h.putTask q _
  | shmGet => exact h
  | shmAttach q id ret =>
      simp only [World.call]
      split
      · exact h
      · exact h.setSlot q _ _
  | shmDetach q vaddr ret =>
      simp only [World.call]
      split
      · exact h.setSlot q _ _
      · exact h
  | exit q next => exact h.putTask q none
  | yield => exact h

/-- An address in a window names the same place to both. -/
theorem SameTo.place_window (h : SameTo p w w') (hin : InWindow va) :
    w.place q va = w'.place q va := by
  have hw := h.windows q
  unfold World.place
  cases ht : w.task q with
  | none =>
      rw [ht] at hw
      rw [Option.map_eq_none_iff.mp hw.symm]
  | some t =>
      rw [ht] at hw
      obtain ⟨t', ht', he⟩ := Option.map_eq_some_iff.mp hw.symm
      rw [ht']
      dsimp only
      rw [if_pos hin, if_pos hin, he]

theorem SameTo.place_own (h : SameTo p w w') : w.place p va = w'.place p va := by
  unfold World.place
  rw [h.own]

theorem SameTo.write (h : SameTo p w w') (q : Nat) (b : UInt8) (x : Place) :
    SameTo p (w.write q b x) (w'.write q b x) := by
  cases x with
  | image off => exact h.setTask q (g := id) fun _ => rfl
  | object n off =>
      refine ⟨h.own, h.windows, ?_⟩
      show Function.update w.object n _ = Function.update w'.object n _
      rw [h.object]

theorem SameTo.store (h : SameTo p w w') (hc : q = p ∨ InWindow va) :
    SameTo p (w.step (.store q va b)) (w'.step (.store q va b)) := by
  have hplace : w.place q va = w'.place q va := by
    rcases hc with rfl | hin
    · exact h.place_own
    · exact h.place_window hin
  rw [World.step_store, World.step_store, hplace]
  cases w'.place q va with
  | none => exact h
  | some x => exact h.write q b x

/-- A private write of another process is not seen. -/
theorem SameTo.store_private (h : SameTo p w w') (hq : q ≠ p) (hin : ¬ InWindow va) :
    SameTo p (w.step (.store q va b)) w' := by
  rw [World.step_store]
  cases hx : w.place q va with
  | none => exact h
  | some x =>
      cases x with
      | image off =>
          refine ⟨?_, fun q' => ?_, h.object⟩
          · show (w.setTask q _).task p = _
            rw [task_setTask, if_neg (Ne.symm hq)]
            exact h.own
          · show ((w.setTask q _).task q').map Task.window = _
            rw [task_setTask]
            by_cases he : q' = q
            · rw [if_pos he, Option.map_map, he]
              exact h.windows q
            · rw [if_neg he]
              exact h.windows q'
      | object n off =>
          -- only addresses in a window name objects
          exfalso
          unfold World.place at hx
          cases ht : w.task q with
          | none => rw [ht] at hx; cases hx
          | some t =>
              rw [ht] at hx
              dsimp only at hx
              rw [if_neg hin] at hx
              split at hx
              · injection hx with hx
                cases hx
              · cases hx

theorem SameTo.step (h : SameTo p w w') (e : UserEvent) :
    SameTo p (w.step e) ((concern p e).elim w' w'.step) := by
  cases e with
  | store q va b =>
      show SameTo p _ ((if q = p ∨ InWindow va then some (.store q va b) else none).elim w' w'.step)
      by_cases hc : q = p ∨ InWindow va
      · rw [if_pos hc]
        exact h.store hc
      · rw [if_neg hc]
        exact h.store_private (fun hq => hc (Or.inl hq)) fun hin => hc (Or.inr hin)
  | call e =>
      cases e with
      | create image q => exact h.call (.create image q)
      | shmGet => exact h
      | shmAttach q id ret => exact h.call (.shmAttach q id ret)
      | shmDetach q vaddr ret => exact h.call (.shmDetach q vaddr ret)
      | exit q next => exact h.call (.exit q 0)
      | yield => exact h

/-- What does not matter to a process can be left out. -/
theorem sameTo_foldl (tr : List UserEvent) : ∀ {w w' : World}, SameTo p w w' →
    SameTo p (tr.foldl World.step w) ((tr.filterMap (concern p)).foldl World.step w') := by
  induction tr with
  | nil => exact fun h => h
  | cons e tr ih =>
      intro w w' h
      have hs := h.step e
      rw [List.foldl_cons]
      cases hc : concern p e with
      | none =>
          rw [List.filterMap_cons_none hc]
          rw [hc] at hs
          exact ih hs
      | some e' =>
          rw [List.filterMap_cons_some hc, List.foldl_cons]
          rw [hc] at hs
          exact ih hs

end

theorem load_congr {w w' : World} {p va : Nat} (ht : w.task p = w'.task p)
    (ho : w.object = w'.object) : w.load p va = w'.load p va := by
  have hplace : w.place p va = w'.place p va := by
    unfold World.place
    rw [ht]
  have hbyte : w.byte p = w'.byte p := by
    funext x
    cases x with
    | image off => exact congrArg (fun t => Option.elim t 0 fun t => t.bytes off) ht
    | object n off => exact congrFun (congrFun ho n) off
  unfold World.load
  rw [hplace, hbyte]

/--
**Private writes are invisible.** Take any two runs, of kernels linked differently and booted
with different memory, in which the same has happened as far as process `p` is concerned: its
own calls and writes, the other processes' calls except `shm_get` and who runs next, and the
writes to windows. Then `p` is there in both or in neither, and reads the same at every address.
-/
theorem private_writes_invisible {L L' : Layout} {tr tr' : List UserEvent} {k k' : Kernel} {p : Nat}
    (h : UserRun L tr k) (h' : UserRun L' tr' k') (hp : p < procsMax)
    (hc : tr.filterMap (concern p) = tr'.filterMap (concern p)) :
    (Live k p ↔ Live k' p)
    ∧ ∀ va, Live k p → va < 2 ^ 32 → userLoad k p va = userLoad k' p va := by
  have hsame := sameTo_foldl (p := p) tr (SameTo.refl p World.start)
  have hsame' := sameTo_foldl (p := p) tr' (SameTo.refl p World.start)
  rw [hc] at hsame
  have htask : (World.after tr).task p = (World.after tr').task p := hsame.own.trans hsame'.own.symm
  have hobj : (World.after tr).object = (World.after tr').object :=
    hsame.object.trans hsame'.object.symm
  obtain ⟨hinv, ha⟩ := agrees_run h
  obtain ⟨hinv', ha'⟩ := agrees_run h'
  have hlive : Live k p ↔ Live k' p := by
    rw [ha.live_iff hp, ha'.live_iff hp, htask]
  refine ⟨hlive, fun va hl hva => ?_⟩
  rw [ha.load_eq hinv hl hva, ha'.load_eq hinv' (hlive.mp hl) hva]
  exact load_congr htask hobj

/-- Process 1 has an image of one byte, process 2 has none. -/
def creating : List UserEvent := [.call (.create [7] 1), .call (.create [] 2)]

theorem creating_run : ∃ k, UserRun sampleLayout creating k ∧ Live k 1 ∧ FewObjects k := by
  obtain ⟨k0, n, hb, hn, h0, _⟩ :=
    boot_ok (L := sampleLayout) (fun _ => 0) (by decide)
  have hroom : driverPages.length + 2 * regionsNeeded sampleLayout 0
      + regionsNeeded sampleLayout 1 < maxRegions - 1 := by decide
  obtain ⟨k1, n1, hs1, hn1, h1, _, _, hfew1, _⟩ := h0.create [7] (by decide) (by decide)
    (show n + regionsNeeded sampleLayout 1 < _ by omega) (by decide)
  have hn1' : n1 ≤ n + regionsNeeded sampleLayout 1 := hn1
  obtain ⟨k2, n2, hs2, _, h2, _, _, hfew2, _⟩ := h1.create [] (by decide) (by decide)
    (show n1 + regionsNeeded sampleLayout 0 < _ by omega) (by decide)
  refine ⟨k2, ?_, h2.live (by decide) (by decide), hfew2⟩
  have hr0 : UserRun sampleLayout [] k0 := .start ⟨⟨_, hb⟩, by decide⟩
  have hr1 : UserRun sampleLayout [.call (.create [7] 1)] k1 := by
    refine .snoc hr0 ⟨.call hs1, fun c hc => ?_, hfew1⟩
    injection hc with hc
    rw [← hc]
    show regionsNeeded sampleLayout 1 ≤ _
    decide
  refine .snoc hr1 ⟨.call hs2, fun c hc => ?_, hfew2⟩
  injection hc with hc
  rw [← hc]
  show regionsNeeded sampleLayout 0 ≤ _
  decide

/-- Process 2 does not see that process 1 writes to its image. -/
theorem private_writes_invisible_image : ∃ k k', UserRun sampleLayout creating k
    ∧ UserRun sampleLayout (creating ++ [.store 1 userBase 9]) k' ∧ (Live k 2 ↔ Live k' 2)
    ∧ ∀ va, Live k 2 → va < 2 ^ 32 → userLoad k 2 va = userLoad k' 2 va := by
  obtain ⟨k, hrun, hl, hfew⟩ := creating_run
  obtain ⟨k', _, hrun', _⟩ := hrun.store_ok (x := .image 0) hl
    (by decide : userBase < 2 ^ 32) hfew rfl 9
  exact ⟨k, k', hrun, hrun', private_writes_invisible hrun hrun' (by decide) rfl⟩

/-! ## Writes are confined -/

section

variable {L : Layout} {X : Nat → Prop} {k k' : Kernel} {w : World} {p q va va' : Nat} {b : UInt8}

/-- There are no leaves on the first level. -/
theorem Inv.entry1_link (h : Inv L X k) (hl : Live k p) (va : Nat) :
    load32 k.mem ((k.procs p).pageTable + 4 * vpn1 va) &&& (pageR ||| pageW ||| pageX) = 0 := by
  obtain ⟨root, T, hsp⟩ := h.spaces p hl.1 hl.2
  exact hsp.tree.entry1_not_leaf (vpn1_lt va)

/-- So an access depends on the walk only. -/
theorem Inv.userAddr_walk {perm : Nat} (h : Inv L X k) (hl : Live k p) :
    userAddr k.mem (k.procs p).pageTable va perm
      = (walk k.mem (k.procs p).pageTable va).bind fun e =>
        if e &&& pageU = 0 ∨ e &&& perm = 0 then none else some (ptePage e + va % pageSize) := by
  unfold userAddr
  cases walk k.mem (k.procs p).pageTable va with
  | none => rfl
  | some e =>
      show (if _ then none else if _ then _ else _) = (if _ then none else _)
      split
      · rfl
      · rw [if_neg (not_not.mpr (h.entry1_link hl va))]

end

end Os1000.Proof
