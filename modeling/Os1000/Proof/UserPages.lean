import Os1000.Kernel.UserMemory
import Os1000.Proof.Creation

/-!
# The pages that programs work in

These are the image pages of the processes and the pages of the shared memory objects. The
kernel fills such a page when it hands it out and from then on leaves it alone: whatever call
is made, a page that is still with the same owner afterwards is the same block with the same
bytes. In the other direction a program reaches no other page, so that what it writes is seen
in that one page and the kernel's invariant is kept.
-/

namespace Os1000.Proof

open Os1000 Lib

/-- Region `r` is a page that programs work in, and `o` owns it. -/
def UserPage (k : Kernel) : Owner → Nat → Prop
  | .driver, _ => False
  | .proc p, r => Live k p ∧ r ∈ (k.procs p).imageRegions
  | .shm s, r => Holds k (.shm s) r

section

variable {L : Layout} {X : Nat → Prop} {k k' : Kernel} {p root r : Nat} {T : Nat → Option Nat}
  {M : Nat → Nat} {o : Owner}

theorem UserPage.holds (hsp : Spaces L k) (h : UserPage k o r) : Holds k o r := by
  cases o with
  | driver => exact h.elim
  | proc q =>
      obtain ⟨_, _, hs⟩ := hsp q h.1.1 h.1.2
      exact ⟨h.1.1, hs.tree.image_mem h.2⟩
  | shm s => exact h

/-- A page that programs work in is no page table. -/
theorem UserPage.not_table (hsp : Spaces L k) (ho : Own L X k) (hp : p < procsMax)
    (ht : Tree k p root T M) (h : UserPage k o r) : ¬ IsTable root T r := by
  by_cases he : o = .proc p
  · subst he
    exact ht.image_not_table (ho.hold hp) h.2
  · exact ht.other_not_table ho hp he (h.holds hsp)

theorem UserPage.pageOf (hsp : Spaces L k) (ho : Own L X k) (h : UserPage k o r) :
    PageOf k r (k.regions r).start := by
  refine ho.pageOf (o := o) ?_ (h.holds hsp)
  rintro rfl
  exact h

/-! ## Calls leave them alone -/

theorem UserPage.of_detach {vaddr : Nat} {ret : Int} (hd : shmDetach k p vaddr = .ok (ret, k'))
    (h : UserPage k' o r) : UserPage k o r := by
  have hdet := detached_shmDetach hd
  cases o with
  | driver => exact h.elim
  | shm s => exact hdet.holds s r h
  | proc q =>
      have hproc : (k'.procs q).state = (k.procs q).state
          ∧ (k'.procs q).imageRegions = (k.procs q).imageRegions := by
        by_cases hq : q = p
        · subst hq
          obtain ⟨f, hf⟩ := hdet.proc
          rw [hf]
          exact ⟨rfl, rfl⟩
        · rw [(keep_shmDetach hd).procs q hq]
          exact ⟨rfl, rfl⟩
      obtain ⟨⟨hq, hst⟩, hr⟩ := h
      rw [hproc.1] at hst
      rw [hproc.2] at hr
      exact ⟨⟨hq, hst⟩, hr⟩

/-- `shm_detach` writes a page table word, and may give one page back. -/
theorem detach_userPage {vaddr : Nat} {ret : Int} (hsp : Spaces L k) (ho : Own L X k)
    (hl : Live k p) (hd : shmDetach k p vaddr = .ok (ret, k')) (h : UserPage k o r)
    (h' : UserPage k' o r) : SamePage k k' r := by
  obtain ⟨root, T, hs⟩ := hsp p hl.1 hl.2
  obtain ⟨h1, h2⟩ := ho.of_holds (h.holds hsp)
  have hnt := h.not_table hsp ho hl.1 hs.tree
  rcases shmDetach_ok hd with ⟨_, rfl, _⟩ | ⟨_, i, k1, ⟨hi, hui, hv⟩, hun, hrest⟩
  · exact SamePage.refl _ r
  · have hslot : vaddr = slotAddr i := by rw [← hv]; exact ho.window p hl.1 i hi hui
    rw [hslot] at hun
    have hr := hs.tree.remaps_unmapPage ho hl.1 (slotAddr_lt hi) hun
    have hs1 : SamePage k (k1.setMapping p i .cleared) r := hr.same r h1 h2 hnt
    rcases hrest with ⟨_, rfl⟩ | ⟨s, hf, hput⟩
    · exact hs1
    · refine hs1.trans ?_
      obtain ⟨hslt, hu, _⟩ := findById_some hf
      obtain ⟨e1, e2, _⟩ := unmapPage_shmTable hun
      have hu1 : ((k1.setMapping p i .cleared).shmTable s).used = true := by
        rw [setMapping_shmTable, e1]; exact hu
      by_cases he : o = .shm s
      · -- the object is still there, so its page was not given back
        subst he
        rcases shmPut_ok hput with ⟨_, rfl⟩ | ⟨_, ram, _, rfl⟩
        · exact SamePage.refl _ r
        · have hgone : ((destroyed (k1.setMapping p i .cleared) s ram).shmTable s).used = false := by
            unfold destroyed
            rw [setObj_self]
            rfl
          rw [h'.2.1] at hgone
          cases hgone
      · have ho1 : Own L X (k1.setMapping p i .cleared) :=
          hr.own.setMapping p hl.1 fun hz => absurd rfl hz
        refine shmPut_samePage ho1 hslt hu1 hput he ?_
        have hh := h.holds hsp
        cases o with
        | driver => exact h.elim
        | shm s' => exact ⟨hh.1, by rw [setMapping_shmTable, e1]; exact hh.2⟩
        | proc q =>
            refine ⟨hh.1, ?_⟩
            by_cases hq : q = p
            · subst hq; rw [setMapping_self, e2]; exact hh.2
            · rw [setMapping_of_ne _ _ _ _ hq, e2]; exact hh.2

/-- What `shm_process_cleanup` needs, and keeps. -/
structure Cleaning (L : Layout) (X : Nat → Prop) (p : Nat) (k : Kernel) : Prop where
  spaces : Spaces L k
  own : Own L X k
  ids : Ids k
  counted : Counted k
  live : Live k p

theorem Cleaning.detach {vaddr : Nat} {ret : Int} (h : Cleaning L X p k)
    (hd : shmDetach k p vaddr = .ok (ret, k')) : Cleaning L X p k' := by
  have hc := counted_shmDetach h.counted h.ids h.live.1 hd
  exact ⟨h.spaces.detach h.own h.ids h.counted h.live.1 h.live.2 hd hc, own_shmDetach h.live.1 h.own hd,
    h.ids.thins (thins_shmDetach hd), hc, h.live.1, by rw [(keep_shmDetach hd).state]; exact h.live.2⟩

theorem cleanup_userPage (hcl : Cleaning L X p k) (h : shmProcessCleanup k p = .ok k') :
    Cleaning L X p k' ∧ ∀ o r, UserPage k' o r → UserPage k o r ∧ SamePage k k' r := by
  refine shmProcessCleanup_inv (p := p) (fun _ t => Cleaning L X p t
    ∧ ∀ o r, UserPage t o r → UserPage k o r ∧ SamePage k t r)
    ⟨hcl, fun o r hu => ⟨hu, SamePage.refl k r⟩⟩ (fun _ _ _ ht _ => ht) ?_ h
  rintro i t t' ret _ ⟨ht, hsame⟩ _ hd
  refine ⟨ht.detach hd, fun o r hu => ?_⟩
  have hut := hu.of_detach hd
  obtain ⟨h1, h2⟩ := hsame o r hut
  exact ⟨h1, h2.trans (detach_userPage ht.spaces ht.own ht.live hd hut hu)⟩

/-- Releasing a process leaves the pages of everybody else alone. -/
theorem release_userPage (hcl : Cleaning L X p k) (hrel : releaseProcess L k p = .ok k')
    (h' : UserPage k' o r) : UserPage k o r ∧ SamePage k k' r := by
  obtain ⟨k1, k2, f, h1, h2, _, rfl⟩ := releaseProcess_ok hrel
  obtain ⟨hcl1, hsame⟩ := cleanup_userPage hcl h1
  have hp := hcl.live.1
  obtain ⟨k2', h2', hloc, hall, _⟩ := releaseRegions_spec hp hcl1.own
  obtain rfl : k2 = k2' := by rw [h2] at h2'; injection h2'
  have hR := releaseAll_released hcl1.own.part hall
  have hu1 : o ≠ .proc p ∧ UserPage k1 o r := by
    cases o with
    | driver => exact h'.elim
    | shm s =>
        refine ⟨by simp, ?_⟩
        obtain ⟨hs, hu⟩ := h'
        rw [setProc_shmTable, hloc.shmTable] at hu
        exact ⟨hs, hu⟩
    | proc q =>
        have hq : q ≠ p := by
          rintro rfl
          have := h'.1.2
          rw [setProc_self] at this
          exact this rfl
        obtain ⟨⟨hlt, hst⟩, hr⟩ := h'
        rw [setProc_of_ne _ _ _ hq, hloc.procs q hq] at hst hr
        refine ⟨?_, ⟨hlt, hst⟩, hr⟩
        intro e
        injection e with e
        exact hq e
  obtain ⟨hu, hs1⟩ := hsame o r hu1.2
  refine ⟨hu, hs1.trans ⟨hR.keep r ?_ (hcl1.own.of_holds (hu1.2.holds hcl1.spaces)).2,
    fun x _ _ => congrFun hR.mem x⟩⟩
  -- what is given back is the process's, and this page is not
  intro hm
  have hmine : Holds k1 (.proc p) r :=
    ⟨hp, (released_sublist (hcl1.own.recorded p hp)).subset hm⟩
  exact hu1.1 (hcl1.own.ledger.excl (hu1.2.holds hcl1.spaces) hmine)

/-- Marking the running process as exited is no obstacle to releasing it. -/
theorem Inv.cleaning (h : Inv L X k) (hl : Live k k.currentProc) :
    Cleaning L X k.currentProc (exiting k) := by
  have hself : (exiting k).procs k.currentProc
      = { k.procs k.currentProc with state := .exited } := setProc_self ..
  have hproc : ∀ q, ∃ n s, (exiting k).procs q = { k.procs q with pid := n, state := s }
      ∧ (s ≠ .unused → (k.procs q).state ≠ .unused) := by
    intro q
    by_cases hq : q = k.currentProc
    · subst hq
      exact ⟨_, _, hself, fun _ => hl.2⟩
    · exact ⟨_, _, setProc_of_ne _ _ _ hq, id⟩
  refine ⟨h.spaces.same h.own rfl rfl hproc, h.own.exiting hl.1,
    h.ids.thins (local_setProc k _ _).thins, ?_, hl.1, by rw [hself]; exact fun e => by cases e⟩
  refine h.counted.same rfl fun q i _ _ => Or.inl ?_
  obtain ⟨n, s, e, _⟩ := hproc q
  rw [e]

/-- **A page that is still with its owner after a call is the same page.** -/
theorem userPage_step {e : Event} (h : Inv L X k) (hs : Step L k e k') (hfit : ImageFits L e)
    (hu : UserPage k o r) (hu' : UserPage k' o r) : SamePage k k' r := by
  obtain ⟨h1, h2⟩ := h.own.of_holds (hu.holds h.spaces)
  cases hs with
  | create hc =>
      exact (space_createProcess h.own (fun q hq hu => (h.settled.blank q hq hu).1) hfit hc).2.2
        r h1 h2
  | shmGet _ hg =>
      rcases shmGet_ok hg with ⟨_, rfl⟩ | ⟨_, _, _, rfl⟩ | ⟨_, _, s, pa, idx, ram, _, _, ha, _, rfl⟩
      · exact SamePage.refl _ r
      · exact SamePage.refl _ r
      · have := alloc_samePage h.own.part (by decide) ha h1 h2
        exact ⟨this.1, this.2⟩
  | @shmAttach _ p _ _ hl ha =>
      rcases shmAttach_ok ha with ⟨_, rfl⟩ | ⟨s, slot, k1, hf, hslot, _, hm, _, rfl⟩
      · exact SamePage.refl _ r
      · obtain ⟨root, T, hsp⟩ := h.spaces p hl.1 hl.2
        obtain ⟨hslt, hus, _⟩ := findById_some hf
        obtain ⟨T', hr⟩ := hsp.mapPage_window h.own hl.1 hslot hslt hus hm
        have := hr.same r h1 h2 (hu.not_table h.spaces h.own hl.1 hsp.tree)
        exact ⟨this.1, this.2⟩
  | shmDetach hl hd => exact detach_userPage h.spaces h.own hl hd hu hu'
  | exit hl hi hx =>
      obtain ⟨k1, hr, rfl⟩ := sysExit_ok hx
      have hrel := release_userPage (o := o) (r := r) (h.cleaning hl) hr (by cases o <;> exact hu')
      exact ⟨hrel.2.1, hrel.2.2⟩
  | yield hy =>
      rw [h.settled.yield_eq hy]
      exact SamePage.refl _ r

/-- The image of a process stays in the pages it was loaded into. -/
theorem imageRegions_step {e : Event} {q : Nat} (h : Inv L X k) (hs : Step L k e k')
    (hl : Live k q) (hl' : Live k' q) :
    (k'.procs q).imageRegions = (k.procs q).imageRegions := by
  cases hs with
  | @create _ _ p hc =>
      have hm := made_createProcess hc
      have hq : q ≠ p := by
        rintro rfl
        exact hl.2 hm.wasUnused
      rw [hm.procs q hq]
  | shmGet _ hg =>
      rcases shmGet_ok hg with ⟨_, rfl⟩ | ⟨_, _, _, rfl⟩ | ⟨_, _, _, _, _, _, _, _, _, _, rfl⟩
      · rfl
      · rfl
      · rfl
  | @shmAttach _ p _ _ hlp ha =>
      by_cases hq : q = p
      · subst hq
        rcases shmAttach_ok ha with ⟨_, rfl⟩ | ⟨s, slot, k1, hf, hslot, _, hm, _, rfl⟩
        · rfl
        · obtain ⟨root, T, hsp⟩ := h.spaces q hl.1 hl.2
          obtain ⟨hslt, hus, _⟩ := findById_some hf
          obtain ⟨T', hr⟩ := hsp.mapPage_window h.own hl.1 hslot hslt hus hm
          unfold attached
          rw [setObj_procs, setMapping_self]
          exact hr.images
      · rw [(keep_shmAttach ha).procs q hq]
  | @shmDetach _ p _ _ _ hd =>
      by_cases hq : q = p
      · subst hq
        obtain ⟨f, hf⟩ := (detached_shmDetach hd).proc
        rw [hf]
      · rw [(keep_shmDetach hd).procs q hq]
  | exit _ _ hx =>
      obtain ⟨k1, hr, rfl⟩ := sysExit_ok hx
      have hg := gone_releaseProcess hr
      have hq : q ≠ k.currentProc := by
        rintro rfl
        exact hl'.2 hg.state
      exact congrArg Process.imageRegions ((hg.procs q hq).trans (setProc_of_ne _ _ _ hq))
  | yield hy => rw [h.settled.yield_eq hy]; rfl

/-! ## Programs write nowhere else -/

/-- A byte of memory written. -/
def poked (k : Kernel) (a : Nat) (b : UInt8) : Kernel :=
  { k with mem := Function.update k.mem a b }

/-- A byte of one page is not a byte of another. -/
theorem Own.page_inj (ho : Own L X k) {r' x y : Nat} (h : PageOf k r (k.regions r).start)
    (h' : PageOf k r' (k.regions r').start) (hx : x < 4096) (hy : y < 4096)
    (he : (k.regions r).start + x = (k.regions r').start + y) : r = r' ∧ x = y := by
  have hsz : (k.regions r).size = 4096 := h.2.2.2
  have hsz' : (k.regions r').size = 4096 := h'.2.2.2
  have hr : r = r' := by
    by_contra hne
    have := ho.part.disjoint h.1 h'.1 hne h.2.1 h'.2.1
    omega
  subst hr
  exact ⟨rfl, by omega⟩

/-- Writing a byte of one page is not seen in another. -/
theorem poked_samePage (ho : Own L X k) {r' x : Nat} {b : UInt8}
    (h : PageOf k r (k.regions r).start) (hx : x < 4096)
    (h' : PageOf k r' (k.regions r').start) (hne : r' ≠ r) :
    SamePage k (poked k ((k.regions r).start + x) b) r' := by
  refine ⟨rfl, fun y h1 h2 => ?_⟩
  have hsz : (k.regions r').size = 4096 := h'.2.2.2
  refine Function.update_of_ne ?_ ..
  intro he
  refine hne (ho.page_inj h' h (x := y - (k.regions r').start) (by omega) hx ?_).1
  omega

/-- **Writing into a page that programs work in keeps the kernel's invariant.** -/
theorem inv_poked (h : Inv L X k) (hu : UserPage k o r) {x : Nat} (hx : x < 4096) (b : UInt8) :
    Inv L X (poked k ((k.regions r).start + x) b) := by
  have hpage := hu.pageOf h.spaces h.own
  refine ⟨⟨h.settled.notExited, h.settled.blank, h.settled.pid, h.settled.idle_lt,
      h.settled.idle_pid, h.settled.idle_runnable, h.settled.current_lt,
      h.settled.current_runnable⟩, h.own.setMem _,
    ⟨h.ids.next, h.ids.id, h.ids.birth_lt, h.ids.birth_inj, h.ids.key_pos, h.ids.key_inj⟩,
    h.counted.same rfl fun _ _ _ _ => Or.inl rfl, ?_⟩
  intro q hq hst
  obtain ⟨root, T, hs⟩ := h.spaces q hq hst
  refine ⟨root, T, hs.tree.frame (h.own.hold hq) ?_ rfl rfl rfl, hs.domain, hs.fits, hs.early⟩
  intro t ht
  have htab : Holds k (.proc q) t := ⟨hq, ht.mem hs.tree⟩
  refine poked_samePage h.own hpage hx (h.own.pageOf (by simp) htab) ?_
  rintro rfl
  exact hu.not_table h.spaces h.own hq hs.tree ht

/-- The first level links tables and has no leaves. -/
theorem Tree.entry1_not_leaf (h : Tree k p root T M) {v1 : Nat} (hv : v1 < 1024) :
    entry1 k p v1 &&& (pageR ||| pageW ||| pageX) = 0 := by
  rw [h.entry1_eq hv]
  cases ht : T v1 with
  | none => rw [tableAddr_none ht]; exact Nat.zero_and _
  | some t =>
      rw [tableAddr_some ht]
      exact (linkWord_and (by decide)).trans (by decide)

end

end Os1000.Proof
