import Os1000.Proof.UserPages
import Os1000.Spec.World

/-!
# Memory as programs see it

A run of the kernel with programs that write whatever they reach is a run of the world in
`Os1000.Spec.World`: in every state, whatever a process reads is the byte of the world at
that address, and where the world has no byte the access traps.

The invariant says of each process that its image pages hold the bytes of its task and its
window shows what the task's window shows, and of each object that its page holds the bytes
of the object. Calls preserve it because they leave these pages alone, and a write preserves
it because a byte of one page is not a byte of another.
-/

namespace Os1000.Proof

open Os1000 Lib

/-- The object that a mapping shows. -/
def shown (m : ShmMapping) : Option Nat := if m.used = 0 then none else some (m.shmId - 1).toNat

/-- Where the image page `i` of process `p` is. -/
def imageStart (k : Kernel) (p i : Nat) : Nat :=
  (k.regions ((k.procs p).imageRegions.getD i 0)).start

/-- Process `p` is what the world says. -/
def TaskAgrees (k : Kernel) (p : Nat) : Option Task → Prop
  | none => (k.procs p).state = .unused
  | some t => (k.procs p).state ≠ .unused ∧ t.pages = (k.procs p).imageRegions.length
      ∧ (∀ i x, i < t.pages → x < 4096 →
        k.mem (imageStart k p i + x) = t.bytes (i * 4096 + x))
      ∧ ∀ i, i < procShmMax → t.window i = shown ((k.procs p).shmMappings i)

/-- The kernel has the memory that the world describes. -/
structure Agrees (k : Kernel) (w : World) : Prop where
  task : ∀ p, p < procsMax → TaskAgrees k p (w.task p)
  object : ∀ s x, s < shmMax → (k.shmTable s).used = true → x < 4096 →
    k.mem ((k.shmTable s).pa + x) = w.object (k.shmTable s).birth x
  /-- Nothing has been written to objects that are still to come. -/
  unborn : ∀ n x, k.shmCreated ≤ n → w.object n x = 0

section

variable {L : Layout} {X : Nat → Prop} {k k' : Kernel} {w : World} {p q : Nat} {t : Task}
  {ot : Option Task}

theorem TaskAgrees.live (h : TaskAgrees k p (some t)) (hp : p < procsMax) : Live k p := ⟨hp, h.1⟩

/-! ## Calls -/

/-- The image of a process that is still there, whatever has become of its window. -/
theorem TaskAgrees.called {e : Event} {W : Nat → Option Nat} (h : Inv L X k) (hs : Step L k e k')
    (hfit : ImageFits L e) (hp : p < procsMax) (ht : TaskAgrees k p (some t))
    (hst : (k'.procs p).state ≠ .unused)
    (hW : ∀ i, i < procShmMax → W i = shown ((k'.procs p).shmMappings i)) :
    TaskAgrees k' p (some { t with window := W }) := by
  have hl := ht.live hp
  have himg := imageRegions_step h hs hl ⟨hp, hst⟩
  obtain ⟨_, hpages, hbytes, _⟩ := ht
  refine ⟨hst, by rw [himg]; exact hpages, fun i x hi hx => ?_, hW⟩
  have hlt : i < (k.procs p).imageRegions.length := by rw [← hpages]; exact hi
  have hmem : (k.procs p).imageRegions.getD i 0 ∈ (k.procs p).imageRegions := by
    rw [List.getD_eq_getElem _ _ hlt]
    exact List.getElem_mem hlt
  have hu : UserPage k (.proc p) ((k.procs p).imageRegions.getD i 0) := ⟨hl, hmem⟩
  have hu' : UserPage k' (.proc p) ((k.procs p).imageRegions.getD i 0) :=
    ⟨⟨hp, hst⟩, by rw [himg]; exact hmem⟩
  have hsame := userPage_step h hs hfit hu hu'
  have hsz : (k.regions ((k.procs p).imageRegions.getD i 0)).size = 4096 :=
    (hu.pageOf h.spaces h.own).2.2.2
  unfold imageStart at hbytes ⊢
  rw [himg, hsame.1, hsame.2 _ (by omega) (by omega)]
  exact hbytes i x hi hx

/-- A process that the call was not about. -/
theorem TaskAgrees.other {e : Event} (h : Inv L X k) (hs : Step L k e k') (hfit : ImageFits L e)
    (hp : p < procsMax) (ht : TaskAgrees k p ot) (hproc : k'.procs p = k.procs p) :
    TaskAgrees k' p ot := by
  cases ot with
  | none => exact (congrArg Process.state hproc).trans ht
  | some t =>
      refine ht.called h hs hfit hp (by rw [hproc]; exact ht.1) ?_
      rw [hproc]
      exact ht.2.2.2

/-- A process just created. -/
theorem taskAgrees_create {image : List UInt8} (h : Inv L X k)
    (hfit : regionsNeeded L image.length ≤ procRegionMax)
    (hc : createProcess L k image = .ok (p, k')) :
    TaskAgrees k' p (some ⟨imagePages image.length, fun i => image.getD i 0, fun _ => none⟩) := by
  have hnil : ∀ q, q < procsMax → (k.procs q).state = .unused → (k.procs q).appended = [] :=
    fun q hq hu => (h.settled.blank q hq hu).1
  obtain ⟨_, hload⟩ := laid_createProcess h.own.part hc
  have hlen := (space_createProcess h.own hnil hfit hc).1
  have hclear := (own_createProcess h.own hnil hc (Nat.le_succ_of_le hlen)).2
  refine ⟨?_, hload.length.symm, ?_, ?_⟩
  · rw [(made_createProcess hc).state]
    decide
  · intro i x hi hx
    have hb := hload.bytes i hi x hx
    have hpage := pageBytes_image image (i := i * 4096 + x)
    rw [show (i * 4096 + x) / 4096 * 4096 = i * pageSize by unfold pageSize; omega,
      show (i * 4096 + x) % 4096 = x by omega] at hpage
    exact hb.trans hpage
  · intro i hi
    rw [hclear i hi]
    rfl

theorem windowSlot_slotAddr (i : Nat) : windowSlot (slotAddr i) = i := by
  unfold windowSlot slotAddr shmUserBase shmPageSize pageSize
  omega

/-- A slot of the window has changed, in the kernel as in the world. -/
theorem TaskAgrees.slot {e : Event} {i : Nat} {o : Option Nat} {m : ShmMapping} (h : Inv L X k)
    (hs : Step L k e k') (hfit : ImageFits L e) (hp : p < procsMax)
    (ht : TaskAgrees k p ot) (hl : Live k p) (hst : (k'.procs p).state = (k.procs p).state)
    (hm : (k'.procs p).shmMappings = Function.update (k.procs p).shmMappings i m)
    (ho : o = shown m) :
    TaskAgrees k' p (ot.map fun t => { t with window := Function.update t.window i o }) := by
  cases ot with
  | none => exact absurd ht hl.2
  | some t =>
      refine ht.called h hs hfit hp (by rw [hst]; exact hl.2) ?_
      intro j hj
      rw [hm]
      by_cases hji : j = i
      · rw [hji, Function.update_self, Function.update_self]
        exact ho
      · rw [Function.update_of_ne hji, Function.update_of_ne hji]
        exact ht.2.2.2 j hj

theorem shmAttach_mappings {id : Int} {slot s : Nat} {k1 : Kernel} (h : Inv L X k) (hl : Live k p)
    (hslot : slot < procShmMax) (hf : findById k id = some s)
    (hm : mapPage L k p (slotAddr slot) (k.shmTable s).pa windowFlags = .ok k1) :
    ((attached k1 p slot s id).procs p).shmMappings
      = Function.update (k.procs p).shmMappings slot ⟨1, id, slotAddr slot⟩ := by
  obtain ⟨root, T, hsp⟩ := h.spaces p hl.1 hl.2
  obtain ⟨hslt, hus, _⟩ := findById_some hf
  obtain ⟨T', hr⟩ := hsp.mapPage_window h.own hl.1 hslot hslt hus hm
  unfold attached
  rw [setObj_procs, setMapping_self, hr.mappings]

theorem task_setTask (w : World) (p q : Nat) (f : Task → Task) :
    (w.setTask p f).task q = if q = p then (w.task p).map f else w.task q := by
  unfold World.setTask
  by_cases h : q = p
  · rw [h, if_pos rfl]; exact Function.update_self ..
  · rw [if_neg h]; exact Function.update_of_ne h ..

/-- **A call does to the processes what it does to the tasks.** -/
theorem task_call {e : Event} (h : Inv L X k) (ha : Agrees k w) (hs : Step L k e k')
    (hfit : ImageFits L e) (hq : q < procsMax) : TaskAgrees k' q ((w.call e).task q) := by
  have hw := ha.task q hq
  have hs' := hs
  cases hs with
  | @create _ image p hc =>
      by_cases hqp : q = p
      · subst hqp
        rw [show (w.call (.create image q)).task q = some ⟨imagePages image.length,
          fun i => image.getD i 0, fun _ => none⟩ from Function.update_self ..]
        exact taskAgrees_create h hfit hc
      · rw [show (w.call (.create image p)).task q = w.task q from Function.update_of_ne hqp ..]
        exact hw.other h hs' hfit hq ((made_createProcess hc).procs q hqp)
  | shmGet _ hg =>
      refine hw.other h hs' hfit hq ?_
      rcases shmGet_ok hg with ⟨_, rfl⟩ | ⟨_, _, _, rfl⟩ | ⟨_, _, _, _, _, _, _, _, _, _, rfl⟩
      · rfl
      · rfl
      · rfl
  | @shmAttach _ p id ret hl hat =>
      have hkeep := keep_shmAttach hat
      rcases shmAttach_ok hat with ⟨rfl, rfl⟩ | ⟨s, slot, k1, hf, hslot, _, hm, rfl, rfl⟩
      · exact hw.other h hs' hfit hq rfl
      · have hne : slotAddr slot ≠ 0 := by
          unfold slotAddr shmUserBase
          omega
        have hcall : w.call (.shmAttach p id (slotAddr slot))
            = w.setSlot p slot (some (id - 1).toNat) := by
          show (if slotAddr slot = 0 then w else _) = _
          rw [if_neg hne, windowSlot_slotAddr]
        rw [hcall, World.setSlot, task_setTask]
        by_cases hqp : q = p
        · subst hqp
          rw [if_pos rfl]
          exact hw.slot h hs' hfit hq hl hkeep.state (shmAttach_mappings h hl hslot hf hm) rfl
        · rw [if_neg hqp]
          exact hw.other h hs' hfit hq (hkeep.procs q hqp)
  | @shmDetach _ p vaddr ret hl hd =>
      have hkeep := keep_shmDetach hd
      rcases shmDetach_ok hd with ⟨rfl, rfl, _⟩ | ⟨rfl, i, k1, ⟨hi, hui, hv⟩, _⟩
      · exact hw.other h hs' hfit hq rfl
      · have hv' : vaddr = slotAddr i := by rw [← hv]; exact h.own.window p hl.1 i hi hui
        have hcall : w.call (.shmDetach p vaddr 0) = w.setSlot p i none := by
          show (if (0 : Int) = 0 then w.setSlot p (windowSlot vaddr) none else w) = _
          rw [if_pos rfl, hv', windowSlot_slotAddr]
        rw [hcall, World.setSlot, task_setTask]
        by_cases hqp : q = p
        · subst hqp
          rw [if_pos rfl]
          rw [← hv] at hd
          exact hw.slot h hs' hfit hq hl hkeep.state (shmDetach_mappings h.own hq hi hui hd) rfl
        · rw [if_neg hqp]
          exact hw.other h hs' hfit hq (hkeep.procs q hqp)
  | exit hl _ hx =>
      obtain ⟨k1, hr, rfl⟩ := sysExit_ok hx
      have hg := gone_releaseProcess hr
      by_cases hqp : q = k.currentProc
      · subst hqp
        rw [show (w.call (.exit k.currentProc (scheduled k1).currentProc)).task k.currentProc = none
          from Function.update_self ..]
        exact hg.state
      · rw [show (w.call (.exit k.currentProc (scheduled k1).currentProc)).task q = w.task q
          from Function.update_of_ne hqp ..]
        exact hw.other h hs' hfit hq ((hg.procs q hqp).trans (setProc_of_ne _ _ _ hqp))
  | yield hy =>
      refine hw.other h hs' hfit hq ?_
      rw [h.settled.yield_eq hy]
      rfl

theorem object_call (w : World) (e : Event) : (w.call e).object = w.object := by
  cases e with
  | create => rfl
  | shmGet => rfl
  | shmAttach p id ret =>
      show (if ret = 0 then w else _).object = _
      split
      · rfl
      · rfl
  | shmDetach p vaddr ret =>
      show (if ret = 0 then _ else w).object = _
      split
      · rfl
      · rfl
  | exit => rfl
  | yield => rfl

/-- An object that was there before the call still has its bytes. -/
theorem Agrees.object_same {e : Event} {s x : Nat} (ha : Agrees k w) (h : Inv L X k)
    (hs : Step L k e k') (hfit : ImageFits L e) (hslt : s < shmMax)
    (hu : (k.shmTable s).used = true)
    (ho : k'.shmTable s = { k.shmTable s with refcount := (k'.shmTable s).refcount })
    (hx : x < 4096) : k'.mem ((k'.shmTable s).pa + x) = w.object (k'.shmTable s).birth x := by
  have hpage : UserPage k (.shm s) (k.shmTable s).regionIdx := ⟨hslt, hu, rfl⟩
  have hpage' : UserPage k' (.shm s) (k.shmTable s).regionIdx :=
    ⟨hslt, by rw [ho]; exact hu, by rw [ho]⟩
  have hsame := userPage_step h hs hfit hpage hpage'
  have hpa := h.own.shmPa s hslt hu
  have hsz : (k.regions (k.shmTable s).regionIdx).size = 4096 :=
    (hpage.pageOf h.spaces h.own).2.2.2
  rw [ho]
  dsimp only
  rw [hsame.2 _ (by omega) (by omega)]
  exact ha.object s x hslt hu hx

/-- **Calls keep the agreement.** -/
theorem Agrees.call {e : Event} (ha : Agrees k w) (h : Inv L X k) (hs : Step L k e k')
    (hfit : ImageFits L e) : Agrees k' (w.call e) := by
  refine ⟨fun q hq => task_call h ha hs hfit hq, ?_, ?_⟩
  · intro s x hslt hu hx
    rw [object_call]
    rcases thins_or_created hs with ht | ⟨_, key, s', pa, idx, r, _, _, _, _, hun, hal, hk'⟩
    · exact ha.object_same h hs hfit hslt (ht.used hslt hu) (ht.obj s hslt hu) hx
    · by_cases hss : s = s'
      · -- a new object is a zeroed page
        subst hss
        have hobj : k'.shmTable s = newObject k key pa idx := by rw [hk', created_self]
        have hmem : k'.mem = r.mem := by rw [hk']; rfl
        rw [hobj, hmem, (allocPages_spec hal).mem, fill_apply]
        show (if pa ≤ pa + x ∧ pa + x < pa + u32 (1 * pageSize) then 0 else _) = w.object k.shmCreated x
        rw [if_pos ⟨Nat.le_add_right _ _, Nat.add_lt_add_left hx pa⟩,
          ha.unborn k.shmCreated x (Nat.le_refl _)]
      · have hobj : k'.shmTable s = k.shmTable s := by rw [hk', created_of_ne _ _ _ _ _ hss]
        rw [hobj] at hu
        exact ha.object_same h hs hfit hslt hu (by rw [hobj]) hx
  · intro n x hn
    rw [object_call]
    refine ha.unborn n x (Nat.le_trans ?_ hn)
    rcases thins_or_created hs with ht | ⟨_, _, _, _, _, _, _, _, _, _, _, _, hk'⟩
    · rw [ht.shmCreated]
    · rw [hk']
      exact Nat.le_succ _

/-! ## Translation -/

/-- Where a place of process `p` is in memory. -/
def physical (k : Kernel) (p : Nat) : Place → Nat
  | .image off => imageStart k p (off / pageSize) + off % pageSize
  | .object n off => (findById k (n + 1)).elim 0 fun s => (k.shmTable s).pa + off

theorem shown_some {m : ShmMapping} (h : m.used ≠ 0) : shown m = some (m.shmId - 1).toNat :=
  if_neg h

/-- The object that a slot in use shows. -/
theorem Inv.shown_object (h : Inv L X k) {i : Nat} (hp : p < procsMax) (hi : i < procShmMax)
    (hu : ((k.procs p).shmMappings i).used ≠ 0) :
    ∃ s, s < shmMax ∧ (k.shmTable s).used = true
      ∧ (k.shmTable s).id = ((k.procs p).shmMappings i).shmId
      ∧ shown ((k.procs p).shmMappings i) = some (k.shmTable s).birth
      ∧ findById k ((k.shmTable s).birth + 1) = some s := by
  obtain ⟨s, hs, hus, hid⟩ := h.counted.named p hp i hi hu
  have hbirth := h.ids.id s hs hus
  refine ⟨s, hs, hus, hid, ?_, ?_⟩
  · rw [shown_some hu, ← hid, hbirth, Int.add_sub_cancel, Int.toNat_natCast]
  · rw [← hbirth]
    exact h.ids.findById_eq hs hus

/-- A leaf word that user mode may use, for a page that is one. -/
theorem userAddr_pte {m : Mem} {root va pa flags perm : Nat} (hal : pa % 4096 = 0)
    (hpa : pa < 2 ^ 32) (hf : flags < 1024)
    (hw : walk m root va = some (pte pa flags))
    (hu : (flags ||| pageV) &&& pageU ≠ 0) (hperm : perm < 1024)
    (hp : (flags ||| pageV) &&& perm ≠ 0)
    (hlink : load32 m (root + 4 * vpn1 va) &&& (pageR ||| pageW ||| pageX) = 0) :
    userAddr m root va perm = some (pa + va % pageSize) := by
  unfold userAddr
  rw [hw]
  dsimp only
  rw [pte_and hf (by decide), pte_and hf hperm, if_neg (not_or.mpr ⟨hu, hp⟩), if_neg (not_not.mpr hlink),
    ptePage_pte hal hpa hf]

theorem userAddr_none {m : Mem} {root va perm : Nat} (hw : walk m root va = none) :
    userAddr m root va perm = none := by
  unfold userAddr
  rw [hw]

theorem userAddr_not_user {m : Mem} {root va perm e : Nat} (hw : walk m root va = some e)
    (hu : e &&& pageU = 0) : userAddr m root va perm = none := by
  unfold userAddr
  rw [hw]
  dsimp only
  rw [if_pos (Or.inl hu)]

/-- The image, by page numbers and by addresses. -/
theorem image_range {va n : Nat} :
    (imageVpn ≤ va / 4096 ∧ va / 4096 < imageVpn + n)
      ↔ (userBase ≤ va ∧ va < userBase + n * pageSize) := by
  unfold imageVpn userBase pageSize
  omega

/-- **The hardware takes an access where the world says.** -/
theorem Agrees.userAddr_eq {va perm : Nat} (ha : Agrees k w) (h : Inv L X k) (hl : Live k p)
    (hva : va < 2 ^ 32) (hperm : perm = pageR ∨ perm = pageW) :
    userAddr k.mem (k.procs p).pageTable va perm = (w.place p va).map (physical k p) := by
  obtain ⟨root, T, hsp⟩ := h.spaces p hl.1 hl.2
  have hwalk := hsp.walk_eq h.own hl.1 hva
  have hlink := hsp.tree.entry1_not_leaf (vpn1_lt va)
  have hpl : perm < 1024 := by rcases hperm with rfl | rfl <;> decide
  have htask := ha.task p hl.1
  unfold World.place
  cases ht : w.task p with
  | none => rw [ht] at htask; exact absurd htask hl.2
  | some t =>
      rw [ht] at htask
      obtain ⟨_, hpages, _, hwin⟩ := htask
      dsimp only
      unfold spaceMap at hwalk
      by_cases hin : InWindow va
      · have hi : windowSlot va < procShmMax := by
          unfold InWindow at hin
          unfold windowSlot
          omega
        rw [if_pos hin, hwin _ hi]
        rw [if_pos (show windowVpn ≤ va / 4096 ∧ va / 4096 < windowVpn + procShmMax from hin)] at hwalk
        rw [show va / 4096 - windowVpn = windowSlot va from rfl] at hwalk
        by_cases hu : ((k.procs p).shmMappings (windowSlot va)).used = 0
        · rw [windowWord_of_unused hu, if_pos (Nat.zero_and _)] at hwalk
          rw [userAddr_none hwalk, show shown ((k.procs p).shmMappings (windowSlot va)) = none
            from if_pos hu]
          rfl
        · obtain ⟨s, hs, hus, hid, hshow, hfind⟩ := h.shown_object hl.1 hi hu
          rw [windowWord_of_used h.ids hu hs hus hid, if_neg (pte_valid (by decide))] at hwalk
          obtain ⟨h1, h2⟩ := (h.own.object_page hs hus).aligned h.own
          rw [userAddr_pte h1 h2 (by decide) hwalk (by decide) hpl
            (by rcases hperm with rfl | rfl <;> decide) hlink, hshow]
          show some _ = some ((findById k ((k.shmTable s).birth + 1)).elim 0 _)
          rw [hfind]
          rfl
      · rw [if_neg hin]
        rw [if_neg (show ¬ (windowVpn ≤ va / 4096 ∧ va / 4096 < windowVpn + procShmMax) from hin)]
          at hwalk
        unfold imageMap at hwalk
        by_cases himg : imageVpn ≤ va / 4096 ∧ va / 4096 < imageVpn + (k.procs p).imageRegions.length
        · rw [if_pos himg, if_neg (pte_valid (by decide))] at hwalk
          rw [if_pos (by rw [hpages]; exact image_range.mp himg)]
          have hlt : va / 4096 - imageVpn < (k.procs p).imageRegions.length := by omega
          have hmem : (k.procs p).imageRegions.getD (va / 4096 - imageVpn) 0
              ∈ (k.procs p).imageRegions := by
            rw [List.getD_eq_getElem _ _ hlt]
            exact List.getElem_mem hlt
          have hu : UserPage k (.proc p) _ := ⟨hl, hmem⟩
          obtain ⟨h1, h2⟩ := (hu.pageOf h.spaces h.own).aligned h.own
          rw [userAddr_pte h1 h2 (by decide) hwalk (by decide) hpl
            (by rcases hperm with rfl | rfl <;> decide) hlink]
          have hoff : (va - userBase) / pageSize = va / 4096 - imageVpn
              ∧ (va - userBase) % pageSize = va % pageSize := by
            unfold imageVpn userBase pageSize at *
            omega
          show _ = some (imageStart k p ((va - userBase) / pageSize) + (va - userBase) % pageSize)
          rw [hoff.1, hoff.2]
          rfl
        · rw [if_neg himg] at hwalk
          rw [if_neg (by rw [hpages]; exact fun hc => himg (image_range.mpr hc))]
          split at hwalk
          · exact userAddr_none hwalk
          · exact userAddr_not_user hwalk (baseMap_not_user L _)

/-! ## Places -/

/-- What an address can name. -/
theorem place_cases {va : Nat} {x : Place} (hx : w.place p va = some x) :
    ∃ t, w.task p = some t ∧ ((∃ off, x = .image off ∧ off < t.pages * 4096)
      ∨ ∃ i n, x = .object n (va % 4096) ∧ i < procShmMax ∧ t.window i = some n) := by
  unfold World.place at hx
  cases ht : w.task p with
  | none => rw [ht] at hx; cases hx
  | some t =>
      rw [ht] at hx
      dsimp only at hx
      refine ⟨t, rfl, ?_⟩
      split at hx
      · rename_i hin
        obtain ⟨n, hn, rfl⟩ := Option.map_eq_some_iff.mp hx
        refine Or.inr ⟨windowSlot va, n, rfl, ?_, hn⟩
        unfold InWindow at hin
        unfold windowSlot
        omega
      · split at hx
        · rename_i him
          injection hx with hx
          refine Or.inl ⟨_, hx.symm, ?_⟩
          unfold pageSize at him
          omega
        · cases hx

/-- The page and the offset in it that a place of process `p` is. -/
def Located (k : Kernel) (p : Nat) (o : Owner) (r y : Nat) : Place → Prop
  | .image off => o = .proc p ∧ off / 4096 < (k.procs p).imageRegions.length
      ∧ r = (k.procs p).imageRegions.getD (off / 4096) 0 ∧ y = off % 4096
  | .object n off => ∃ s, o = .shm s ∧ (k.shmTable s).birth = n ∧ r = (k.shmTable s).regionIdx
      ∧ y = off

theorem Agrees.located {va : Nat} {x : Place} (ha : Agrees k w) (h : Inv L X k) (hl : Live k p)
    (hx : w.place p va = some x) :
    ∃ o r y, UserPage k o r ∧ y < 4096 ∧ physical k p x = (k.regions r).start + y
      ∧ Located k p o r y x := by
  obtain ⟨t, ht, hcase⟩ := place_cases hx
  have htask := ha.task p hl.1
  rw [ht] at htask
  obtain ⟨_, hpages, _, hwin⟩ := htask
  rcases hcase with ⟨off, rfl, hoff⟩ | ⟨i, n, rfl, hi, hn⟩
  · have hlt : off / 4096 < (k.procs p).imageRegions.length := by omega
    refine ⟨.proc p, _, off % 4096, ⟨hl, ?_⟩, by omega, rfl, rfl, hlt, rfl, rfl⟩
    show (k.procs p).imageRegions.getD (off / 4096) 0 ∈ _
    rw [List.getD_eq_getElem _ _ hlt]
    exact List.getElem_mem hlt
  · rw [hwin i hi] at hn
    have hu : ((k.procs p).shmMappings i).used ≠ 0 := by
      intro h0
      rw [show shown ((k.procs p).shmMappings i) = none from if_pos h0] at hn
      cases hn
    obtain ⟨s, hs, hus, _, hshow, hfind⟩ := h.shown_object hl.1 hi hu
    obtain rfl : (k.shmTable s).birth = n := by rw [hshow] at hn; injection hn
    refine ⟨.shm s, _, va % 4096, ⟨hs, hus, rfl⟩, by omega, ?_, s, rfl, rfl, rfl, rfl⟩
    show (findById k _).elim 0 _ = _
    rw [hfind, ← h.own.shmPa s hs hus]
    rfl

/-- The bytes of the world are in memory. -/
theorem Agrees.byte {va : Nat} {x : Place} (ha : Agrees k w) (h : Inv L X k) (hl : Live k p)
    (hx : w.place p va = some x) : k.mem (physical k p x) = w.byte p x := by
  obtain ⟨o, r, y, hu, hy, hphys, hloc⟩ := ha.located h hl hx
  obtain ⟨t, ht, hcase⟩ := place_cases hx
  have htask := ha.task p hl.1
  rw [ht] at htask
  obtain ⟨_, hpages, hbytes, _⟩ := htask
  rcases hcase with ⟨off, rfl, hoff⟩ | ⟨i, n, rfl, hi, hn⟩
  · have hb := hbytes (off / 4096) (off % 4096) (by omega) (by omega)
    rw [show off / 4096 * 4096 + off % 4096 = off by omega] at hb
    show k.mem (imageStart k p (off / 4096) + off % 4096) = (w.task p).elim 0 _
    rw [hb, ht]
    rfl
  · obtain ⟨s, rfl, hbirth, rfl, rfl⟩ := hloc
    obtain ⟨hs, hus, _⟩ := hu
    rw [hphys, ← h.own.shmPa s hs hus, ha.object s _ hs hus (by omega), hbirth]
    rfl

/-! ## Writes -/

/-- What is read from a page after a byte of a page was written. -/
theorem poked_mem {o o' : Owner} {r r' x y : Nat} (b : UInt8) (h : Inv L X k) (hu : UserPage k o r)
    (hu' : UserPage k o' r') (hy : y < 4096) (hx : x < 4096) :
    (poked k ((k.regions r).start + y) b).mem ((k.regions r').start + x)
      = if r' = r ∧ x = y then b else k.mem ((k.regions r').start + x) := by
  show Function.update k.mem _ b _ = _
  by_cases he : r' = r ∧ x = y
  · rw [if_pos he, he.1, he.2, Function.update_self]
  · rw [if_neg he]
    refine Function.update_of_ne (fun heq => he ?_) ..
    exact h.own.page_inj (hu'.pageOf h.spaces h.own) (hu.pageOf h.spaces h.own) hx hy heq

/-- The image of a process, after a byte of a page was written. -/
theorem image_poked {o : Owner} {r y i x : Nat} (b : UInt8) (h : Inv L X k) (hu : UserPage k o r)
    (hy : y < 4096) (hl : Live k q) (hi : i < (k.procs q).imageRegions.length) (hx : x < 4096) :
    (poked k ((k.regions r).start + y) b).mem (imageStart k q i + x)
      = if (k.procs q).imageRegions.getD i 0 = r ∧ x = y then b
        else k.mem (imageStart k q i + x) := by
  have hmem : (k.procs q).imageRegions.getD i 0 ∈ (k.procs q).imageRegions := by
    rw [List.getD_eq_getElem _ _ hi]
    exact List.getElem_mem hi
  have hu' : UserPage k (.proc q) ((k.procs q).imageRegions.getD i 0) := ⟨hl, hmem⟩
  exact poked_mem b h hu hu' hy hx

/-- A write outside of the image of a process leaves the process as it is. -/
theorem TaskAgrees.poked {o : Owner} {r y : Nat} (b : UInt8) (h : Inv L X k) (hu : UserPage k o r)
    (hy : y < 4096) (hne : o ≠ .proc q) (hq : q < procsMax) (ht : TaskAgrees k q ot) :
    TaskAgrees (poked k ((k.regions r).start + y) b) q ot := by
  cases ot with
  | none => exact ht
  | some t =>
      have hl := ht.live hq
      obtain ⟨hst, hpages, hbytes, hwin⟩ := ht
      refine ⟨hst, hpages, fun i x hi hx => ?_, hwin⟩
      have hlt : i < (k.procs q).imageRegions.length := by rw [← hpages]; exact hi
      have hmem : (k.procs q).imageRegions.getD i 0 ∈ (k.procs q).imageRegions := by
        rw [List.getD_eq_getElem _ _ hlt]
        exact List.getElem_mem hlt
      refine ((image_poked b h hu hy hl hlt hx).trans (if_neg ?_)).trans (hbytes i x hi hx)
      rintro ⟨rfl, _⟩
      have hmine : UserPage k (.proc q) _ := ⟨hl, hmem⟩
      exact hne (h.own.ledger.excl (hu.holds h.spaces) (hmine.holds h.spaces))

/-- A byte of the image of process `p` is written, in memory as in the task. -/
theorem Agrees.poke_image {off : Nat} {b : UInt8} (ha : Agrees k w) (h : Inv L X k) (hl : Live k p)
    (hlt : off / 4096 < (k.procs p).imageRegions.length) :
    Agrees (poked k (imageStart k p (off / 4096) + off % 4096) b) (w.write p b (.image off)) := by
  have hmem : (k.procs p).imageRegions.getD (off / 4096) 0 ∈ (k.procs p).imageRegions := by
    rw [List.getD_eq_getElem _ _ hlt]
    exact List.getElem_mem hlt
  have hu : UserPage k (.proc p) ((k.procs p).imageRegions.getD (off / 4096) 0) := ⟨hl, hmem⟩
  have hy : off % 4096 < 4096 := by omega
  refine ⟨fun q hq => ?_, fun s x hs hus hx => ?_, fun n x hn => ha.unborn n x hn⟩
  · have htask := ha.task q hq
    show TaskAgrees _ q ((w.setTask p _).task q)
    rw [task_setTask]
    by_cases hqp : q = p
    · subst hqp
      rw [if_pos rfl]
      cases ht : w.task q with
      | none => rw [ht] at htask; exact absurd htask hl.2
      | some t =>
          rw [ht] at htask
          obtain ⟨hst, hpages, hbytes, hwin⟩ := htask
          refine ⟨hst, hpages, fun i x hi hx => ?_, hwin⟩
          have hil : i < (k.procs q).imageRegions.length := by rw [← hpages]; exact hi
          refine (image_poked b h hu hy hl hil hx).trans ?_
          obtain ⟨_, _, hsp⟩ := h.spaces q hl.1 hl.2
          have hnd := (List.nodup_append.mp
            (List.nodup_cons.mp (hsp.tree.nodup (h.own.hold hl.1))).2).2.1
          by_cases hit : i * 4096 + x = off
          · have hix : i = off / 4096 ∧ x = off % 4096 := by omega
            rw [if_pos ⟨by rw [hix.1], hix.2⟩]
            show b = Function.update t.bytes off b (i * 4096 + x)
            rw [hit, Function.update_self]
          · rw [if_neg fun hc => hit (by
              have := getD_inj hnd hil hlt hc.1
              omega)]
            show _ = Function.update t.bytes off b (i * 4096 + x)
            rw [Function.update_of_ne hit]
            exact hbytes i x hi hx
    · rw [if_neg hqp]
      refine htask.poked b h hu hy ?_ hq
      intro e
      injection e with e
      exact hqp e.symm
  · have hobj : UserPage k (.shm s) (k.shmTable s).regionIdx := ⟨hs, hus, rfl⟩
    have hpa := h.own.shmPa s hs hus
    show (poked k _ b).mem ((k.shmTable s).pa + x) = _
    rw [hpa]
    refine ((poked_mem b h hu hobj hy hx).trans (if_neg ?_)).trans ?_
    · rintro ⟨he, _⟩
      rw [he] at hobj
      cases h.own.ledger.excl (hu.holds h.spaces) (hobj.holds h.spaces)
    · rw [← hpa]
      exact ha.object s x hs hus hx

/-- A byte of an object is written, in memory as in the world. -/
theorem Agrees.poke_object {s off : Nat} {b : UInt8} (ha : Agrees k w) (h : Inv L X k)
    (hs : s < shmMax) (hus : (k.shmTable s).used = true) (hoff : off < 4096) :
    Agrees (poked k ((k.shmTable s).pa + off) b)
      (w.write p b (.object (k.shmTable s).birth off)) := by
  have hu : UserPage k (.shm s) (k.shmTable s).regionIdx := ⟨hs, hus, rfl⟩
  rw [h.own.shmPa s hs hus]
  refine ⟨fun q hq => (ha.task q hq).poked b h hu hoff (by simp) hq, fun s' x hs' hus' hx => ?_,
    fun n x hn => ?_⟩
  · have hu' : UserPage k (.shm s') (k.shmTable s').regionIdx := ⟨hs', hus', rfl⟩
    have hpa' := h.own.shmPa s' hs' hus'
    show (Proof.poked k _ b).mem ((k.shmTable s').pa + x)
      = Function.update w.object (k.shmTable s).birth _ (k.shmTable s').birth x
    rw [hpa', poked_mem b h hu hu' hoff hx]
    by_cases hss : s' = s
    · subst hss
      rw [Function.update_self]
      by_cases hxo : x = off
      · rw [if_pos ⟨rfl, hxo⟩, hxo, Function.update_self]
      · rw [if_neg fun hc => hxo hc.2, Function.update_of_ne hxo, ← hpa']
        exact ha.object s' x hs' hus' hx
    · rw [if_neg, Function.update_of_ne, ← hpa']
      · exact ha.object s' x hs' hus' hx
      · exact fun hb => hss (h.ids.birth_inj s' s hs' hs hus' hus hb)
      · rintro ⟨he, _⟩
        rw [he] at hu'
        have := h.own.ledger.excl (hu'.holds h.spaces) (hu.holds h.spaces)
        injection this with this
        exact hss this
  · show Function.update w.object (k.shmTable s).birth _ n x = 0
    have hlt := h.ids.birth_lt s hs hus
    have hn' : k.shmCreated ≤ n := hn
    rw [Function.update_of_ne (by omega)]
    exact ha.unborn n x hn'

/-- **Writes keep the invariant and the agreement.** -/
theorem Agrees.store {va : Nat} {b : UInt8} (ha : Agrees k w) (h : Inv L X k) (hl : Live k p)
    (hva : va < 2 ^ 32) (hst : userStore k p va b = some k') :
    Inv L X k' ∧ Agrees k' (w.step (.store p va b)) := by
  unfold userStore at hst
  rw [ha.userAddr_eq h hl hva (Or.inr rfl), Option.map_map] at hst
  obtain ⟨x, hx, hk'⟩ := Option.map_eq_some_iff.mp hst
  obtain ⟨o, r, y, hu, hy, hphys, hloc⟩ := ha.located h hl hx
  have hk : k' = poked k (physical k p x) b := hk'.symm
  have hstep : w.step (.store p va b) = w.write p b x := by
    rw [World.step_store, hx, Option.elim_some]
  rw [hk, hstep]
  refine ⟨by rw [hphys]; exact inv_poked h hu hy b, ?_⟩
  cases x with
  | image off => exact ha.poke_image h hl hloc.2.1
  | object n off =>
      obtain ⟨s, rfl, rfl, rfl, rfl⟩ := hloc
      obtain ⟨hs, hus, _⟩ := hu
      rw [hphys, ← h.own.shmPa s hs hus]
      exact ha.poke_object h hs hus hy

end

end Os1000.Proof
