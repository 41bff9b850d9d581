import Os1000.Proof.Invariant
import Os1000.Alloc.Room

/-!
# Calls that succeed

`create_process`, `shm_get` and `shm_attach` panic for want of pages only. How many
one-page allocations they make is known: as many as the process has recorded regions.
A `Supply` is a property of the allocator's table, indexed by the regions taken so
far, under which a given number of allocations succeed; the construction of an address
space is followed with it once, for whatever the supply is.
-/

namespace Os1000.Proof

open Os1000 Lib

/-- From `A []` on, `N` allocations of one page succeed, and `A` follows them. -/
structure Supply (A : List Nat → Regions → Prop) (N : Nat) : Prop where
  gives : ∀ l (r : Ram), l.length < N → A l r.regions →
    ∃ pa idx r', allocPages r 1 = .ok (pa, idx, r')
  keeps : ∀ l (r : Ram) pa idx r', A l r.regions → allocPages r 1 = .ok (pa, idx, r') →
    A (l ++ [idx]) r'.regions

theorem room_supply (N : Nat) : Supply (fun l t => Room (N - l.length) t) N := by
  refine ⟨?_, ?_⟩
  · intro l r hc h
    obtain ⟨pa, idx, r', ha, _⟩ := Room.alloc (c := N - l.length - 1) (h.le (by omega))
    exact ⟨pa, idx, r', ha⟩
  · intro l r pa idx r' h ha
    rw [List.length_append, List.length_singleton]
    by_cases hc : N - l.length = 0
    · rw [show N - (l.length + 1) = 0 by omega]
      trivial
    · obtain ⟨pa', idx', r'', ha', hr⟩ := Room.alloc (c := N - l.length - 1) (h.le (by omega))
      rw [ha'] at ha
      injection ha with ha
      injection ha with _ ha
      injection ha with _ ha
      subst ha
      exact hr

/-- While nothing has been released, the regions are taken in the order of their slots. -/
theorem plenty_supply (L : Layout) (n : Nat) :
    Supply (fun l t => Plenty (n + l.length) t ∧ Partition L t
      ∧ l = (List.range l.length).map (n + 1 + ·)) (maxRegions - 1 - n) := by
  refine ⟨?_, ?_⟩
  · rintro l r hc ⟨h, hp, _⟩
    obtain ⟨r', ha, _⟩ := h.alloc hp (by omega) (show 1 ≤ 8 by omega)
    exact ⟨_, _, r', ha⟩
  · rintro l r pa idx r' ⟨h, hp, hl⟩ ha
    obtain ⟨_, hidx, hpl, _⟩ := h.alloc_ok hp (by omega) ha
    rw [List.length_append, List.length_singleton]
    refine ⟨hpl, partition_alloc hp (by decide) (allocPages_ok.mp ha).1, ?_⟩
    rw [List.range_succ, List.map_append, ← hl, hidx]
    simp only [List.map_cons, List.map_nil]
    congr 2
    omega

/-! ## Building an address space -/

section

variable {L : Layout} {X : Nat → Prop} {A : List Nat → Regions → Prop} {N : Nat} {k k' k₀ : Kernel}
  {p : Nat}

/-- What `A` says after the allocations on behalf of `p`. -/
def Supplied (A : List Nat → Regions → Prop) (p : Nat) (k : Kernel) : Prop :=
  A (k.procs p).appended k.regions

theorem Supplied.record (hs : Supply A N) {pa idx : Nat} {r : Ram} (h : Supplied A p k)
    (ha : allocPages k.toRam 1 = .ok (pa, idx, r)) :
    Supplied A p (recordRegion L { k with toRam := r } p idx) := by
  unfold Supplied
  rw [recordRegion_appended, recordRegion_table]
  exact hs.keeps _ k.toRam pa idx r h ha

theorem Supplied.ensureTable (hs : Supply A N) (h : Supplied A p k)
    (hlt : (k.procs p).appended.length < N) (v1 : Nat) :
    ∃ k', ensureTable L k p v1 = .ok k' ∧ Supplied A p k' := by
  unfold Os1000.ensureTable
  dsimp only
  split
  · obtain ⟨pa, idx, r, ha⟩ := hs.gives _ k.toRam hlt h
    refine ⟨_, bind_eq_ok.mpr ⟨_, ha, rfl⟩, ?_⟩
    exact h.record (L := L) hs ha
  · exact ⟨k, rfl, h⟩

theorem Supplied.mapPage (hs : Supply A N) (h : Supplied A p k)
    (hlt : (k.procs p).appended.length < N) {va pa : Nat} (fl : Nat)
    (hva : va % pageSize = 0) (hpa : pa % pageSize = 0) :
    ∃ k', mapPage L k p va pa fl = .ok k' ∧ Supplied A p k' := by
  obtain ⟨k1, h1, hk1⟩ := h.ensureTable (L := L) hs hlt (vpn1 va)
  unfold Os1000.mapPage
  dsimp only
  rw [if_neg (fun hne => hne hva), if_neg (fun hne => hne hpa)]
  exact ⟨_, bind_eq_ok.mpr ⟨k1, h1, rfl⟩, hk1⟩

theorem Supplied.allocPageTable (hs : Supply A N) (h : Supplied A p k)
    (hlt : (k.procs p).appended.length < N) :
    ∃ k', allocPageTable L k p = .ok k' ∧ Supplied A p k' := by
  obtain ⟨pa, idx, r, ha⟩ := hs.gives _ k.toRam hlt h
  unfold Os1000.allocPageTable
  refine ⟨_, bind_eq_ok.mpr ⟨_, ha, rfl⟩, ?_⟩
  unfold Supplied
  rw [recordRegion_appended, recordRegion_table, setProc_self]
  exact hs.keeps _ k.toRam pa idx r h ha

theorem Supplied.mapImagePage (hs : Supply A N) (hpart : Partition L k.regions) (h : Supplied A p k)
    (hlt : (k.procs p).appended.length + 1 < N) (image : List UInt8) {i : Nat}
    (hi : i < procRegionMax) :
    ∃ k', mapImagePage L image p k i = .ok k' ∧ Supplied A p k' := by
  obtain ⟨pa, idx, r, ha⟩ := hs.gives _ k.toRam (by omega) h
  have h1 : Supplied A p (imaged L k p pa idx r ((image.drop (i * pageSize)).take pageSize)) := by
    have := h.record (L := L) hs ha
    unfold Supplied at this ⊢
    unfold imaged
    dsimp only
    rw [setProc_self]
    exact this
  have hlen : ((imaged L k p pa idx r ((image.drop (i * pageSize)).take pageSize)).procs p).appended
      = (k.procs p).appended ++ [idx] := by
    unfold imaged
    dsimp only
    rw [setProc_self]
    exact recordRegion_appended L _ p idx
  have hspec := allocPages_spec ha
  have hpa : pa % pageSize = 0 := by
    have hp := partition_alloc hpart (by decide) (allocPages_ok.mp ha).1
    have := (hp.aligned idx ⟨hspec.lt, by rw [hspec.entry]; simp⟩).1
    rw [hspec.entry] at this
    exact this
  have hva : u32 (userBase + i * pageSize) % pageSize = 0 := by
    unfold procRegionMax at hi
    rw [u32_of_lt (by unfold userBase pageSize; omega)]
    unfold userBase pageSize
    omega
  obtain ⟨k', hm, hk'⟩ := h1.mapPage (L := L) hs
    (by rw [hlen, List.length_append, List.length_singleton]; exact hlt)
    (pageU ||| pageR ||| pageW ||| pageX) hva hpa
  unfold Os1000.mapImagePage
  exact ⟨k', bind_eq_ok.mpr ⟨_, ha, hm⟩, hk'⟩

/-- **An address space can be built** from a supply larger than what it takes. -/
theorem Supplied.buildSpace (image : List UInt8) (hs : Supply A N) (ho : Own L X k₀)
    (hp : p < procsMax) (happ : (k₀.procs p).appended = [])
    (himg : (k₀.procs p).imageRegions = [])
    (hfit : regionsNeeded L image.length ≤ procRegionMax + 1)
    (hN : regionsNeeded L image.length < N) (h : A [] k₀.regions) :
    ∃ k, buildSpace L k₀ p image = .ok k ∧ Supplied A p k := by
  unfold regionsNeeded at hfit hN
  obtain ⟨V, hVdef⟩ : ∃ V, V = spaceTables L (imagePages image.length) := ⟨_, rfl⟩
  have hlen := length_spaceTables L (imagePages image.length)
  rw [← hVdef] at hlen
  have h0 : Supplied A p k₀ := by unfold Supplied; rw [happ]; exact h
  -- what has been recorded never exceeds what the places of the tables allow
  have hroom : ∀ {t M}, Laid L k₀ p V t M → (t.procs p).imageRegions = [] →
      (t.procs p).appended.length < N := by
    intro t M hb hi
    have := hb.length_le
    rw [hi, List.length_nil] at this
    omega
  obtain ⟨k1, e1, s1⟩ := h0.allocPageTable (L := L) hs (by rw [happ, List.length_nil]; omega)
  obtain ⟨b1, i1⟩ := laid_allocPageTable (V := V) (ho.hold hp) hp happ himg e1
  obtain ⟨k2, e2, ⟨b2, i2⟩, s2⟩ := loopM_ok (f := fun k i => Os1000.mapPage L k p
      (kernelBase + i * pageSize) (kernelBase + i * pageSize) (pageR ||| pageW ||| pageX))
    (fun n t => (Laid L k₀ p V t (kernelMap n) ∧ (t.procs p).imageRegions = [])
      ∧ Supplied A p t) (kernelPages L) ⟨⟨laid_no_kernelPage b1, i1⟩, s1⟩ (by
    rintro n t hn ⟨⟨hb, hi⟩, hst⟩
    have hal : (kernelBase + n * pageSize) % pageSize = 0 := by
      unfold kernelBase pageSize; omega
    obtain ⟨t', hm, hst'⟩ := hst.mapPage (L := L) hs (hroom hb hi)
      (pageR ||| pageW ||| pageX) hal hal
    exact ⟨t', hm, laid_kernelPage hb hp hn (by rw [hVdef]; exact kernelPage_table hn _) hi hm,
      hst'⟩)
  obtain ⟨k3, e3, ⟨b3, i3⟩, s3⟩ := listM_ok (f := fun k paddr => Os1000.mapPage L k p paddr paddr
      (pageR ||| pageW))
    (fun ds t => (Laid L k₀ p V t (deviceMap (kernelMap (kernelPages L)) ds)
      ∧ (t.procs p).imageRegions = []) ∧ Supplied A p t) devicePages
    ⟨⟨laid_no_devicePage b2, i2⟩, s2⟩ (by
    rintro ds d post t hl ⟨⟨hb, hi⟩, hst⟩
    have hd : d ∈ devicePages := by rw [← hl]; simp
    have hal : d % pageSize = 0 := (devicePage_ok hd).2
    obtain ⟨t', hm, hst'⟩ := hst.mapPage (L := L) hs (hroom hb hi) (pageR ||| pageW) hal hal
    exact ⟨t', hm, laid_devicePage hb hp hd (by rw [hVdef]; exact devicePage_table L hd _) hi hm,
      hst'⟩)
  obtain ⟨k4, e4, _, s4⟩ := loopM_ok (f := Os1000.mapImagePage L image p)
    (fun n t => (Laid L k₀ p V t (imageMap L t p) ∧ ImageLoaded t p image n) ∧ Supplied A p t)
    (imagePages image.length) ⟨⟨laid_no_imagePage b3 i3, imageLoaded_nil i3 image⟩, s3⟩ (by
    rintro n t hn ⟨⟨hb, hl⟩, hst⟩
    have hle := hb.length_le
    rw [hl.length] at hle
    have hn' : n < procRegionMax := by omega
    obtain ⟨t', hm, hst'⟩ := hst.mapImagePage hs hb.hold.part (by omega) image hn'
    rw [hVdef] at hb ⊢
    exact ⟨t', hm, laid_imageStep hb hl hp hn hm, hst'⟩)
  refine ⟨k4, ?_, s4⟩
  unfold Os1000.buildSpace
  exact bind_eq_ok.mpr ⟨k1, e1, bind_eq_ok.mpr ⟨k2, e2, bind_eq_ok.mpr ⟨k3, e3, e4⟩⟩⟩

/-- **`create_process` succeeds** with a free slot and a supply of pages. -/
theorem Supply.createProcess (hs : Supply A N) (image : List UInt8) (ho : Own L X k)
    (hnil : ∀ q, q < procsMax → (k.procs q).state = .unused → (k.procs q).appended = [])
    (hp : p < procsMax) (hu : (k.procs p).state = .unused)
    (hlow : ∀ q, q < p → (k.procs q).state ≠ .unused)
    (hfit : regionsNeeded L image.length ≤ procRegionMax + 1)
    (hN : regionsNeeded L image.length < N) (h : A [] k.regions) :
    ∃ k', createProcess L k image = .ok (p, k') ∧ Supplied A p k'
      ∧ (k'.procs p).appended.length ≤ regionsNeeded L image.length := by
  have hfind : (List.range procsMax).find? (fun i => decide ((k.procs i).state = .unused))
      = some p := by
    rw [List.find?_range_eq_some]
    refine ⟨by simpa using hu, List.mem_range.mpr hp, fun q hq => ?_⟩
    simpa using hlow q hq
  have hr := resetProcess_spec L k p
  have ho0 := ho.reset hr (hnil p hp hu)
  obtain ⟨k1, hb, hk1⟩ := Supplied.buildSpace image hs ho0 hp hr.appended
    hr.imageRegions hfit hN (by rw [hr.table]; exact h)
  obtain ⟨hbuilt, himg⟩ := built_buildSpace ho0 hp hr.appended hr.imageRegions hfit hb
  have hle := hbuilt.length_le
  rw [himg, length_spaceTables] at hle
  refine ⟨k1.setProc p fun q =>
    { q with pid := p + 1, state := .runnable, sp := stackTop L p - 4 * 13 }, ?_, ?_, ?_⟩
  · unfold Os1000.createProcess
    rw [hfind]
    exact bind_eq_ok.mpr ⟨k1, hb, rfl⟩
  · unfold Supplied at hk1 ⊢
    rw [setProc_self]
    exact hk1
  · rw [setProc_self]
    unfold regionsNeeded
    exact hle

end

/-! ## Before anything is released -/

/--
A kernel in which nothing has been released yet: `n` regions are allocated, the processes are the
idle process in slot 0 and one in each of the slots `1` to `c`, and `o` objects have been made.
-/
structure Opening (L : Layout) (n c o : Nat) (k : Kernel) : Prop where
  inv : Inv L (fun _ => False) k
  plenty : Plenty n k.regions
  idle : k.idleProc = 0
  runnable : ∀ q, q ≤ c → (k.procs q).state = .runnable
  unused : ∀ q, c < q → q < procsMax → (k.procs q).state = .unused
  objects : k.shmCreated = o

section

variable {L : Layout} {n c o p q : Nat} {k k' : Kernel}

theorem Opening.blank (h : Opening L n c o k) (q : Nat) (hq : q < procsMax)
    (hu : (k.procs q).state = .unused) : (k.procs q).appended = [] :=
  (h.inv.settled.blank q hq hu).1

/-- The drivers get their pages. -/
theorem drivers_ok (L : Layout) (m : Mem) (f : Nat → ShmObject)
    (hf : ∀ s, s < shmMax → f s = .cleared) :
    ∃ k, driverPages.foldlM allocDriver { Kernel.zeroed m with
        toRam := initRegions L (Kernel.zeroed m).toRam, shmTable := f, nextShmId := 1 } = .ok k
      ∧ Plenty driverPages.length k.regions ∧ Own L (fun _ => False) k ∧ Blank k := by
  have hpages : ∀ d, d ∈ driverPages → u32 (d * pageSize) ≠ 0 ∧ d ≤ 8 := by decide
  refine listM_ok (f := allocDriver) (fun pre t => Plenty pre.length t.regions
    ∧ Own L (fun _ => False) t ∧ Blank t) driverPages
    ⟨plenty_init L _, own_zeroed L _ m hf, blank_zeroed m _ f⟩ ?_
  rintro pre d post t hl ⟨hpl, ho, hb⟩
  obtain ⟨hreq, hle⟩ := hpages d (by rw [← hl]; simp)
  have hlt : pre.length + 1 < maxRegions := by
    have h1 := congrArg List.length hl
    rw [List.length_append, List.length_cons] at h1
    have h2 : driverPages.length = 6 := rfl
    unfold maxRegions
    omega
  obtain ⟨r, ha, hpl', _⟩ := hpl.alloc ho.part hlt hle
  refine ⟨driven t (pre.length + 1) r, bind_eq_ok.mpr ⟨_, ha, rfl⟩, ?_, ho.driven hreq ha, hb.driven⟩
  rw [List.length_append, List.length_singleton]
  exact hpl'

/-- **The kernel boots**, if the idle process's page tables fit its record. -/
theorem boot_ok (m : Mem) (hfit : regionsNeeded L 0 ≤ procRegionMax) :
    ∃ k n, boot L m = .ok k ∧ n ≤ driverPages.length + regionsNeeded L 0 ∧ Opening L n 0 0 k
      ∧ k.currentProc = 0 ∧ Fits k := by
  obtain ⟨f, hf, hcl⟩ := shmInit_spec
    { Kernel.zeroed m with toRam := initRegions L (Kernel.zeroed m).toRam }
  obtain ⟨k1, h1, hpl, ho, hb⟩ := drivers_ok L m f hcl
  -- clearing the process table changes nothing the supply depends on
  obtain ⟨k2, hk2, hpl2, ho2, hb2⟩ : ∃ k2, (List.range procsMax).foldl (initProcess L) k1 = k2
      ∧ Plenty driverPages.length k2.regions ∧ Own L (fun _ => False) k2 ∧ Blank k2 := by
    refine ⟨_, rfl, ?_⟩
    refine loop_inv (fun _ t => Plenty driverPages.length t.regions
      ∧ Own L (fun _ => False) t ∧ Blank t) procsMax ⟨hpl, ho, hb⟩ ?_
    rintro i t _ ⟨g1, g2, g3⟩
    have hspec := (initProcess_spec L (g3.appended i) (g3.imageRegions i)).1
    exact ⟨by rw [hspec.table]; exact g1, g2.reset hspec (g3.appended i), blank_initProcess g3 i⟩
  have h6 : driverPages.length = 6 := rfl
  have hnil : ∀ q, q < procsMax → (k2.procs q).state = .unused → (k2.procs q).appended = [] :=
    fun q _ _ => hb2.appended q
  obtain ⟨k3, h3, hs3, hlen3⟩ := (plenty_supply L driverPages.length).createProcess (p := 0)
    [] ho2 hnil (by decide) (hb2.state 0) (fun q hq => absurd hq (Nat.not_lt_zero q))
    (Nat.le_succ_of_le hfit)
    (show regionsNeeded L 0 < _ by unfold maxRegions; unfold procRegionMax at hfit; omega)
    ⟨hpl2, ho2.part, rfl⟩
  have hboot : boot L m = .ok
      { k3.setProc 0 fun q => { q with pid := 0 } with idleProc := 0, currentProc := 0 } := by
    unfold boot
    refine bind_eq_ok.mpr ⟨k1, by rw [hf]; exact h1, ?_⟩
    unfold initProcesses
    rw [hk2]
    exact bind_eq_ok.mpr ⟨(0, k3), h3, rfl⟩
  have hmade := made_createProcess h3
  refine ⟨_, _, hboot, Nat.add_le_add_left hlen3 _, ⟨inv_boot ⟨m, hboot⟩ hfit, hs3.1, rfl, ?_, ?_, ?_⟩,
    rfl, ?_⟩
  · intro q hq
    obtain rfl : q = 0 := by omega
    dsimp only
    rw [setProc_self]
    exact hmade.state
  · intro q hq _
    dsimp only
    rw [setProc_of_ne _ _ _ (by omega), hmade.procs q (by omega)]
    exact hb2.state q
  · exact (noObjects_boot ⟨m, hboot⟩).none
  · intro q _
    dsimp only
    by_cases hq : q = 0
    · rw [hq, setProc_self]
      exact hlen3.trans hfit
    · rw [setProc_of_ne _ _ _ hq, hmade.procs q hq, hb2.appended q]
      exact Nat.zero_le _

/-- A process can be created in the next slot. -/
theorem Opening.create (h : Opening L n c o k) (image : List UInt8) (hc : c + 1 < procsMax)
    (hfit : regionsNeeded L image.length ≤ procRegionMax)
    (hroom : n + regionsNeeded L image.length < maxRegions - 1) (hfew : o < 2 ^ 31 - 1) :
    ∃ k' n', Step L k (.create image (c + 1)) k' ∧ n' ≤ n + regionsNeeded L image.length
      ∧ Opening L n' (c + 1) o k' ∧ k'.currentProc = k.currentProc
      ∧ k'.shmTable = k.shmTable ∧ FewObjects k' ∧ (Fits k → Fits k') := by
  have hused : ∀ q, q < c + 1 → (k.procs q).state ≠ .unused := by
    intro q hq
    rw [h.runnable q (by omega)]
    decide
  obtain ⟨k', hk', hs, hlen⟩ := (plenty_supply L n).createProcess (p := c + 1) image
    h.inv.own h.blank hc (h.unused _ (by omega) hc) hused (Nat.le_succ_of_le hfit) (by omega)
    ⟨h.plenty, h.inv.own.part, rfl⟩
  have hmade := made_createProcess hk'
  have hob : k'.shmCreated = o := hmade.shmCreated.trans h.objects
  have hf : FewObjects k' := by unfold FewObjects; rw [hob]; exact hfew
  have hstep : Step L k (.create image (c + 1)) k' := .create hk'
  refine ⟨k', _, hstep, Nat.add_le_add_left hlen n, ⟨?_, hs.1, ?_, ?_, ?_, hob⟩, hmade.currentProc,
    hmade.shmTable, hf, ?_⟩
  · exact inv_step h.inv hstep hfit hf fun _ e => by cases e
  · rw [hmade.idleProc]; exact h.idle
  · intro q hq
    by_cases hqc : q = c + 1
    · rw [hqc]; exact hmade.state
    · rw [hmade.procs q hqc]; exact h.runnable q (by omega)
  · intro q hq hlt
    rw [hmade.procs q (by omega)]
    exact h.unused q (by omega) hlt
  · intro hfits q hq
    by_cases hqc : q = c + 1
    · rw [hqc]; exact hlen.trans hfit
    · rw [hmade.procs q hqc]; exact hfits q hq

/-- The calls that create `c` processes without an image. -/
def creates (c : Nat) : List Event := (List.range c).map fun i => .create [] (i + 1)

/-- **Boot, and then as many processes as there is room for.** -/
theorem opening_run {I : Kernel → Prop} {S : Kernel → Event → Kernel → Prop}
    (hfit : regionsNeeded L 0 ≤ procRegionMax) (hinit : ∀ k, Booted L k → Fits k → I k)
    (hstep : ∀ k k' p, Step L k (.create [] p) k' → FewObjects k' → Fits k' →
      S k (.create [] p) k') :
    ∀ c, c < procsMax → driverPages.length + (c + 1) * regionsNeeded L 0 < maxRegions - 1 →
      ∃ k n, Run I S (creates c) k ∧ n ≤ driverPages.length + (c + 1) * regionsNeeded L 0
        ∧ Opening L n c 0 k ∧ k.currentProc = 0 ∧ NoObjects k ∧ Fits k := by
  intro c
  induction c with
  | zero =>
      intro _ _
      obtain ⟨k, n, hb, hn, ho, hcur, hf⟩ := boot_ok (L := L) (fun _ => 0) hfit
      refine ⟨k, n, .start (hinit k ⟨_, hb⟩ hf), ?_, ho, hcur, noObjects_boot ⟨_, hb⟩, hf⟩
      rw [Nat.zero_add, Nat.one_mul]
      exact hn
  | succ c ih =>
      intro hc hroom
      rw [Nat.add_mul, Nat.one_mul] at hroom
      obtain ⟨k, n, hrun, hn, ho, hcur, hno, hf⟩ := ih (by omega) (by omega)
      have hpos : 1 ≤ regionsNeeded L 0 := by unfold regionsNeeded; omega
      obtain ⟨k', n', hs, hn', ho', hcur', htab, hfew, hf'⟩ := ho.create [] hc hfit
        (show n + regionsNeeded L 0 < _ by omega) (by decide)
      refine ⟨k', n', ?_, ?_, ho', hcur'.trans hcur, ?_, hf' hf⟩
      · unfold creates
        rw [List.range_succ, List.map_append]
        exact .snoc hrun (hstep k k' _ hs hfew (hf' hf))
      · rw [Nat.add_mul, Nat.one_mul, ← Nat.add_assoc]
        exact hn'.trans (Nat.add_le_add_right hn _)
      · cases hs with
        | create hc' => exact hno.local (made_createProcess hc').toLocal

/-- A plain `yield` cannot fail. -/
theorem Opening.yield (h : Opening L n c o k) (hfew : o < 2 ^ 31 - 1) :
    Step L k (.yield (findNext k)) (scheduled k) ∧ Opening L n c o (scheduled k) := by
  have hstep := h.inv.settled.yield_step L
  refine ⟨hstep, ⟨?_, h.plenty, h.idle, h.runnable, h.unused, h.objects⟩⟩
  refine inv_step h.inv hstep trivial ?_ fun _ e => by cases e
  unfold FewObjects
  rw [show (scheduled k).shmCreated = o from h.objects]
  exact hfew

theorem Opening.eligible (h : Opening L n c o k) (hq : 1 ≤ q) (hqc : q ≤ c) (hlt : c < procsMax) :
    Eligible k q := by
  refine ⟨h.runnable q hqc, ?_⟩
  rw [h.inv.settled.pid q (by omega) (by rw [h.idle]; omega) (h.runnable q hqc)]
  omega

/-- From the idle process the scan comes to slot 1 first. -/
theorem Opening.next_idle (h : Opening L n c o k) (hcur : k.currentProc = 0) (hc : 1 ≤ c)
    (hlt : c < procsMax) : findNext k = 1 := by
  have hpid : (k.procs 0).pid = 0 := h.idle ▸ h.inv.settled.idle_pid
  have hscan : ∀ i, scanSlot k i = i % procsMax := by
    intro i
    unfold scanSlot
    rw [hcur, hpid, Nat.zero_add]
  refine findNext_eq (i := 1) (by decide) (by rw [hscan]; rfl) (h.eligible (by omega) hc hlt) ?_
  intro j hj hel
  obtain rfl : j = 0 := by omega
  rw [hscan] at hel
  have := hel.2
  rw [show 0 % procsMax = 0 from rfl, hpid] at this
  omega

/-- From any other process it comes to the slot after it first. -/
theorem Opening.next (h : Opening L n c o k) (hcur : k.currentProc = p) (hp : 1 ≤ p)
    (hc : p + 1 ≤ c) (hlt : c < procsMax) : findNext k = p + 1 := by
  have hpid := h.inv.settled.pid p (by omega) (by rw [h.idle]; omega) (h.runnable p (by omega))
  refine findNext_eq (i := 0) (by decide) ?_ (h.eligible (by omega) hc hlt) fun j hj => by omega
  unfold scanSlot
  rw [hcur, hpid]
  exact Nat.mod_eq_of_lt (by omega)

/-- What a call on behalf of a live process leaves as it was. -/
theorem Opening.keep {n' o' : Nat} (h : Opening L n c o k) (hk : Keep p k k')
    (hinv : Inv L (fun _ => False) k') (hpl : Plenty n' k'.regions) (ho : k'.shmCreated = o') :
    Opening L n' c o' k' := by
  have hst : ∀ q, (k'.procs q).state = (k.procs q).state := by
    intro q
    by_cases hq : q = p
    · rw [hq]; exact hk.state
    · rw [hk.procs q hq]
  refine ⟨hinv, hpl, by rw [hk.idleProc]; exact h.idle, ?_, ?_, ho⟩
  · intro q hq
    rw [hst]; exact h.runnable q hq
  · intro q hq hlt
    rw [hst]; exact h.unused q hq hlt

/-- A key that no object has makes one in the lowest free slot of the table. -/
theorem shmGet_new {key : Int} {s pa idx : Nat} {r : Ram} (hkey : 0 < key)
    (hnone : findByKey k key = none) (hs : s < shmMax) (hu : (k.shmTable s).used = false)
    (hlow : ∀ j, j < s → (k.shmTable j).used = true)
    (ha : allocPages k.toRam 1 = .ok (pa, idx, r)) :
    Os1000.shmGet k key = .ok (k.nextShmId, created k s key pa idx r) := by
  have hfind : (List.range shmMax).find? (fun i => !(k.shmTable i).used) = some s := by
    rw [List.find?_range_eq_some]
    refine ⟨by simp [hu], List.mem_range.mpr hs, fun j hj => ?_⟩
    simp [hlow j hj]
  unfold Os1000.shmGet
  rw [if_neg (by omega), hnone]
  dsimp only
  rw [hfind]
  exact bind_eq_ok.mpr ⟨_, ha, rfl⟩

/-- `shm_get` takes the next slot of the region table for a new object. -/
theorem plenty_shmGet {key : Int} {s : Nat} (h : Plenty n k.regions)
    (hpart : Partition L k.regions) (hkey : 0 < key) (hnone : findByKey k key = none)
    (hs : s < shmMax) (hu : (k.shmTable s).used = false)
    (hlow : ∀ j, j < s → (k.shmTable j).used = true) (hroom : n + 1 < maxRegions) :
    ∃ r, allocPages k.toRam 1 = .ok ((k.regions 0).start, n + 1, r)
      ∧ Os1000.shmGet k key
        = .ok (k.nextShmId, created k s key (k.regions 0).start (n + 1) r)
      ∧ Plenty (n + 1) r.regions ∧ stopOf r.regions (n + 1) = (r.regions 0).start := by
  obtain ⟨r, ha, hpl, hstop⟩ := h.alloc hpart hroom (show 1 ≤ 8 by omega)
  exact ⟨r, ha, shmGet_new hkey hnone hs hu hlow ha, hpl, hstop⟩

/-- An object can be made in the lowest free slot of the table. -/
theorem Opening.shmGet {key : Int} {s : Nat} (h : Opening L n c o k) (hl : Live k p)
    (hkey : 0 < key) (hnone : findByKey k key = none) (hs : s < shmMax)
    (hu : (k.shmTable s).used = false) (hlow : ∀ j, j < s → (k.shmTable j).used = true)
    (hroom : n + 1 < maxRegions) (hfew : o + 1 < 2 ^ 31 - 1) :
    ∃ r, Step L k (.shmGet p key (o + 1)) (created k s key (k.regions 0).start (n + 1) r)
      ∧ Opening L (n + 1) c (o + 1) (created k s key (k.regions 0).start (n + 1) r)
      ∧ stopOf r.regions (n + 1) = (r.regions 0).start
      ∧ FewObjects (created k s key (k.regions 0).start (n + 1) r) := by
  obtain ⟨r, _, hget, hpl, hstop⟩ := plenty_shmGet h.plenty h.inv.own.part hkey hnone hs hu hlow hroom
  have hid : k.nextShmId = (o : Int) + 1 := by rw [h.inv.ids.next, h.objects]
  rw [hid] at hget
  have hstep : Step L k (.shmGet p key (o + 1)) _ := .shmGet hl hget
  have hob : (created k s key (k.regions 0).start (n + 1) r).shmCreated = o + 1 := by
    show k.shmCreated + 1 = o + 1
    rw [h.objects]
  have hf : FewObjects (created k s key (k.regions 0).start (n + 1) r) := by
    unfold FewObjects; rw [hob]; exact hfew
  exact ⟨r, hstep, h.keep (keep_shmGet p hget)
    (inv_step h.inv hstep trivial hf fun _ e => by cases e) hpl hob, hstop, hf⟩

/-- An object can be attached in the lowest free slot of the window. -/
theorem Opening.shmAttach {s i : Nat} (h : Opening L n c o k) (hl : Live k p) (hs : s < shmMax)
    (hu : (k.shmTable s).used = true) (hi : i < procShmMax)
    (hfree : ((k.procs p).shmMappings i).used = 0)
    (hlow : ∀ j, j < i → ((k.procs p).shmMappings j).used ≠ 0)
    (hroom : n + 1 < maxRegions) (hfew : o < 2 ^ 31 - 1) :
    ∃ k1 n', mapPage L k p (slotAddr i) (k.shmTable s).pa (pageU ||| pageR ||| pageW) = .ok k1
      ∧ Step L k (.shmAttach p (k.shmTable s).id (slotAddr i))
        (attached k1 p i s (k.shmTable s).id)
      ∧ n' ≤ n + 1 ∧ Opening L n' c o (attached k1 p i s (k.shmTable s).id)
      ∧ FewObjects (attached k1 p i s (k.shmTable s).id)
      ∧ (entry1 k p (vpn1 (slotAddr i)) &&& pageV ≠ 0 → k1.regions = k.regions ∧ n' = n) := by
  have hpa : (k.shmTable s).pa % pageSize = 0 := by
    obtain ⟨h1, h2⟩ := h.inv.own.of_holds (o := .shm s) ⟨hs, hu, rfl⟩
    have := (h.inv.own.part.aligned (k.shmTable s).regionIdx ⟨h1, by rw [h2]; decide⟩).1
    rw [h.inv.own.shmPa s hs hu]
    exact this
  -- at most one table is allocated
  obtain ⟨k0, n', hen, hn', hpl, hno⟩ : ∃ k0 n', ensureTable L k p (vpn1 (slotAddr i)) = .ok k0
      ∧ n' ≤ n + 1 ∧ Plenty n' k0.regions
      ∧ (entry1 k p (vpn1 (slotAddr i)) &&& pageV ≠ 0 → k0.regions = k.regions ∧ n' = n) := by
    by_cases he : entry1 k p (vpn1 (slotAddr i)) &&& pageV = 0
    · obtain ⟨r, ha, hpl, _⟩ := h.plenty.alloc h.inv.own.part hroom (show 1 ≤ 8 by omega)
      refine ⟨_, n + 1, ensureTable_of_alloc he ha, le_refl _, ?_, fun hne => absurd he hne⟩
      show Plenty (n + 1) (recordRegion L { k with toRam := r } p (n + 1)).regions
      rw [recordRegion_table]
      exact hpl
    · exact ⟨k, n, ensureTable_of_valid he, by omega, h.plenty, fun _ => ⟨rfl, rfl⟩⟩
  obtain ⟨k1, hm, hk1⟩ : ∃ k1, mapPage L k p (slotAddr i) (k.shmTable s).pa
      (pageU ||| pageR ||| pageW) = .ok k1 ∧ k1.regions = k0.regions := by
    unfold mapPage
    dsimp only
    rw [if_neg (fun hne => hne (slotAddr_aligned i)), if_neg (fun hne => hne hpa)]
    exact ⟨_, bind_eq_ok.mpr ⟨k0, hen, rfl⟩, rfl⟩
  have hfind : (List.range procShmMax).find?
      (fun i => decide (((k.procs p).shmMappings i).used = 0)) = some i := by
    rw [List.find?_range_eq_some]
    refine ⟨by simpa using hfree, List.mem_range.mpr hi, fun j hj => ?_⟩
    simpa using hlow j hj
  have hat : Os1000.shmAttach L k p (k.shmTable s).id
      = .ok (slotAddr i, attached k1 p i s (k.shmTable s).id) := by
    unfold Os1000.shmAttach
    rw [h.inv.ids.findById_eq hs hu]
    dsimp only
    rw [hfind]
    exact bind_eq_ok.mpr ⟨k1, hm, rfl⟩
  have hstep : Step L k (.shmAttach p (k.shmTable s).id (slotAddr i)) _ := .shmAttach hl hat
  have hob : (attached k1 p i s (k.shmTable s).id).shmCreated = o :=
    (thins_shmAttach hat).shmCreated.trans h.objects
  have hf : FewObjects (attached k1 p i s (k.shmTable s).id) := by
    unfold FewObjects; rw [hob]; exact hfew
  refine ⟨k1, n', hm, hstep, hn', h.keep (keep_shmAttach hat)
    (inv_step h.inv hstep trivial hf fun _ e => by cases e) ?_ hob, hf, fun he => ?_⟩
  · show Plenty n' k1.regions
    rw [hk1]
    exact hpl
  · rw [hk1]
    exact hno he

/-- Nothing is attached while there is no object. -/
theorem NoObjects.unmapped (hno : NoObjects k) (h : Opening L n c o k) (hp : p < procsMax) {i : Nat}
    (hi : i < procShmMax) : ((k.procs p).shmMappings i).used = 0 := by
  by_contra hu
  obtain ⟨s, hs, hus, _⟩ := h.inv.counted.named p hp i hi hu
  rw [hno.unused s hs] at hus
  cases hus

theorem Opening.live (h : Opening L n c o k) (hp : p ≤ c) (hc : c < procsMax) : Live k p :=
  ⟨by omega, by rw [h.runnable p hp]; decide⟩

/-- **Process 1 runs and has made an object**, the first one, which nobody has attached. -/
theorem gotten_run (hfit : regionsNeeded L 0 ≤ procRegionMax)
    (hroom : driverPages.length + 2 * regionsNeeded L 0 + 2 < maxRegions) :
    ∃ k n, GuardedRun L (creates 1 ++ [.yield 1] ++ [.shmGet 1 1 1]) k
      ∧ n ≤ driverPages.length + 2 * regionsNeeded L 0 + 1 ∧ Opening L n 1 1 k
      ∧ k.currentProc = 1 ∧ (∀ p i, p < procsMax → i < procShmMax →
        ((k.procs p).shmMappings i).used = 0)
      ∧ ((k.shmTable 0).used = true ∧ (k.shmTable 0).id = 1 ∧ (k.shmTable 0).key = 1
        ∧ (k.shmTable 0).refcount = 0)
      ∧ ∀ s, s < shmMax → s ≠ 0 → (k.shmTable s).used = false := by
  obtain ⟨k0, n, hrun, hn, h0, hcur, hno, _⟩ := opening_run (L := L)
    (I := fun k => Booted L k ∧ regionsNeeded L 0 ≤ procRegionMax)
    (S := fun k e k' => Step L k e k' ∧ ImageFits L e ∧ FewObjects k') hfit
    (fun _ hb _ => ⟨hb, hfit⟩) (fun _ _ _ hs hf _ => ⟨hs, hfit, hf⟩) 1 (by decide) (by omega)
  obtain ⟨hs1, h1⟩ := h0.yield (by decide)
  have hnext := h0.next_idle hcur (by decide) (by decide)
  rw [hnext] at hs1
  have hfew1 : FewObjects (scheduled k0) := by
    show k0.shmCreated < _
    rw [h0.objects]; decide
  have hrun1 := Run.snoc hrun ⟨hs1, trivial, hfew1⟩
  have hno1 : NoObjects (scheduled k0) := ⟨hno.next, hno.none, hno.released, hno.unused⟩
  obtain ⟨k1, hk1⟩ : ∃ k1, scheduled k0 = k1 := ⟨_, rfl⟩
  have hcur1 : (scheduled k0).currentProc = 1 := hnext
  rw [hk1] at hrun1 h1 hno1 hcur1
  have hnone : findByKey k1 1 = none :=
    findByKey_none_iff.mpr fun s hs hu => absurd hu (by rw [hno1.unused s hs]; decide)
  obtain ⟨r, hs2, h2, _, hfew2⟩ := h1.shmGet (h1.live (p := 1) (by decide) (by decide))
    (by decide) hnone (show 0 < shmMax by decide) (hno1.unused 0 (by decide))
    (fun j hj => absurd hj (Nat.not_lt_zero j)) (by omega) (by decide)
  refine ⟨_, _, Run.snoc hrun1 ⟨hs2, trivial, hfew2⟩, by omega, h2, hcur1, ?_, ?_, ?_⟩
  · exact fun p i hp hi => hno1.unmapped h1 hp hi
  · rw [created_self]
    exact ⟨rfl, hno1.next, rfl, rfl⟩
  · intro s hs hne
    rw [created_of_ne _ _ _ _ _ hne]
    exact hno1.unused s hs

/-- **Process 1 has attached the object it made.** -/
theorem attached_run (hfit : regionsNeeded L 0 ≤ procRegionMax)
    (hroom : driverPages.length + 2 * regionsNeeded L 0 + 3 < maxRegions) :
    ∃ k n, GuardedRun L
        (creates 1 ++ [.yield 1] ++ [.shmGet 1 1 1] ++ [.shmAttach 1 1 (slotAddr 0)]) k
      ∧ n ≤ driverPages.length + 2 * regionsNeeded L 0 + 2 ∧ Opening L n 1 1 k
      ∧ k.currentProc = 1 ∧ Names k 1 1 0
      ∧ (∀ i, i < procShmMax → i ≠ 0 → ((k.procs 1).shmMappings i).used = 0)
      ∧ ((k.shmTable 0).used = true ∧ (k.shmTable 0).id = 1 ∧ (k.shmTable 0).key = 1
        ∧ (k.shmTable 0).refcount = 1)
      ∧ ∀ s, s < shmMax → s ≠ 0 → (k.shmTable s).used = false := by
  obtain ⟨k, n, hrun, hn, h, hcur, hmap, ⟨hu, hid, hkey, href⟩, hrest⟩ :=
    gotten_run hfit (by omega)
  obtain ⟨k1, n', hm, hs, hn', h', hfew, _⟩ := h.shmAttach (p := 1) (i := 0)
    (h.live (by decide) (by decide)) (show 0 < shmMax by decide) hu (by decide)
    (hmap 1 0 (by decide) (by decide)) (fun j hj => absurd hj (Nat.not_lt_zero j)) (by omega)
    (by decide)
  rw [hid] at hs h' hfew
  have hgrow := grow_mapPage hm
  have hmap1 : (k1.procs 1).shmMappings = (k.procs 1).shmMappings := by
    obtain ⟨hlt, hst⟩ := h.live (p := 1) (by decide) (by decide)
    obtain ⟨root, T, hsp⟩ := h.inv.spaces 1 hlt hst
    obtain ⟨T', hr⟩ := hsp.mapPage_window h.inv.own hlt (show 0 < procShmMax by decide)
      (show 0 < shmMax by decide) hu hm
    exact hr.mappings
  refine ⟨_, n', Run.snoc hrun ⟨hs, trivial, hfew⟩, by omega, h', ?_, ?_, ?_, ?_, ?_⟩
  · exact hgrow.currentProc.trans hcur
  · unfold Names attached
    rw [setObj_procs, setMapping_self]
    dsimp only
    rw [Function.update_self]
    exact ⟨by decide, rfl⟩
  · intro i hi hne
    unfold attached
    rw [setObj_procs, setMapping_self]
    dsimp only
    rw [Function.update_of_ne hne, hmap1]
    exact hmap 1 i (by decide) hi
  · unfold attached
    rw [setObj_self, hgrow.shmTable]
    exact ⟨hu, hid, hkey, by rw [href]; rfl⟩
  · intro s hs' hne
    unfold attached
    rw [setObj_of_ne _ _ _ hne, setMapping_shmTable, hgrow.shmTable]
    exact hrest s hs' hne

/-! ## Exit -/

/-- **`SYS_EXIT` never panics.** -/
theorem exit_ok {X : Nat → Prop} (ho : Own L X k) (hl : Live k k.currentProc)
    (hi : k.currentProc ≠ k.idleProc) :
    ∃ k1, releaseProcess L (exiting k) k.currentProc = .ok k1
      ∧ Step L k (.exit k.currentProc (findNext k1)) (scheduled k1) := by
  obtain ⟨k1, h1, _⟩ := exit_spec (X := fun _ => True) (ho.mono fun _ _ => trivial) hl.1
    fun _ _ _ => trivial
  refine ⟨k1, h1, ?_⟩
  have hex : sysExit L k = .ok (scheduled k1) := by
    unfold sysExit yield
    dsimp only
    rw [setProc_currentProc, setProc_self, if_pos rfl]
    exact bind_eq_ok.mpr ⟨k1, h1, rfl⟩
  exact .exit hl hi hex

end

end Os1000.Proof
