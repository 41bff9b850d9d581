import Os1000.Proof.UserPrograms

/-!
# The kernel in every address space

`yield` loads the page table of the next process and goes on, and a trap is handled under the table
of the process it came from. So every table must show the kernel where it is. Here this is an
invariant of whole runs, with programs that write wherever they can: whatever was created, attached
and detached, each table maps the memory of the kernel and its devices onto themselves, and what
else the kernel reaches under it is memory of the process, which it cannot execute.
-/

namespace Os1000.Proof

open Os1000 Lib

/-- The memory of the kernel: its image, and all that it allocates from. -/
def KernelAddr (L : Layout) (va : Nat) : Prop := kernelBase ≤ va ∧ va < L.freeRamEnd

/-- The registers of the devices. -/
def DeviceAddr (va : Nat) : Prop := ∃ d, d ∈ devicePages ∧ d ≤ va ∧ va < d + pageSize

section

variable {L : Layout} {X : Nat → Prop} {k : Kernel} {p v va perm : Nat}

theorem kernelAddr_iff :
    KernelAddr L va ↔ kernelVpn ≤ va / 4096 ∧ va / 4096 < kernelVpn + kernelPages L := by
  have hal := L.freeRam_aligned
  have hge := L.procs_ge
  have hle := L.procs_le
  unfold KernelAddr kernelVpn kernelPages Layout.freeRamEnd
  unfold kernelBase pageSize freeRamSize at *
  omega

theorem deviceAddr_iff : DeviceAddr va ↔ va / 4096 * pageSize ∈ devicePages := by
  constructor
  · intro ⟨d, hd, hle, hlt⟩
    obtain ⟨_, hal⟩ := devicePage_ok hd
    have : va / 4096 * pageSize = d := by
      unfold pageSize at *
      omega
    rwa [this]
  · intro hd
    refine ⟨_, hd, ?_, ?_⟩
    · exact Nat.div_mul_le_self va 4096
    · unfold pageSize
      omega

/-! ## What a leaf word of the map can be -/

/-- A page of the kernel, a page of registers, or nothing. -/
theorem baseMap_cases (L : Layout) (v : Nat) : baseMap L v = 0
    ∨ (v * pageSize ∈ devicePages ∧ baseMap L v = pte (v * pageSize) deviceFlags)
    ∨ (kernelVpn ≤ v ∧ v < kernelVpn + kernelPages L
      ∧ baseMap L v = pte (v * pageSize) kernelFlags) := by
  unfold baseMap deviceMap
  by_cases hd : v * pageSize ∈ devicePages
  · rw [if_pos hd]
    exact Or.inr (Or.inl ⟨hd, rfl⟩)
  · rw [if_neg hd]
    unfold kernelMap
    by_cases hk : kernelVpn ≤ v ∧ v < kernelVpn + kernelPages L
    · rw [if_pos hk]
      exact Or.inr (Or.inr ⟨hk.1, hk.2, rfl⟩)
    · rw [if_neg hk]
      exact Or.inl rfl

theorem windowWord_cases (k : Kernel) (p i : Nat) :
    windowWord k p i = 0 ∨ windowWord k p i &&& pageU ≠ 0 := by
  unfold windowWord
  split
  · cases findById k ((k.procs p).shmMappings i).shmId with
    | none => exact Or.inl rfl
    | some s =>
        refine Or.inr ?_
        dsimp only
        rw [pte_and (by decide) (by decide)]
        decide
  · exact Or.inl rfl

/-- A user page, or what every process maps. -/
theorem spaceMap_cases (L : Layout) (k : Kernel) (p v : Nat) : spaceMap L k p v = 0
    ∨ spaceMap L k p v &&& pageU ≠ 0 ∨ spaceMap L k p v = baseMap L v := by
  unfold spaceMap
  split
  · rcases windowWord_cases k p (v - windowVpn) with h | h
    · exact Or.inl h
    · exact Or.inr (Or.inl h)
  · unfold imageMap
    split
    · refine Or.inr (Or.inl ?_)
      rw [pte_and (by decide) (by decide)]
      decide
    · exact Or.inr (Or.inr rfl)

/-- An access of the kernel depends on the walk only, too. -/
theorem Inv.supervisorAddr_walk (h : Inv L X k) (hl : Live k p) :
    supervisorAddr k.mem (k.procs p).pageTable va perm
      = (walk k.mem (k.procs p).pageTable va).bind fun e =>
        if e &&& perm = 0 ∨ (perm = pageX ∧ e &&& pageU ≠ 0) then none
        else some (ptePage e + va % pageSize) := by
  unfold supervisorAddr
  cases walk k.mem (k.procs p).pageTable va with
  | none => rfl
  | some e =>
      show (if _ then none else if _ then _ else _) = (if _ then none else _)
      split
      · rfl
      · rw [if_neg (not_not.mpr (h.entry1_link hl va))]

/-- A page that is mapped onto itself. -/
theorem identity_page {flags : Nat} (hva : va < 2 ^ 32) (hf : flags < 1024) :
    ptePage (pte (va / 4096 * pageSize) flags) + va % pageSize = va := by
  have hal : va / 4096 * pageSize % 4096 = 0 := Nat.mul_mod_left _ _
  have hlt : va / 4096 * pageSize < 2 ^ 32 := by
    unfold pageSize
    omega
  rw [ptePage_pte hal hlt hf]
  unfold pageSize
  omega

/-! ## The kernel and its devices -/

theorem Inv.images_lt (h : Inv L X k) (hl : Live k p) :
    (k.procs p).imageRegions.length < maxRegions := by
  obtain ⟨root, T, hsp⟩ := h.spaces p hl.1 hl.2
  have hfits := hsp.fits
  unfold procRegionMax at hfits
  unfold maxRegions
  omega

/-- Neither the image nor the window gets in the way of the kernel. -/
theorem Inv.spaceMap_kernel (h : Inv L X k) (hl : Live k p) (hv : kernelVpn ≤ v)
    (hlt : v < kernelVpn + kernelPages L) :
    spaceMap L k p v = pte (v * pageSize) kernelFlags := by
  have hwin : ¬ (windowVpn ≤ v ∧ v < windowVpn + procShmMax) := by
    have hw : windowVpn + procShmMax ≤ kernelVpn := by decide
    omega
  unfold spaceMap
  rw [if_neg hwin]
  exact imageMap_of_kernel (h.images_lt hl) hv hlt

theorem Inv.spaceMap_device (h : Inv L X k) (hl : Live k p) (hd : v * pageSize ∈ devicePages) :
    spaceMap L k p v = pte (v * pageSize) deviceFlags := by
  have hwin : ∀ d, d ∈ devicePages → ¬ (windowVpn ≤ d / 4096 ∧ d / 4096 < windowVpn + procShmMax) := by
    decide
  have hv : v * pageSize / 4096 = v := Nat.mul_div_cancel v (by decide)
  have hwin := hwin _ hd
  have hmap := imageMap_of_device (L := L) (h.images_lt hl) hd
  rw [hv] at hwin hmap
  unfold spaceMap
  rw [if_neg hwin]
  exact hmap

/-- The kernel reaches a page that is mapped onto itself where it is. -/
theorem Inv.supervisor_identity {flags : Nat} (h : Inv L X k) (hl : Live k p) (hva : va < 2 ^ 32)
    (hmap : spaceMap L k p (va / 4096) = pte (va / 4096 * pageSize) flags) (hf : flags < 1024)
    (hperm : perm < 1024) (hp : (flags ||| pageV) &&& perm ≠ 0) (hu : (flags ||| pageV) &&& pageU = 0) :
    supervisorAddr k.mem (k.procs p).pageTable va perm = some va := by
  obtain ⟨root, T, hsp⟩ := h.spaces p hl.1 hl.2
  rw [h.supervisorAddr_walk hl, hsp.walk_eq h.own hl.1 hva, hmap, if_neg (pte_valid hf)]
  show (if _ then none else some _) = some va
  rw [pte_and hf hperm, pte_and hf (by decide), hu, if_neg, identity_page hva hf]
  rintro (h0 | ⟨_, h0⟩)
  · exact hp h0
  · exact h0 rfl

/-- What the kernel reaches otherwise. -/
theorem Inv.supervisor_some {a : Nat} (h : Inv L X k) (hl : Live k p) (hva : va < 2 ^ 32)
    (hperm : perm < 1024) (ha : supervisorAddr k.mem (k.procs p).pageTable va perm = some a) :
    (perm ≠ pageX ∧ userAddr k.mem (k.procs p).pageTable va perm = some a)
    ∨ (a = va ∧ KernelAddr L va)
    ∨ (a = va ∧ DeviceAddr va ∧ (deviceFlags ||| pageV) &&& perm ≠ 0) := by
  obtain ⟨root, T, hsp⟩ := h.spaces p hl.1 hl.2
  rw [h.supervisorAddr_walk hl] at ha
  obtain ⟨e, hw, he⟩ := Option.bind_eq_some_iff.mp ha
  split at he
  · cases he
  · rename_i hno
    obtain ⟨hp, hx⟩ := not_or.mp hno
    have hwalk := hw
    rw [hsp.walk_eq h.own hl.1 hva] at hw
    split at hw
    · cases hw
    · obtain rfl := Option.some.inj hw
      by_cases hu : spaceMap L k p (va / 4096) &&& pageU = 0
      · -- not a user page, so it is one that every process maps
        have hbase : spaceMap L k p (va / 4096) = baseMap L (va / 4096) := by
          rcases spaceMap_cases L k p (va / 4096) with h0 | h0 | h0
          · exact absurd (by rw [h0]; exact Nat.zero_and perm) hp
          · exact absurd hu h0
          · exact h0
        rw [hbase] at hp he
        rcases baseMap_cases L (va / 4096) with h0 | ⟨hd, h0⟩ | ⟨hk, hk', h0⟩
        · exact absurd (by rw [h0]; exact Nat.zero_and perm) hp
        · rw [h0, pte_and (by decide) hperm] at hp
          rw [h0, identity_page hva (by decide)] at he
          exact Or.inr (Or.inr ⟨(Option.some.inj he).symm, deviceAddr_iff.mpr hd, hp⟩)
        · rw [h0, identity_page hva (by decide)] at he
          exact Or.inr (Or.inl ⟨(Option.some.inj he).symm, kernelAddr_iff.mpr ⟨hk, hk'⟩⟩)
      · refine Or.inl ⟨fun hxp => hx ⟨hxp, hu⟩, ?_⟩
        rw [h.userAddr_walk hl, hwalk]
        show (if _ then none else some _) = some a
        rw [if_neg (not_or.mpr ⟨hu, hp⟩)]
        exact he

/-- A program does not reach a page that is mapped without the U bit. -/
theorem Inv.userAddr_identity {flags : Nat} (h : Inv L X k) (hl : Live k p) (hva : va < 2 ^ 32)
    (hmap : spaceMap L k p (va / 4096) = pte (va / 4096 * pageSize) flags) (hf : flags < 1024)
    (hu : (flags ||| pageV) &&& pageU = 0) :
    userAddr k.mem (k.procs p).pageTable va perm = none := by
  obtain ⟨root, T, hsp⟩ := h.spaces p hl.1 hl.2
  have hw := hsp.walk_eq h.own hl.1 hva
  rw [hmap, if_neg (pte_valid hf)] at hw
  refine userAddr_not_user hw ?_
  rw [pte_and hf (by decide)]
  exact hu

end

/--
**The kernel is in every address space, and nothing else that it could execute is.** After every
run of calls and writes, and under the page table of every process: the kernel reads, writes and
executes its own memory where it is, and reads and writes the registers of its devices where they
are, and no program reaches either; the kernel can execute nothing but its own memory; and
what else it reads or writes is what the program reaches at the same address.
-/
theorem kernel_in_every_space {L : Layout} {tr : List UserEvent} {k : Kernel} {p va : Nat}
    (h : UserRun L tr k) (hl : Live k p) (hva : va < 2 ^ 32) :
    (KernelAddr L va → ∀ perm, perm ∈ [pageR, pageW, pageX] →
      supervisorAddr k.mem (k.procs p).pageTable va perm = some va)
    ∧ (DeviceAddr va → ∀ perm, perm ∈ [pageR, pageW] →
      supervisorAddr k.mem (k.procs p).pageTable va perm = some va)
    ∧ (KernelAddr L va ∨ DeviceAddr va → ∀ perm,
      userAddr k.mem (k.procs p).pageTable va perm = none)
    ∧ (∀ a, supervisorAddr k.mem (k.procs p).pageTable va pageX = some a →
      a = va ∧ KernelAddr L va)
    ∧ ∀ perm a, perm ∈ [pageR, pageW] →
      supervisorAddr k.mem (k.procs p).pageTable va perm = some a →
      userAddr k.mem (k.procs p).pageTable va perm = some a
        ∨ (a = va ∧ (KernelAddr L va ∨ DeviceAddr va)) := by
  have hinv := (agrees_run h).1
  have hkernel : KernelAddr L va →
      spaceMap L k p (va / 4096) = pte (va / 4096 * pageSize) kernelFlags := by
    intro hk
    obtain ⟨hv, hlt⟩ := kernelAddr_iff.mp hk
    exact hinv.spaceMap_kernel hl hv hlt
  have hdevice : DeviceAddr va →
      spaceMap L k p (va / 4096) = pte (va / 4096 * pageSize) deviceFlags :=
    fun hd => hinv.spaceMap_device hl (deviceAddr_iff.mp hd)
  refine ⟨?_, ?_, ?_, ?_, ?_⟩
  · intro hk perm hperm
    have hbits : ∀ perm, perm ∈ [pageR, pageW, pageX] →
        perm < 1024 ∧ (kernelFlags ||| pageV) &&& perm ≠ 0 := by decide
    obtain ⟨hlt, hp⟩ := hbits perm hperm
    exact hinv.supervisor_identity hl hva (hkernel hk) (by decide) hlt hp (by decide)
  · intro hd perm hperm
    have hbits : ∀ perm, perm ∈ [pageR, pageW] →
        perm < 1024 ∧ (deviceFlags ||| pageV) &&& perm ≠ 0 := by decide
    obtain ⟨hlt, hp⟩ := hbits perm hperm
    exact hinv.supervisor_identity hl hva (hdevice hd) (by decide) hlt hp (by decide)
  · intro hkd perm
    rcases hkd with hk | hd
    · exact hinv.userAddr_identity hl hva (hkernel hk) (by decide) (by decide)
    · exact hinv.userAddr_identity hl hva (hdevice hd) (by decide) (by decide)
  · intro a ha
    rcases hinv.supervisor_some hl hva (by decide) ha with ⟨hne, _⟩ | hk | ⟨_, _, hx⟩
    · exact absurd rfl hne
    · exact hk
    · exact absurd (by decide) hx
  · intro perm a hperm ha
    have hlt : ∀ perm, perm ∈ [pageR, pageW] → perm < 1024 := by decide
    rcases hinv.supervisor_some hl hva (hlt perm hperm) ha with ⟨_, hu⟩ | hk | hd
    · exact Or.inl hu
    · exact Or.inr ⟨hk.1, Or.inl hk.2⟩
    · exact Or.inr ⟨hd.1, Or.inr hd.2.1⟩

/-- The first instruction of the kernel, under the table of a process with an object attached. -/
theorem kernel_in_every_space_attached : ∃ k, UserRun sampleLayout attaching k ∧ Live k 1
    ∧ supervisorAddr k.mem (k.procs 1).pageTable kernelBase pageX = some kernelBase
    ∧ userAddr k.mem (k.procs 1).pageTable kernelBase pageX = none := by
  obtain ⟨k, hrun, hl, _⟩ := attaching_run
  have hk : KernelAddr sampleLayout kernelBase := ⟨Nat.le_refl _, by decide⟩
  obtain ⟨hsup, _, huser, _⟩ := kernel_in_every_space hrun hl (show kernelBase < 2 ^ 32 by decide)
  exact ⟨k, hrun, hl, hsup hk pageX (by decide), huser (Or.inl hk) pageX⟩

end Os1000.Proof
