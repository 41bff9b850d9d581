import Mathlib.Data.List.GetD
import Mathlib.Data.List.Perm.Subperm
import Os1000.Proof.Counting
import Os1000.Proof.Tree

/-!
# The address space of a process

What `create_process` builds, as a map from virtual page numbers to leaf words: the
kernel and the device pages onto themselves, the image from `USER_BASE` on, nothing
else. Later calls only touch the window for shared memory, where a slot in use maps
the page of the object it names. `Space` says that the page tables of a process hold
exactly this map; that is preserved by everything a process can do, and by everything
the others do.

The tables a process needs are known beforehand: `spaceTables` lists their places in
the root. So the number of regions an image takes is known too, and `regionsNeeded`
is the condition under which it fits the record.
-/

namespace Os1000.Proof

open Os1000 Lib

/-! ## The intended map -/

/-- `PAGE_R | PAGE_W | PAGE_X`, `PAGE_R | PAGE_W`, and the two kinds of user page. -/
def kernelFlags : Nat := pageR ||| pageW ||| pageX
def deviceFlags : Nat := pageR ||| pageW
def imageFlags : Nat := pageU ||| pageR ||| pageW ||| pageX
def windowFlags : Nat := pageU ||| pageR ||| pageW

/-- The page numbers at which the kernel, the image and the window start. -/
def kernelVpn : Nat := kernelBase / pageSize
def imageVpn : Nat := userBase / pageSize
def windowVpn : Nat := shmUserBase / pageSize

/-- The kernel's first `n` pages. -/
def kernelMap (n v : Nat) : Nat :=
  if kernelVpn ≤ v ∧ v < kernelVpn + n then pte (v * pageSize) kernelFlags else 0

/-- `M` with the device pages `ds` mapped onto themselves. -/
def deviceMap (M : Nat → Nat) (ds : List Nat) (v : Nat) : Nat :=
  if v * pageSize ∈ ds then pte (v * pageSize) deviceFlags else M v

/-- What every process maps: the kernel and the devices. -/
def baseMap (L : Layout) : Nat → Nat := deviceMap (kernelMap (kernelPages L)) devicePages

/-- The base map and the image pages of process `p`. -/
def imageMap (L : Layout) (k : Kernel) (p v : Nat) : Nat :=
  if imageVpn ≤ v ∧ v < imageVpn + (k.procs p).imageRegions.length then
    pte (k.regions ((k.procs p).imageRegions.getD (v - imageVpn) 0)).start imageFlags
  else baseMap L v

/-- The leaf word of slot `i` of the window. -/
def windowWord (k : Kernel) (p i : Nat) : Nat :=
  if ((k.procs p).shmMappings i).used ≠ 0 then
    match findById k ((k.procs p).shmMappings i).shmId with
    | some s => pte (k.shmTable s).pa windowFlags
    | none => 0
  else 0

/-- The map of process `p`. -/
def spaceMap (L : Layout) (k : Kernel) (p v : Nat) : Nat :=
  if windowVpn ≤ v ∧ v < windowVpn + procShmMax then windowWord k p (v - windowVpn)
  else imageMap L k p v

/-! ## The tables it takes -/

/-- How many second-level tables the kernel's pages and an image of `n` pages take. -/
def kernelTables (L : Layout) : Nat := (512 + kernelPages L + 1023) / 1024
def imageTables (n : Nat) : Nat := (n + 1023) / 1024

/-- The places of the second-level tables of a process with `n` image pages. -/
def spaceTables (L : Layout) (n : Nat) : List Nat :=
  (List.range (kernelTables L)).map (512 + ·)
    ++ ([64, 48] ++ (List.range (imageTables n)).map (4 + ·))

/-- How many regions a process with an image of `size` bytes records at creation. -/
def regionsNeeded (L : Layout) (size : Nat) : Nat :=
  1 + (kernelTables L + (2 + imageTables (imagePages size))) + imagePages size

theorem length_spaceTables (L : Layout) (n : Nat) :
    (spaceTables L n).length = kernelTables L + (2 + imageTables n) := by
  unfold spaceTables
  rw [List.length_append, List.length_append, List.length_map, List.length_map, List.length_range,
    List.length_range]
  rfl

/-- Tables at places from a list are no more than the list is long. -/
theorem length_tables_le {T : Nat → Option Nat} {V : List Nat}
    (h : ∀ v, v < 1024 → T v ≠ none → v ∈ V) : (tables T).length ≤ V.length := by
  unfold tables
  rw [List.length_filterMap_eq_countP, List.countP_eq_length_filter]
  have hnd : ((List.range 1024).filter fun v => (T v).isSome).Nodup := List.nodup_range.filter _
  refine (hnd.subperm ?_).length_le
  intro v hv
  obtain ⟨h1, h2⟩ := List.mem_filter.mp hv
  exact h v (List.mem_range.mp h1) (Option.isSome_iff_ne_none.mp h2)

section

variable {L : Layout}

/-- The last page the kernel maps ends below 2^32. -/
theorem kernelPage_lt {i : Nat} (h : i < kernelPages L) : kernelBase + i * 4096 < 2 ^ 32 := by
  have h1 := L.end_lt
  have h2 := L.procs_ge
  have h3 := L.procs_le
  unfold kernelPages Layout.freeRamEnd at h
  unfold freeRamSize pageSize procsMax sizeofProcess kernelBase at *
  omega

theorem kernelPage_table {i : Nat} (h : i < kernelPages L) (n : Nat) :
    vpn1 (kernelBase + i * 4096) ∈ spaceTables L n := by
  have hlt := kernelPage_lt h
  have hv : vpn1 (kernelBase + i * 4096) = 512 + (512 + i) / 1024 := by
    rw [vpn1_eq]
    unfold kernelBase at hlt ⊢
    omega
  rw [hv]
  refine List.mem_append_left _ (List.mem_map.mpr ⟨_, List.mem_range.mpr ?_, rfl⟩)
  unfold kernelTables
  omega

theorem devicePage_table (L : Layout) {d : Nat} (h : d ∈ devicePages) (n : Nat) :
    vpn1 d ∈ spaceTables L n := by
  have hv : ∀ d, d ∈ devicePages → vpn1 d ∈ [64, 48] := by decide
  exact List.mem_append_right _ (List.mem_append_left _ (hv d h))

theorem imagePage_table (L : Layout) {i n : Nat} (h : i < n) (hi : i < maxRegions) :
    vpn1 (userBase + i * 4096) ∈ spaceTables L n := by
  have hv : vpn1 (userBase + i * 4096) = 4 + 0 := by
    rw [vpn1_eq]
    unfold userBase
    unfold maxRegions at hi
    omega
  rw [hv]
  refine List.mem_append_right _ (List.mem_append_right _
    (List.mem_map.mpr ⟨0, List.mem_range.mpr ?_, rfl⟩))
  unfold imageTables
  omega

/-! ## The maps step by step -/

theorem kernelMap_succ (n : Nat) :
    Function.update (kernelMap n) ((kernelBase + n * 4096) / 4096)
      (pte (kernelBase + n * 4096) kernelFlags) = kernelMap (n + 1) := by
  have he : (kernelBase + n * 4096) / 4096 = kernelVpn + n := by
    unfold kernelVpn kernelBase pageSize; omega
  have hp : kernelBase + n * 4096 = (kernelVpn + n) * pageSize := by
    unfold kernelVpn kernelBase pageSize; omega
  rw [he, hp]
  funext v
  unfold kernelMap
  by_cases hv : v = kernelVpn + n
  · subst hv
    rw [Function.update_self, if_pos ⟨by omega, by omega⟩]
  · rw [Function.update_of_ne hv]
    by_cases hc : kernelVpn ≤ v ∧ v < kernelVpn + n
    · rw [if_pos hc, if_pos ⟨hc.1, by omega⟩]
    · rw [if_neg hc, if_neg (by omega)]

theorem deviceMap_snoc (M : Nat → Nat) (ds : List Nat) {d : Nat} (hd : d % 4096 = 0) :
    Function.update (deviceMap M ds) (d / 4096) (pte d deviceFlags)
      = deviceMap M (ds ++ [d]) := by
  funext v
  unfold deviceMap
  by_cases hv : v = d / 4096
  · have hp : v * pageSize = d := by unfold pageSize; omega
    rw [hv, Function.update_self, ← hv, hp, if_pos (by simp)]
  · have hp : v * pageSize ≠ d := by unfold pageSize; omega
    rw [Function.update_of_ne hv]
    simp [hp]

end

/-! ## Construction -/

/--
An address space under construction since state `k₀`: its tables are at places from
`V`, it maps `M`, and no page that was in use in `k₀` has been touched. How many regions
the process has recorded does not matter.
-/
structure Laid (L : Layout) (k₀ : Kernel) (p : Nat) (V : List Nat) (k : Kernel) (M : Nat → Nat) :
    Prop where
  hold : Hold L k p
  tree : ∃ root T, Tree k p root T M ∧ ∀ v, v < 1024 → T v ≠ none → v ∈ V
  /-- What the process owns is new. -/
  fresh : ∀ r, r ∈ (k.procs p).appended → (k₀.regions r).state ≠ .allocated
  same : ∀ r, r < maxRegions → (k₀.regions r).state = .allocated → SamePage k₀ k r

/-- The first `n` pages of the image are in place. -/
structure ImageLoaded (k : Kernel) (p : Nat) (image : List UInt8) (n : Nat) : Prop where
  length : (k.procs p).imageRegions.length = n
  bytes : ∀ i, i < n → PageBytes k.mem (k.regions ((k.procs p).imageRegions.getD i 0)).start
    ((image.drop (i * pageSize)).take pageSize)

section

variable {L : Layout} {X : Nat → Prop} {k₀ k k' : Kernel} {p : Nat} {V : List Nat} {M : Nat → Nat}

theorem Laid.length_le (h : Laid L k₀ p V k M) :
    (k.procs p).appended.length ≤ 1 + V.length + (k.procs p).imageRegions.length := by
  obtain ⟨root, T, ht, hV⟩ := h.tree
  rw [ht.length_eq]
  have := length_tables_le hV
  omega

/-- Image pages are regions, so there are not many. -/
theorem Laid.images_lt (h : Laid L k₀ p V k M) :
    (k.procs p).imageRegions.length < maxRegions := by
  obtain ⟨root, T, ht, _⟩ := h.tree
  have h1 := ht.length_eq
  have h2 := h.hold.length_le
  omega

theorem Laid.congr {M' : Nat → Nat} (h : Laid L k₀ p V k M)
    (hM : ∀ v, v < 2 ^ 20 → M' v = M v) : Laid L k₀ p V k M' := by
  obtain ⟨root, T, ht, hV⟩ := h.tree
  exact ⟨h.hold, ⟨root, T, ⟨ht.perm, ht.pageTable, ht.sv32.congr hM⟩, hV⟩, h.fresh, h.same⟩

/-- A region that was not in use before is new. -/
theorem Laid.fresh_of_unused (h : Laid L k₀ p V k M) {r : Nat} (hr : r < maxRegions)
    (hun : (k.regions r).state = .unused) : (k₀.regions r).state ≠ .allocated := by
  intro hst
  rw [(h.same r hr hst).1, hst] at hun
  cases hun

/-- One leaf word changed. -/
theorem Laid.updates {root va e : Nat} {T T' : Nat → Option Nat} (h : Laid L k₀ p V k M)
    (ht : Tree k p root T M) (hdom : ∀ v, v < 1024 → T v ≠ none → v ∈ V) (hV : vpn1 va ∈ V)
    (hu : Updates L k p root T M va e k' T') :
    Laid L k₀ p V k' (Function.update M (va / 4096) e) := by
  refine ⟨hu.hold, ⟨root, T', hu.tree, ?_⟩, ?_, ?_⟩
  · intro v hv hne
    by_cases he : v = vpn1 va
    · rw [he]; exact hV
    · rw [hu.others v he] at hne
      exact hdom v hv hne
  · intro r hmem
    rcases hu.gained r hmem with hold | hun
    · exact h.fresh r hold
    · exact h.fresh_of_unused (hu.hold.pages r hmem).1 hun
  · intro r hr hst
    have hs := h.same r hr hst
    refine hs.trans (hu.same r hr (by rw [hs.1]; exact hst) fun hT => ?_)
    exact h.fresh _ (hT.mem ht) hst

/-- One more page mapped. -/
theorem Laid.mapPage (h : Laid L k₀ p V k M) (hp : p < procsMax) {va pa fl : Nat}
    (hva : va < 2 ^ 32) (hpa : pa < 2 ^ 32) (hfl : fl < 1024) (hV : vpn1 va ∈ V)
    (hm : mapPage L k p va pa fl = .ok k') :
    Laid L k₀ p V k' (Function.update M (va / 4096) (pte pa fl))
      ∧ (k'.procs p).imageRegions = (k.procs p).imageRegions
      ∧ ∀ r, r ∈ (k.procs p).imageRegions → SamePage k k' r := by
  obtain ⟨root, T, ht, hdom⟩ := h.tree
  obtain ⟨T', hu⟩ := ht.updates_mapPage h.hold hp hva hpa hfl hm
  refine ⟨h.updates ht hdom hV hu, hu.images, fun r hr => ?_⟩
  obtain ⟨h1, h2, _⟩ := h.hold.pages r (ht.image_mem hr)
  exact hu.same r h1 h2 (ht.image_not_table h.hold hr)

/-- The page table page. -/
theorem laid_allocPageTable (hh : Hold L k₀ p) (hp : p < procsMax)
    (happ : (k₀.procs p).appended = []) (himg : (k₀.procs p).imageRegions = [])
    (hpt : allocPageTable L k₀ p = .ok k) :
    Laid L k₀ p V k (fun _ => 0) ∧ (k.procs p).imageRegions = [] := by
  obtain ⟨root, hh', ht, hun, happ', hsame, himg'⟩ := tree_allocPageTable hh hp happ himg hpt
  refine ⟨⟨hh', ⟨root, _, ht, fun v _ hne => absurd rfl hne⟩, ?_, hsame⟩, himg'⟩
  intro r hr hst
  rw [happ', List.mem_singleton] at hr
  rw [hr, hun] at hst
  cases hst

/-- One more page of the kernel. -/
theorem laid_kernelPage {n : Nat} (h : Laid L k₀ p V k (kernelMap n)) (hp : p < procsMax)
    (hn : n < kernelPages L) (hV : vpn1 (kernelBase + n * 4096) ∈ V)
    (himg : (k.procs p).imageRegions = [])
    (hm : mapPage L k p (kernelBase + n * pageSize) (kernelBase + n * pageSize) kernelFlags
      = .ok k') :
    Laid L k₀ p V k' (kernelMap (n + 1)) ∧ (k'.procs p).imageRegions = [] := by
  have hlt := kernelPage_lt hn
  obtain ⟨h1, h2, _⟩ := h.mapPage hp hlt hlt (show kernelFlags < 1024 by decide) hV hm
  rw [kernelMap_succ] at h1
  exact ⟨h1, h2.trans himg⟩

theorem laid_no_kernelPage (h : Laid L k₀ p V k (fun _ => 0)) :
    Laid L k₀ p V k (kernelMap 0) := by
  refine h.congr fun v _ => ?_
  unfold kernelMap
  rw [if_neg (by omega)]

/-- The pages of the kernel. -/
theorem laid_mapKernelPages (h : Laid L k₀ p V k (fun _ => 0)) (hp : p < procsMax)
    (hV : ∀ i, i < kernelPages L → vpn1 (kernelBase + i * 4096) ∈ V)
    (himg : (k.procs p).imageRegions = []) (hm : mapKernelPages L k p = .ok k') :
    Laid L k₀ p V k' (kernelMap (kernelPages L)) ∧ (k'.procs p).imageRegions = [] :=
  loopM_inv (fun n t => Laid L k₀ p V t (kernelMap n) ∧ (t.procs p).imageRegions = [])
    (kernelPages L) ⟨laid_no_kernelPage h, himg⟩
    (fun n _ _ hn ht hb => laid_kernelPage ht.1 hp hn (hV n hn) ht.2 hb) hm

theorem devicePage_ok {d : Nat} (hd : d ∈ devicePages) : d < 2 ^ 32 ∧ d % 4096 = 0 := by
  have hdev : ∀ d, d ∈ devicePages → d < 2 ^ 32 ∧ d % 4096 = 0 := by decide
  exact hdev d hd

/-- One more device page. -/
theorem laid_devicePage {ds : List Nat} {d : Nat} (h : Laid L k₀ p V k (deviceMap M ds))
    (hp : p < procsMax) (hd : d ∈ devicePages) (hV : vpn1 d ∈ V)
    (himg : (k.procs p).imageRegions = []) (hm : mapPage L k p d d deviceFlags = .ok k') :
    Laid L k₀ p V k' (deviceMap M (ds ++ [d])) ∧ (k'.procs p).imageRegions = [] := by
  obtain ⟨hlt, hal⟩ := devicePage_ok hd
  obtain ⟨h1, h2, _⟩ := h.mapPage hp hlt hlt (show deviceFlags < 1024 by decide) hV hm
  rw [deviceMap_snoc M ds hal] at h1
  exact ⟨h1, h2.trans himg⟩

theorem laid_no_devicePage (h : Laid L k₀ p V k M) : Laid L k₀ p V k (deviceMap M []) :=
  h.congr fun v _ => by simp [deviceMap]

/-- The device pages. -/
theorem laid_mapDevicePages (h : Laid L k₀ p V k M) (hp : p < procsMax)
    (hV : ∀ d, d ∈ devicePages → vpn1 d ∈ V) (himg : (k.procs p).imageRegions = [])
    (hm : mapDevicePages L k p = .ok k') :
    Laid L k₀ p V k' (deviceMap M devicePages) ∧ (k'.procs p).imageRegions = [] :=
  listM_inv (fun ds t => Laid L k₀ p V t (deviceMap M ds) ∧ (t.procs p).imageRegions = [])
    devicePages ⟨laid_no_devicePage h, himg⟩
    (fun _ d _ _ hd ht hb => laid_devicePage ht.1 hp hd (hV d hd) ht.2 hb) hm

/-- The image map only sees the image regions and where they start. -/
theorem imageMap_congr (hi : (k'.procs p).imageRegions = (k.procs p).imageRegions)
    (hs : ∀ r, r ∈ (k.procs p).imageRegions → (k'.regions r).start = (k.regions r).start)
    (v : Nat) : imageMap L k' p v = imageMap L k p v := by
  unfold imageMap
  rw [hi]
  split
  · rename_i hc
    have hlt : v - imageVpn < (k.procs p).imageRegions.length := by omega
    rw [hs _ ?_]
    rw [List.getD_eq_getElem _ _ hlt]
    exact List.getElem_mem hlt
  · rfl

/-- One more page at the end of the image. -/
theorem imageMap_snoc {k1 : Kernel} {region i : Nat} (hlen : (k.procs p).imageRegions.length = i)
    (himg : (k1.procs p).imageRegions = (k.procs p).imageRegions ++ [region])
    (hs : ∀ r, r ∈ (k.procs p).imageRegions → (k1.regions r).start = (k.regions r).start) :
    Function.update (imageMap L k p) (imageVpn + i) (pte (k1.regions region).start imageFlags)
      = imageMap L k1 p := by
  funext v
  unfold imageMap
  rw [himg, List.length_append, List.length_singleton, hlen]
  by_cases hv : v = imageVpn + i
  · rw [hv, Function.update_self, if_pos ⟨by omega, by omega⟩, Nat.add_sub_cancel_left, ← hlen,
      List.getD_append_right _ _ _ _ (Nat.le_refl _), Nat.sub_self]
    rfl
  · rw [Function.update_of_ne hv]
    by_cases hc : imageVpn ≤ v ∧ v < imageVpn + i
    · have hlt : v - imageVpn < (k.procs p).imageRegions.length := by omega
      rw [if_pos hc, if_pos ⟨hc.1, by omega⟩, List.getD_append _ _ _ _ hlt, hs]
      rw [List.getD_eq_getElem _ _ hlt]
      exact List.getElem_mem hlt
    · rw [if_neg hc, if_neg (by omega)]

theorem laid_no_imagePage (h : Laid L k₀ p V k (baseMap L))
    (himg : (k.procs p).imageRegions = []) : Laid L k₀ p V k (imageMap L k p) := by
  refine h.congr fun v _ => ?_
  unfold imageMap
  rw [himg, if_neg (by simp)]

/-- The image pages loaded so far keep their bytes while they are the same pages. -/
theorem ImageLoaded.samePage {image : List UInt8} {n : Nat} (h : ImageLoaded k p image n)
    (hsame : ∀ r, r ∈ (k.procs p).imageRegions → SamePage k k' r ∧ (k.regions r).size = 4096)
    {i : Nat} (hi : i < n) :
    PageBytes k'.mem (k'.regions ((k.procs p).imageRegions.getD i 0)).start
      ((image.drop (i * pageSize)).take pageSize) := by
  have hlt : i < (k.procs p).imageRegions.length := by rw [h.length]; exact hi
  have hb := h.bytes i hi
  rw [List.getD_eq_getElem _ _ hlt] at hb ⊢
  obtain ⟨h1, h2⟩ := hsame _ (List.getElem_mem hlt)
  exact hb.samePage h1 h2

/-- One more image page is filled. -/
theorem Laid.imaged {image : List UInt8} {i page region : Nat} {r : Ram} (h : Laid L k₀ p V k M)
    (hl : ImageLoaded k p image i) (hp : p < procsMax)
    (ha : allocPages k.toRam 1 = .ok (page, region, r)) {k1 : Kernel}
    (hk1 : k1 = imaged L k p page region r ((image.drop (i * pageSize)).take pageSize)) :
    Laid L k₀ p V k1 M ∧ ImageLoaded k1 p image (i + 1)
      ∧ (k1.procs p).imageRegions = (k.procs p).imageRegions ++ [region]
      ∧ k1.regions region = ⟨page, 4096, .allocated⟩
      ∧ ∀ x, x ∈ (k.procs p).imageRegions → (k1.regions x).start = (k.regions x).start := by
  obtain ⟨root, T, ht, hdom⟩ := h.tree
  have hs := allocPages_spec ha
  obtain ⟨hh1, ht1, hsame1, happ1, himg1, hent1⟩ :=
    ht.imaged h.hold hp (List.length_take_le _ (image.drop (i * pageSize))) ha
  have hbytes := imaged_bytes h.hold hp ((image.drop (i * pageSize)).take pageSize) ha
  rw [← hk1] at hh1 ht1 hsame1 happ1 himg1 hent1 hbytes
  have himages : ∀ x, x ∈ (k.procs p).imageRegions →
      SamePage k k1 x ∧ (k.regions x).size = 4096 := by
    intro x hx
    obtain ⟨h1, h2, h3⟩ := h.hold.pages x (ht.image_mem hx)
    exact ⟨hsame1 x h1 h2, h3⟩
  refine ⟨⟨hh1, ⟨root, T, ht1, hdom⟩, ?_, ?_⟩, ⟨?_, ?_⟩, himg1, hent1, fun x hx => ?_⟩
  · intro x hx
    rw [happ1] at hx
    rcases List.mem_append.mp hx with h1 | h1
    · exact h.fresh x h1
    · rw [List.mem_singleton.mp h1]
      exact h.fresh_of_unused hs.lt hs.wasUnused
  · intro x hx hst
    have hsx := h.same x hx hst
    exact hsx.trans (hsame1 x hx (by rw [hsx.1]; exact hst))
  · rw [himg1, List.length_append, hl.length]
    rfl
  · intro j hj
    rw [himg1]
    by_cases hji : j = i
    · rw [hji, List.getD_append_right _ _ _ _ (by rw [hl.length]), hl.length, Nat.sub_self]
      show PageBytes k1.mem (k1.regions region).start _
      rw [hent1]
      exact hbytes
    · have hlt : j < i := by omega
      rw [List.getD_append _ _ _ _ (by rw [hl.length]; exact hlt)]
      exact hl.samePage himages hlt
  · rw [(himages x hx).1.1]

/-- **One more image page**, filled and mapped. -/
theorem laid_mapImagePage {image : List UInt8} {i : Nat}
    (h : Laid L k₀ p V k (imageMap L k p)) (hl : ImageLoaded k p image i) (hp : p < procsMax)
    (hV : vpn1 (userBase + i * 4096) ∈ V) (hm : mapImagePage L image p k i = .ok k') :
    Laid L k₀ p V k' (imageMap L k' p) ∧ ImageLoaded k' p image (i + 1) := by
  obtain ⟨page, region, r, ha, hm⟩ := mapImagePage_ok hm
  obtain ⟨k1, hk1⟩ : ∃ k1, k1 = imaged L k p page region r
    ((image.drop (i * pageSize)).take pageSize) := ⟨_, rfl⟩
  obtain ⟨h1, hl1, himg1, hent1, hstart1⟩ := h.imaged hl hp ha hk1
  rw [← hk1] at hm
  have hi := h.images_lt
  rw [hl.length] at hi
  have hlt : userBase + i * 4096 < 2 ^ 32 := by
    unfold maxRegions at hi
    unfold userBase
    omega
  have hva : u32 (userBase + i * pageSize) = userBase + i * 4096 := u32_of_lt hlt
  have hvpn : (userBase + i * 4096) / 4096 = imageVpn + i := by
    unfold imageVpn userBase pageSize; omega
  obtain ⟨_, _, ht1, _⟩ := h1.tree
  have hmem : region ∈ (k1.procs p).imageRegions := by rw [himg1]; simp
  have hpage : page < 2 ^ 32 := by
    have := (h1.hold.page (ht1.image_mem hmem)).2.2.2.2
    rw [hent1] at this
    dsimp only at this
    omega
  rw [hva] at hm
  obtain ⟨h2, himg2, hsame2⟩ :=
    h1.mapPage hp hlt hpage (show imageFlags < 1024 by decide) hV hm
  rw [hvpn] at h2
  refine ⟨h2.congr fun v _ => ?_, ⟨by rw [himg2]; exact hl1.length, fun j hj => ?_⟩⟩
  · have hpa : page = (k1.regions region).start := by rw [hent1]
    rw [imageMap_congr himg2 (fun x hx => by rw [(hsame2 x hx).1]) v, hpa,
      imageMap_snoc hl.length himg1 hstart1]
  · rw [himg2]
    exact hl1.samePage (fun x hx => ⟨hsame2 x hx, (h1.hold.pages x (ht1.image_mem hx)).2.2⟩) hj

theorem imageLoaded_nil (himg : (k.procs p).imageRegions = []) (image : List UInt8) :
    ImageLoaded k p image 0 :=
  ⟨by rw [himg]; rfl, fun _ hi => absurd hi (Nat.not_lt_zero _)⟩

/-- One turn of the loop over the pages of an image. -/
theorem laid_imageStep {image : List UInt8} {i n : Nat}
    (h : Laid L k₀ p (spaceTables L n) k (imageMap L k p)) (hl : ImageLoaded k p image i)
    (hp : p < procsMax) (hi : i < n) (hm : mapImagePage L image p k i = .ok k') :
    Laid L k₀ p (spaceTables L n) k' (imageMap L k' p) ∧ ImageLoaded k' p image (i + 1) :=
  laid_mapImagePage h hl hp (imagePage_table L hi (hl.length ▸ h.images_lt)) hm

/-- **The whole construction.** -/
theorem laid_buildSpace {image : List UInt8} (hh : Hold L k₀ p) (hp : p < procsMax)
    (happ : (k₀.procs p).appended = []) (himg : (k₀.procs p).imageRegions = [])
    (hb : buildSpace L k₀ p image = .ok k) :
    Laid L k₀ p (spaceTables L (imagePages image.length)) k (imageMap L k p)
      ∧ ImageLoaded k p image (imagePages image.length) := by
  obtain ⟨k1, k2, k3, h1, h2, h3, h4⟩ := buildSpace_ok hb
  obtain ⟨b1, i1⟩ := laid_allocPageTable (V := spaceTables L (imagePages image.length))
    hh hp happ himg h1
  obtain ⟨b2, i2⟩ := laid_mapKernelPages b1 hp (fun i hi => kernelPage_table hi _) i1 h2
  obtain ⟨b3, i3⟩ := laid_mapDevicePages b2 hp (fun d hd => devicePage_table L hd _) i2 h3
  unfold mapImagePages at h4
  refine loopM_inv (fun n t => Laid L k₀ p (spaceTables L (imagePages image.length)) t
    (imageMap L t p) ∧ ImageLoaded t p image n) (imagePages image.length)
    ⟨laid_no_imagePage b3 i3, imageLoaded_nil i3 image⟩ ?_ h4
  intro i t t' hi ht hm
  exact laid_imageStep ht.1 ht.2 hp hi hm

end

/-- The same, where everybody's regions and the mappings of the process are in order too. -/
structure Built (L : Layout) (X : Nat → Prop) (k₀ : Kernel) (p : Nat) (V : List Nat)
    (k : Kernel) (M : Nat → Nat) : Prop where
  own : Own L X k
  tree : ∃ root T, Tree k p root T M ∧ ∀ v, v < 1024 → T v ≠ none → v ∈ V
  /-- What the process owns is new. -/
  fresh : ∀ r, r ∈ (k.procs p).appended → (k₀.regions r).state ≠ .allocated
  same : ∀ r, r < maxRegions → (k₀.regions r).state = .allocated → SamePage k₀ k r
  mappings : (k.procs p).shmMappings = (k₀.procs p).shmMappings

section

variable {L : Layout} {X : Nat → Prop} {k₀ k k' : Kernel} {p : Nat} {V : List Nat} {M : Nat → Nat}

theorem Built.length_le (h : Built L X k₀ p V k M) :
    (k.procs p).appended.length ≤ 1 + V.length + (k.procs p).imageRegions.length := by
  obtain ⟨root, T, ht, hV⟩ := h.tree
  rw [ht.length_eq]
  have := length_tables_le hV
  omega

/-- **The whole construction**, for an image whose regions fit the record. -/
theorem built_buildSpace {image : List UInt8} (ho : Own L X k₀) (hp : p < procsMax)
    (happ : (k₀.procs p).appended = []) (himg : (k₀.procs p).imageRegions = [])
    (hfit : regionsNeeded L image.length ≤ procRegionMax + 1)
    (hb : buildSpace L k₀ p image = .ok k) :
    Built L X k₀ p (spaceTables L (imagePages image.length)) k (imageMap L k p)
      ∧ (k.procs p).imageRegions.length = imagePages image.length := by
  obtain ⟨hlaid, hload⟩ := laid_buildSpace (ho.hold hp) hp happ himg hb
  have hle := hlaid.length_le
  rw [hload.length, length_spaceTables] at hle
  unfold regionsNeeded at hfit
  obtain ⟨ho', hmap⟩ := ownIf_buildSpace hp ho rfl hb (by omega)
  exact ⟨⟨ho', hlaid.tree, hlaid.fresh, hlaid.same, hmap⟩, hload.length⟩

end

/-! ## The invariant -/

/-- The page tables of process `p` hold its map, in tables at the expected places. -/
structure Space (L : Layout) (k : Kernel) (p root : Nat) (T : Nat → Option Nat) : Prop where
  tree : Tree k p root T (spaceMap L k p)
  /-- Besides the tables made at creation there may be one for the window. -/
  domain : ∀ v, v < 1024 → T v ≠ none →
    v ∈ vpn1 shmUserBase :: spaceTables L (k.procs p).imageRegions.length
  fits : 1 + (spaceTables L (k.procs p).imageRegions.length).length
    + (k.procs p).imageRegions.length ≤ procRegionMax
  /-- The image was recorded before anything could run over the end. -/
  early : ∀ r, r ∈ (k.procs p).imageRegions → r ∈ (k.procs p).appended.take procRegionMax

/-- Every process has its address space. -/
def Spaces (L : Layout) (k : Kernel) : Prop :=
  ∀ p, p < procsMax → (k.procs p).state ≠ .unused → ∃ root T, Space L k p root T

section

variable {L : Layout} {X : Nat → Prop} {k k' : Kernel} {p root : Nat} {T : Nat → Option Nat}

theorem Space.length_le (h : Space L k p root T) :
    (k.procs p).appended.length ≤ procRegionMax + 1 := by
  have h1 := length_tables_le h.domain
  have h2 := h.fits
  rw [h.tree.length_eq]
  rw [List.length_cons] at h1
  omega

/-- Before the window has a table, there is room for it in the record. -/
theorem Space.room (h : Space L k p root T) (hT : T (vpn1 shmUserBase) = none) :
    (k.procs p).appended.length ≤ procRegionMax := by
  have h1 : (tables T).length ≤ (spaceTables L (k.procs p).imageRegions.length).length := by
    refine length_tables_le fun v hv hne => ?_
    rcases List.mem_cons.mp (h.domain v hv hne) with he | hm
    · rw [he] at hne
      exact absurd hT hne
    · exact hm
  have h2 := h.fits
  rw [h.tree.length_eq]
  omega

/-- Every process's record has room. -/
theorem Spaces.roomy (h : Spaces L k) (hset : Settled k) : Roomy k := by
  intro p hp
  by_cases hu : (k.procs p).state = .unused
  · rw [(hset.blank p hp hu).1]
    exact Nat.zero_le _
  · obtain ⟨root, T, hs⟩ := h p hp hu
    exact hs.length_le

/-! ## The window -/

/-- A slot in use maps the object it names. -/
theorem windowWord_of_used (hid : Ids k) {i s : Nat}
    (hu : ((k.procs p).shmMappings i).used ≠ 0) (hs : s < shmMax)
    (hus : (k.shmTable s).used = true)
    (he : (k.shmTable s).id = ((k.procs p).shmMappings i).shmId) :
    windowWord k p i = pte (k.shmTable s).pa windowFlags := by
  unfold windowWord
  rw [if_pos hu, ← he, hid.findById_eq hs hus]

theorem windowWord_of_unused {i : Nat} (hu : ((k.procs p).shmMappings i).used = 0) :
    windowWord k p i = 0 := by
  unfold windowWord
  rw [if_neg (fun h => h hu)]

theorem windowWord_of_eq (ht : k'.shmTable = k.shmTable) {i : Nat}
    (hm : (k'.procs p).shmMappings i = (k.procs p).shmMappings i) :
    windowWord k' p i = windowWord k p i := by
  unfold windowWord findById
  rw [ht, hm]

/-- Thinning the table out does not touch the slots that still name something. -/
theorem windowWord_thins (hid : Ids k) (ht : Thins k k') (hc : Counted k') (hp : p < procsMax)
    {i : Nat} (hi : i < procShmMax)
    (hm : (k'.procs p).shmMappings i = (k.procs p).shmMappings i) :
    windowWord k' p i = windowWord k p i := by
  by_cases hu : ((k.procs p).shmMappings i).used = 0
  · rw [windowWord_of_unused hu, windowWord_of_unused (by rw [hm]; exact hu)]
  · obtain ⟨s, hs, hus, he⟩ := hc.named p hp i hi (by rw [hm]; exact hu)
    have hobj := ht.obj s hs hus
    rw [windowWord_of_used (hid.thins ht) (by rw [hm]; exact hu) hs hus he,
      windowWord_of_used hid hu hs (ht.used hs hus) (by rw [← hm, ← he, hobj]), hobj]

/-- A new object is named by nobody. -/
theorem windowWord_created (hid : Ids k) (hc : Counted k) {s pa idx : Nat} {key : Int} {r : Ram}
    (hid' : Ids (created k s key pa idx r)) (hu : (k.shmTable s).used = false)
    (hp : p < procsMax) {i : Nat} (hi : i < procShmMax) :
    windowWord (created k s key pa idx r) p i = windowWord k p i := by
  by_cases hz : ((k.procs p).shmMappings i).used = 0
  · rw [windowWord_of_unused hz]
    exact windowWord_of_unused (k := created k s key pa idx r) hz
  · obtain ⟨s', hs', hus, he⟩ := hc.named p hp i hi hz
    have hne : s' ≠ s := by
      rintro rfl
      rw [hu] at hus
      cases hus
    have hsame := created_of_ne k key pa idx r hne
    rw [windowWord_of_used hid hz hs' hus he,
      windowWord_of_used (k := created k s key pa idx r) hid' hz hs' (by rw [hsame]; exact hus)
        (by rw [hsame]; exact he), hsame]

/-! ## What leaves a space alone -/

theorem spaceMap_congr (hi : (k'.procs p).imageRegions = (k.procs p).imageRegions)
    (hs : ∀ r, r ∈ (k.procs p).imageRegions → (k'.regions r).start = (k.regions r).start)
    (hw : ∀ i, i < procShmMax → windowWord k' p i = windowWord k p i) (v : Nat) :
    spaceMap L k' p v = spaceMap L k p v := by
  unfold spaceMap
  split
  · rename_i hc
    exact hw _ (by omega)
  · exact imageMap_congr hi hs v

/-- The pages, the lists and the window of the process are the same. -/
theorem Space.frame (h : Space L k p root T) (ho : Own L X k) (hp : p < procsMax)
    (hpage : ∀ r, r ∈ (k.procs p).appended → SamePage k k' r)
    (happ : (k'.procs p).appended = (k.procs p).appended)
    (himg : (k'.procs p).imageRegions = (k.procs p).imageRegions)
    (hpt : (k'.procs p).pageTable = (k.procs p).pageTable)
    (hw : ∀ i, i < procShmMax → windowWord k' p i = windowWord k p i) :
    Space L k' p root T := by
  have ht : Tree k' p root T (spaceMap L k p) := by
    exact h.tree.frame (ho.hold hp) (fun r hr => hpage r (hr.mem h.tree)) happ himg hpt
  refine ⟨⟨ht.perm, ht.pageTable, ht.sv32.congr fun v _ => ?_⟩, by rw [himg]; exact h.domain,
    by rw [himg]; exact h.fits, by rw [himg, happ]; exact h.early⟩
  exact spaceMap_congr himg (fun r hr => by rw [(hpage r (h.tree.image_mem hr)).1]) hw v

/-- A leaf word of the window is changed. -/
theorem Space.remaps (h : Space L k p root T) {slot e : Nat} (hslot : slot < procShmMax)
    {k1 : Kernel} {T' : Nat → Option Nat}
    (ho : Own L X k) (hp : p < procsMax)
    (hr : Remaps L X k p root T (spaceMap L k p) (slotAddr slot) e k1 T')
    (hreg : ∀ r, r ∈ (k.procs p).imageRegions → k'.regions r = k1.regions r)
    (htree : ∀ {M}, Tree k1 p root T' M → Tree k' p root T' M)
    (himg : (k'.procs p).imageRegions = (k.procs p).imageRegions)
    (happ : ∃ new, (k'.procs p).appended = (k.procs p).appended ++ new)
    (hnew : windowWord k' p slot = e)
    (hw : ∀ i, i < procShmMax → i ≠ slot → windowWord k' p i = windowWord k p i) :
    Space L k' p root T' := by
  have hvpn : slotAddr slot / 4096 = windowVpn + slot := by
    unfold slotAddr windowVpn shmUserBase shmPageSize pageSize; omega
  have hv1 : vpn1 (slotAddr slot) = vpn1 shmUserBase := by
    unfold procShmMax at hslot
    rw [vpn1_eq, vpn1_eq]
    unfold slotAddr shmUserBase shmPageSize pageSize
    omega
  have ht := htree hr.tree
  refine ⟨⟨ht.perm, ht.pageTable, ht.sv32.congr fun v _ => ?_⟩, ?_, by rw [himg]; exact h.fits, ?_⟩
  · rw [hvpn]
    by_cases hv : v = windowVpn + slot
    · subst hv
      rw [Function.update_self]
      unfold spaceMap
      rw [if_pos ⟨by omega, by omega⟩, Nat.add_sub_cancel_left]
      exact hnew
    · rw [Function.update_of_ne hv]
      unfold spaceMap
      by_cases hc : windowVpn ≤ v ∧ v < windowVpn + procShmMax
      · rw [if_pos hc, if_pos hc]
        exact hw _ (by omega) (by omega)
      · rw [if_neg hc, if_neg hc]
        refine imageMap_congr himg (fun r hr' => ?_) v
        obtain ⟨_, g2, _⟩ := ho.page hp (h.tree.image_mem hr')
        rw [hreg r hr', hr.entries r g2]
  · intro v hv hne
    rw [himg]
    by_cases he : v = vpn1 (slotAddr slot)
    · rw [he, hv1]; exact List.mem_cons_self
    · rw [hr.others v he] at hne
      exact h.domain v hv hne
  · intro r hr'
    obtain ⟨new, hnew'⟩ := happ
    rw [himg] at hr'
    rw [hnew', List.take_append]
    exact List.mem_append_left _ (h.early r hr')

end

end Os1000.Proof
