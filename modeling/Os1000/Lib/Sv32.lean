import Os1000.Lib.Memory

/-!
# Two-level page tables in memory

A root page of 1024 words links pages of 1024 leaf words. `Sv32 m root T M` says that
memory `m` holds such a tree: `T` gives the address of each second-level table and
`M` the leaf word of each virtual page number, zero where there is no table. Three
operations change a tree in a controlled way: an untouched copy of its pages is the
same tree, linking a zeroed page adds a table and maps nothing, and writing a leaf
word updates `M` at one page number and nowhere else.

The structure carries the fact that its pages do not overlap, so that nobody has to
prove it again at each write.
-/

namespace Os1000.Lib

/-- Two pages do not overlap. -/
def Apart (a b : Nat) : Prop := a + 4096 ≤ b ∨ b + 4096 ≤ a

theorem Apart.symm {a b : Nat} (h : Apart a b) : Apart b a := Or.symm h

/-- The first-level word that links the table at `a`: its page number and the valid bit. -/
def linkWord (a : Nat) : Nat := a / 4096 * 1024 + 1

/-- The first-level word for a table that may be missing. -/
def rootWord : Option Nat → Nat
  | none => 0
  | some a => linkWord a

/-- Memory `m` holds a tree at `root` with tables `T` and leaf words `M`. -/
structure Sv32 (m : Mem) (root : Nat) (T : Nat → Option Nat) (M : Nat → Nat) : Prop where
  /-- The root links the tables. -/
  link : ∀ i, i < 1024 → load32 m (root + 4 * i) = rootWord (T i)
  /-- The tables hold the leaf words. -/
  leaf : ∀ i a, i < 1024 → T i = some a → ∀ j, j < 1024 →
    load32 m (a + 4 * j) = M (i * 1024 + j)
  /-- Where there is no table nothing is mapped. -/
  bare : ∀ i, i < 1024 → T i = none → ∀ j, j < 1024 → M (i * 1024 + j) = 0
  /-- No table overlaps the root. -/
  rootApart : ∀ i a, i < 1024 → T i = some a → Apart root a
  /-- No two tables overlap. -/
  tableApart : ∀ i j a b, i < 1024 → j < 1024 → i ≠ j → T i = some a → T j = some b → Apart a b

variable {m m' : Mem} {root : Nat} {T : Nat → Option Nat} {M M' : Nat → Nat}

/-- A zeroed page is an empty tree. -/
theorem sv32_empty (h : ∀ x, root ≤ x → x < root + 4096 → m x = 0) :
    Sv32 m root (fun _ => none) (fun _ => 0) where
  link _ hi := load32_zero fun x h1 h2 => h x (by omega) (by omega)
  leaf _ _ _ h := by cases h
  bare _ _ _ _ _ := rfl
  rootApart _ _ _ h := by cases h
  tableApart _ _ _ _ _ _ _ h := by cases h

/-- A tree depends on its own pages only. -/
theorem Sv32.frame (h : Sv32 m root T M)
    (hroot : ∀ x, root ≤ x → x < root + 4096 → m' x = m x)
    (htable : ∀ i a, i < 1024 → T i = some a → ∀ x, a ≤ x → x < a + 4096 → m' x = m x) :
    Sv32 m' root T M where
  link i hi := by
    rw [← h.link i hi]
    exact load32_congr fun x h1 h2 => hroot x (by omega) (by omega)
  leaf i a hi ha j hj := by
    rw [← h.leaf i a hi ha j hj]
    exact load32_congr fun x h1 h2 => htable i a hi ha x (by omega) (by omega)
  bare := h.bare
  rootApart := h.rootApart
  tableApart := h.tableApart

/-- Only the 2^20 page numbers matter. -/
theorem Sv32.congr (h : Sv32 m root T M) (hM : ∀ v, v < 2 ^ 20 → M' v = M v) :
    Sv32 m root T M' where
  link := h.link
  leaf i a hi ha j hj := by rw [h.leaf i a hi ha j hj, hM _ (by omega)]
  bare i hi ha j hj := by rw [hM _ (by omega), h.bare i hi ha j hj]
  rootApart := h.rootApart
  tableApart := h.tableApart

/-- Only the 1024 places for tables matter. -/
theorem Sv32.congrTables {T' : Nat → Option Nat} (h : Sv32 m root T M)
    (hT : ∀ i, i < 1024 → T' i = T i) : Sv32 m root T' M where
  link i hi := by rw [h.link i hi, hT i hi]
  leaf i a hi ha := h.leaf i a hi (by rw [← hT i hi]; exact ha)
  bare i hi ha := h.bare i hi (by rw [← hT i hi]; exact ha)
  rootApart i a hi ha := h.rootApart i a hi (by rw [← hT i hi]; exact ha)
  tableApart i j a b hi hj hij ha hb := h.tableApart i j a b hi hj hij
    (by rw [← hT i hi]; exact ha) (by rw [← hT j hj]; exact hb)

/-- **Linking a zeroed page** adds a table and maps nothing. -/
theorem Sv32.addTable (h : Sv32 m root T M) {i a : Nat} (hi : i < 1024) (hT : T i = none)
    (hlt : linkWord a < 2 ^ 32) (hzero : ∀ x, a ≤ x → x < a + 4096 → m x = 0)
    (hra : Apart root a) (hta : ∀ j b, j < 1024 → T j = some b → Apart a b) :
    Sv32 (store32 m (root + 4 * i) (linkWord a)) root (Function.update T i (some a)) M := by
  refine ⟨?_, ?_, ?_, ?_, ?_⟩
  · intro j hj
    by_cases hji : j = i
    · subst hji
      rw [load32_store32 hlt, Function.update_self]
      rfl
    · rw [load32_store32_of_disjoint (by omega), Function.update_of_ne hji]
      exact h.link j hj
  · intro j b hj hb n hn
    by_cases hji : j = i
    · subst hji
      rw [Function.update_self] at hb
      obtain rfl : a = b := by injection hb
      rw [load32_store32_of_disjoint (by unfold Apart at hra; omega), h.bare j hj hT n hn]
      exact load32_zero fun x h1 h2 => hzero x (by omega) (by omega)
    · rw [Function.update_of_ne hji] at hb
      have := h.rootApart j b hj hb
      rw [load32_store32_of_disjoint (by unfold Apart at this; omega)]
      exact h.leaf j b hj hb n hn
  · intro j hj hb n hn
    by_cases hji : j = i
    · subst hji
      rw [Function.update_self] at hb
      cases hb
    · rw [Function.update_of_ne hji] at hb
      exact h.bare j hj hb n hn
  · intro j b hj hb
    by_cases hji : j = i
    · subst hji
      rw [Function.update_self] at hb
      obtain rfl : a = b := by injection hb
      exact hra
    · rw [Function.update_of_ne hji] at hb
      exact h.rootApart j b hj hb
  · intro j n b c hj hn hjn hb hc
    by_cases hji : j = i
    · subst hji
      rw [Function.update_self] at hb
      obtain rfl : a = b := by injection hb
      rw [Function.update_of_ne (Ne.symm hjn)] at hc
      exact hta n c hn hc
    · rw [Function.update_of_ne hji] at hb
      by_cases hni : n = i
      · subst hni
        rw [Function.update_self] at hc
        obtain rfl : a = c := by injection hc
        exact (hta j b hj hb).symm
      · rw [Function.update_of_ne hni] at hc
        exact h.tableApart j n b c hj hn hjn hb hc

/-- **Writing a leaf word** updates the map at one page number. -/
theorem Sv32.setLeaf (h : Sv32 m root T M) {i a j e : Nat} (hi : i < 1024) (hT : T i = some a)
    (hj : j < 1024) (he : e < 2 ^ 32) :
    Sv32 (store32 m (a + 4 * j) e) root T (Function.update M (i * 1024 + j) e) := by
  have hra := h.rootApart i a hi hT
  refine ⟨?_, ?_, ?_, h.rootApart, h.tableApart⟩
  · intro n hn
    rw [load32_store32_of_disjoint (by unfold Apart at hra; omega)]
    exact h.link n hn
  · intro n b hn hb l hl
    by_cases hni : n = i
    · subst hni
      obtain rfl : a = b := by rw [hT] at hb; injection hb
      by_cases hlj : l = j
      · subst hlj
        rw [load32_store32 he, Function.update_self]
      · rw [load32_store32_of_disjoint (by omega), Function.update_of_ne (by omega)]
        exact h.leaf n a hn hT l hl
    · have hab := h.tableApart i n a b hi hn (Ne.symm hni) hT hb
      rw [load32_store32_of_disjoint (by unfold Apart at hab; omega),
        Function.update_of_ne (by omega)]
      exact h.leaf n b hn hb l hl
  · intro n hn hb l hl
    have hni : n ≠ i := by
      rintro rfl
      rw [hT] at hb
      cases hb
    rw [Function.update_of_ne (by omega)]
    exact h.bare n hn hb l hl

end Os1000.Lib
