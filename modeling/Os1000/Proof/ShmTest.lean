import Os1000.Proof.Commands
import Os1000.Proof.UserPrograms

/-!
# The shared memory test passes

`run_shmtest` writes a string to an object through one address and reads it through another. Here
it runs on the kernel, whose calls and page tables are those of all the other results: what a
load or a store does is what `Os1000.Spec.World` says (`At`). Each call of the program gets a rule
about the world, and the program is put together from them.

Between two steps of the test no other process runs, since only `getchar` and `exit` yield.
-/

namespace Os1000.Proof

open Os1000 Lib Command

/-! ## The kernel answers a program -/

/-- The kernel, and what is on the console. -/
structure Terminal where
  kernel : Kernel
  console : List UInt8

/-- The kernel answers process `p`. What `shm_dump` prints is left open. -/
inductive Serves (L : Layout) (p : Nat) : Terminal → (i : UserOp) → i.Reply → Terminal → Prop where
  | putchar {s : Terminal} {ch : UInt8} :
      Serves L p s (.putchar ch) () { s with console := s.console ++ [ch] }
  | shmDump {s : Terminal} (text : List UInt8) :
      Serves L p s .shmDump () { s with console := s.console ++ text }
  | shmGet {s : Terminal} {key ret : Int} {k : Kernel} :
      GuardedUserStep L s.kernel (.call (.shmGet p key ret)) k →
      Serves L p s (.shmGet key) ret { s with kernel := k }
  | shmAttach {s : Terminal} {id : Int} {ret : Nat} {k : Kernel} :
      GuardedUserStep L s.kernel (.call (.shmAttach p id ret)) k →
      Serves L p s (.shmAttach id) ret { s with kernel := k }
  | shmDetach {s : Terminal} {addr : Nat} {ret : Int} {k : Kernel} :
      GuardedUserStep L s.kernel (.call (.shmDetach p addr ret)) k →
      Serves L p s (.shmDetach addr) ret { s with kernel := k }
  | load {s : Terminal} {vaddr : Nat} {b : UInt8} :
      vaddr < 2 ^ 32 → userLoad s.kernel p vaddr = some b → Serves L p s (.load vaddr) b s
  | store {s : Terminal} {vaddr : Nat} {b : UInt8} {k : Kernel} :
      GuardedUserStep L s.kernel (.store p vaddr b) k →
      Serves L p s (.store vaddr b) () { s with kernel := k }

/-- The calls that may panic: there may be no page left for an object or a table. -/
def MayPanic : UserOp → Prop
  | .shmGet _ => True
  | .shmAttach _ => True
  | _ => False

/-- The kernel as the environment of process `p`. -/
def kernelEnv (L : Layout) (p : Nat) (waits : UserOp → Prop) : Env UserOp UserOp.Reply Terminal where
  step := Serves L p
  waits _ := waits

/-- Process `p` is in this world, with this on the console. -/
structure At (L : Layout) (p : Nat) (w : World) (out : List UInt8) (s : Terminal) : Prop where
  run : ∃ tr, UserRun L tr s.kernel ∧ World.after tr = w
  live : Live s.kernel p
  console : s.console = out

theorem UserRun.few {L : Layout} {tr : List UserEvent} {k : Kernel} (h : UserRun L tr k) :
    FewObjects k := by
  cases h with
  | start hb =>
      unfold FewObjects
      rw [(noObjects_boot hb.1).none]
      decide
  | snoc _ hs => exact hs.2.2

section

variable {L : Layout} {p i n x : Nat} {w : World} {out : List UInt8} {s : Terminal} {t : Task}
  {waits : UserOp → Prop}

theorem At.say (h : At L p w out s) (text : List UInt8) :
    wp (kernelEnv L p waits) (say text) (fun _ => At L p w (out ++ text)) s := by
  induction text generalizing out s with
  | nil =>
      rw [List.append_nil]
      exact h
  | cons ch text ih =>
      refine ⟨Or.inr ⟨(), _, .putchar⟩, fun r s' hs => ?_⟩
      cases hs
      have h' : At L p w (out ++ [ch]) { s with console := s.console ++ [ch] } :=
        ⟨h.run, h.live, by rw [h.console]⟩
      have := ih h'
      rwa [List.append_assoc] at this

/-- A step of the kernel for process `p`. -/
theorem At.step {e : UserEvent} {k : Kernel} (h : At L p w out s)
    (hs : GuardedUserStep L s.kernel e k) (hlive : (w.step e).task p ≠ none) :
    At L p (w.step e) out { s with kernel := k } := by
  obtain ⟨tr, hr, rfl⟩ := h.run
  have hr' : UserRun L (tr ++ [e]) k := hr.snoc hs
  refine ⟨⟨tr ++ [e], hr', after_snoc tr e⟩, ?_, h.console⟩
  rw [(agrees_run hr').2.live_iff h.live.1, after_snoc]
  exact hlive

theorem At.task (h : At L p w out s) : ∃ t, w.task p = some t := by
  obtain ⟨tr, hr, rfl⟩ := h.run
  exact Option.ne_none_iff_exists'.mp (((agrees_run hr).2.live_iff h.live.1).mp h.live)

/-! ## The rules -/

/-- Slot `i` of the window of process `p` shows object `n`. -/
structure Window (w : World) (p i n : Nat) : Prop where
  slot : i < procShmMax
  shows : ∃ t, w.task p = some t ∧ t.window i = some n

theorem Window.place (h : Window w p i n) (hx : x < 4096) :
    w.place p (slotAddr i + x) = some (.object n x) := by
  obtain ⟨hi, t, ht, hn⟩ := h
  have hi4 : i < 4 := hi
  have hpage : (slotAddr i + x) / pageSize = shmUserBase / pageSize + i
      ∧ (slotAddr i + x) % pageSize = x := by
    unfold slotAddr shmUserBase shmPageSize pageSize
    omega
  have hin : InWindow (slotAddr i + x) := by
    unfold InWindow
    rw [hpage.1]
    exact ⟨Nat.le_add_right _ _, Nat.add_lt_add_left hi _⟩
  have hslot : windowSlot (slotAddr i + x) = i := by
    unfold windowSlot
    rw [hpage.1]
    omega
  unfold World.place
  rw [ht]
  dsimp only
  rw [if_pos hin, hslot, hn, hpage.2]
  rfl

theorem Window.addr_lt (h : Window w p i n) (hx : x < 4096) : slotAddr i + x < 2 ^ 32 := by
  have hi : i < 4 := h.slot
  unfold slotAddr shmUserBase shmPageSize pageSize
  omega

/-- A byte of an object is written. -/
theorem At.store (h : At L p w out s) (hw : Window w p i n) (hx : x < 4096) (b : UInt8) :
    wp (kernelEnv L p waits) (User.store (slotAddr i + x) b)
      (fun _ => At L p (w.write p b (.object n x)) out) s := by
  have hstep : w.step (.store p (slotAddr i + x) b) = w.write p b (.object n x) := by
    rw [World.step_store, hw.place hx]
    rfl
  obtain ⟨tr, hr, hw'⟩ := h.run
  obtain ⟨k', hs, _, _⟩ := hr.store_ok (x := .object n x) h.live (hw.addr_lt hx) hr.few
    (by rw [hw']; exact hw.place hx) b
  have hfew : FewObjects k' := by
    cases hs with
    | store _ _ hst =>
        unfold userStore at hst
        obtain ⟨a, _, hk⟩ := Option.map_eq_some_iff.mp hst
        rw [← hk]
        exact hr.few
  refine ⟨Or.inr ⟨(), _, .store ⟨hs, (fun c hc => by cases hc), hfew⟩⟩, fun r s' hs => ?_⟩
  cases hs with
  | store hg =>
      obtain ⟨t, ht, _⟩ := hw.shows
      have := h.step hg (by rw [hstep]; exact fun h0 => by cases ht.symm.trans h0)
      rwa [hstep] at this

/-- A byte of an object is read. -/
theorem At.load (h : At L p w out s) (hw : Window w p i n) (hx : x < 4096) :
    wp (kernelEnv L p waits) (User.load (slotAddr i + x))
      (fun b s' => b = w.object n x ∧ At L p w out s') s := by
  obtain ⟨tr, hr, hw'⟩ := h.run
  obtain ⟨hinv, ha⟩ := agrees_run hr
  have hload : userLoad s.kernel p (slotAddr i + x) = some (w.object n x) := by
    rw [ha.load_eq hinv h.live (hw.addr_lt hx), hw']
    unfold World.load
    rw [hw.place hx]
    rfl
  refine ⟨Or.inr ⟨_, _, .load (hw.addr_lt hx) hload⟩, fun b s' hs => ?_⟩
  cases hs with
  | load _ hb => exact ⟨Option.some.inj (hb.symm.trans hload), h⟩

/-- `shm_get` changes nothing that a program can see. -/
theorem At.gets {s' : Terminal} {key id : Int} (h : At L p w out s)
    (hs : Serves L p s (.shmGet key) id s') : id < 2 ^ 31 ∧ At L p w out s' := by
  obtain ⟨t, ht⟩ := h.task
  obtain ⟨tr, hr, _⟩ := h.run
  have hids := (agrees_run hr).1.ids
  have hfew : s.kernel.shmCreated < 2 ^ 31 - 1 := hr.few
  cases hs with
  | shmGet hg =>
      refine ⟨?_, h.step hg fun h0 => by cases ht.symm.trans h0⟩
      have hstep := hg.1
      cases hstep with
      | call hstep =>
          cases hstep with
          | shmGet _ hc =>
              rcases shmGet_ok hc with ⟨hid, _⟩ | ⟨o, ho, hid, _⟩ | ⟨_, _, _, _, _, _, _, _, _, hid, _⟩
              · rw [hid]
                decide
              · obtain ⟨hlt, hu, _⟩ := findByKey_some ho
                have hbirth := hids.birth_lt o hlt hu
                rw [hid, hids.id o hlt hu]
                omega
              · rw [hid, hids.next]
                omega

theorem At.shmGet (h : At L p w out s) (key : Int) (hwaits : waits (.shmGet key)) :
    wp (kernelEnv L p waits) (User.shmGet key) (fun id s' => id < 2 ^ 31 ∧ At L p w out s') s :=
  ⟨Or.inl hwaits, fun (_ : Int) _ hs => h.gets hs⟩

theorem At.shmDump (h : At L p w out s) :
    wp (kernelEnv L p waits) User.shmDump (fun _ s' => ∃ text, At L p w (out ++ text) s') s := by
  refine ⟨Or.inr ⟨(), _, .shmDump []⟩, fun r s' hs => ?_⟩
  cases hs with
  | shmDump text => exact ⟨text, h.run, h.live, by rw [h.console]⟩

theorem setSlot_task (w : World) (p i : Nat) (o : Option Nat) (q : Nat) :
    (w.setSlot p i o).task q
      = if q = p then (w.task p).map fun t => { t with window := Function.update t.window i o }
        else w.task q := task_setTask ..

theorem setSlot_self (ht : w.task p = some t) (i : Nat) (o : Option Nat) :
    (w.setSlot p i o).task p = some { t with window := Function.update t.window i o } := by
  rw [setSlot_task, if_pos rfl, ht]
  rfl

/-- A slot is free for the world if it is for the kernel. -/
theorem At.free_iff (h : At L p w out s) (ht : w.task p = some t) (hi : i < procShmMax) :
    t.window i = none ↔ ((s.kernel.procs p).shmMappings i).used = 0 := by
  obtain ⟨tr, hr, hw⟩ := h.run
  have htask := (agrees_run hr).2.task p h.live.1
  rw [hw, ht] at htask
  rw [htask.2.2.2 i hi]
  unfold shown
  simp

theorem slotAddr_ne_zero (i : Nat) : slotAddr i ≠ 0 := by
  unfold slotAddr shmUserBase shmPageSize pageSize
  omega

/-- `shm_attach` takes a free slot, or fails. -/
theorem At.attaches {s' : Terminal} {id : Int} {ret : Nat} (h : At L p w out s)
    (ht : w.task p = some t) (hs : Serves L p s (.shmAttach id) ret s') :
    (ret = 0 ∧ At L p w out s') ∨ ∃ i, i < procShmMax ∧ ret = slotAddr i ∧ t.window i = none
      ∧ At L p (w.setSlot p i (some (id - 1).toNat)) out s' := by
  cases hs with
  | shmAttach hg =>
      have hstep := hg.1
      cases hstep with
      | call hstep =>
          cases hstep with
          | shmAttach _ hat =>
              rcases shmAttach_ok hat with ⟨rfl, rfl⟩ | ⟨_, slot, _, _, hslot, hfree, _, hret, _⟩
              · exact Or.inl ⟨rfl, h⟩
              · have hne : ret ≠ 0 := hret ▸ slotAddr_ne_zero slot
                have hcall : w.step (.call (.shmAttach p id ret))
                    = w.setSlot p slot (some (id - 1).toNat) := by
                  show (if ret = 0 then w else w.setSlot p (windowSlot ret) _) = _
                  rw [if_neg hne, hret, windowSlot_slotAddr]
                have hat' := h.step hg (by
                  rw [hcall, setSlot_self ht]
                  exact Option.some_ne_none _)
                rw [hcall] at hat'
                exact Or.inr ⟨slot, hslot, hret, (h.free_iff ht hslot).mpr hfree, hat'⟩

theorem At.shmAttach (h : At L p w out s) (ht : w.task p = some t) (id : Int)
    (hwaits : waits (.shmAttach id)) :
    wp (kernelEnv L p waits) (User.shmAttach id) (fun ret s' => (ret = 0 ∧ At L p w out s')
      ∨ ∃ i, i < procShmMax ∧ ret = slotAddr i ∧ t.window i = none
        ∧ At L p (w.setSlot p i (some (id - 1).toNat)) out s') s :=
  ⟨Or.inl hwaits, fun (_ : Nat) _ hs => h.attaches ht hs⟩

/-- `shm_detach` clears the slot. -/
theorem At.shmDetach (h : At L p w out s) (hw : Window w p i n) :
    wp (kernelEnv L p waits) (User.shmDetach (slotAddr i))
      (fun _ => At L p (w.setSlot p i none) out) s := by
  obtain ⟨tr, hr, _⟩ := h.run
  have hinv := (agrees_run hr).1
  obtain ⟨ret, k', hdet⟩ := shmDetach_total (slotAddr i) h.live.1 hinv.own
  have hfew : FewObjects k' := by
    unfold FewObjects
    rw [(thins_shmDetach hdet).shmCreated]
    exact hr.few
  have hguard : GuardedUserStep L s.kernel (.call (.shmDetach p (slotAddr i) ret)) k' :=
    ⟨.call (.shmDetach h.live hdet), (fun c hc => by cases hc; trivial), hfew⟩
  refine ⟨Or.inr ⟨ret, _, .shmDetach hguard⟩, fun ret s' hs => ?_⟩
  cases hs with
  | shmDetach hg =>
      obtain ⟨t, ht, hn⟩ := hw.shows
      have hused : ((s.kernel.procs p).shmMappings i).used ≠ 0 := by
        intro h0
        rw [(h.free_iff ht hw.slot).mpr h0] at hn
        cases hn
      have hmapped : Mapped s.kernel p i (slotAddr i) :=
        ⟨hw.slot, hused, hinv.own.window p h.live.1 i hw.slot hused⟩
      have hstep := hg.1
      cases hstep with
      | call hstep =>
          cases hstep with
          | shmDetach _ hdet =>
              rcases shmDetach_ok hdet with ⟨_, _, hno⟩ | ⟨rfl, _⟩
              · exact absurd hmapped (hno i)
              · have hcall : w.step (.call (.shmDetach p (slotAddr i) 0)) = w.setSlot p i none := by
                  show (if (0 : Int) = 0 then w.setSlot p (windowSlot (slotAddr i)) none else w) = _
                  rw [if_pos rfl, windowSlot_slotAddr]
                have hat' := h.step hg (by
                  rw [hcall, setSlot_self ht]
                  exact Option.some_ne_none _)
                rwa [hcall] at hat'

/-! ## Strings in an object -/

theorem Window.write (h : Window w p i n) (b : UInt8) (n' x : Nat) :
    Window (w.write p b (.object n' x)) p i n := ⟨h.slot, h.shows⟩

/-- `copy_string` puts the string there. -/
theorem At.copyString {src : Mem} {b e : Nat} {l : List UInt8} (h : At L p w out s)
    (hw : Window w p i n) (hl : HoldsString src b l) (he : b + l.length < e)
    (hx : x + l.length < 4096) :
    wp (kernelEnv L p waits) (User.copyString (slotAddr i + x) src b e) (fun _ s' => ∃ w',
      At L p w' out s' ∧ w'.task = w.task ∧ HoldsString (w'.object n) x l
        ∧ ∀ y, y < x → w'.object n y = w.object n y) s := by
  induction l generalizing b x w s with
  | nil =>
      rw [User.copyString, if_pos (by simpa using he), if_pos (holdsString_nil.mp hl)]
      refine wp_mono (h.store hw (by simpa using hx) 0) fun _ s' h' => ⟨_, h', rfl, ?_, fun y hy => ?_⟩
      · refine holdsString_nil.mpr ?_
        show Function.update w.object n (Function.update (w.object n) x 0) n x = 0
        rw [Function.update_self, Function.update_self]
      · show Function.update w.object n (Function.update (w.object n) x 0) n y = _
        rw [Function.update_self, Function.update_of_ne (by omega)]
  | cons c l ih =>
      rw [List.length_cons] at he hx
      obtain ⟨hc, hc0, hl⟩ := holdsString_cons.mp hl
      rw [User.copyString, if_pos (by omega), if_neg (hc ▸ hc0), hc]
      refine wp_bind _ _ (wp_mono (h.store hw (by omega) c) fun _ s₁ h₁ => ?_)
      have hw₁ := hw.write c n x
      refine wp_mono (ih (x := x + 1) h₁ hw₁ hl (by omega) (by omega)) fun _ s' h' => ?_
      obtain ⟨w', h', htask, hs, hbefore⟩ := h'
      have hobj : ∀ y, (w.write p c (.object n x)).object n y
          = Function.update (w.object n) x c y := by
        intro y
        show Function.update w.object n (Function.update (w.object n) x c) n y = _
        rw [Function.update_self]
      refine ⟨w', h', htask, holdsString_cons.mpr ⟨?_, hc0, hs⟩, fun y hy => ?_⟩
      · rw [hbefore x (by omega), hobj, Function.update_self]
      · rw [hbefore y (by omega), hobj, Function.update_of_ne (by omega)]

/-- `printString` prints it. -/
theorem At.printStringAt {l : List UInt8} (h : At L p w out s) (hw : Window w p i n)
    (hl : HoldsString (w.object n) x l) (hx : x + l.length < 4096) :
    wp (kernelEnv L p waits) (User.printStringAt (slotAddr i + x)) (fun _ => At L p w (out ++ l)) s := by
  induction l generalizing x out s with
  | nil =>
      rw [List.length_nil, Nat.add_zero] at hx
      rw [User.printStringAt, if_pos (hw.addr_lt hx)]
      refine wp_bind _ _ (wp_mono (h.load hw hx) fun b s₁ h₁ => ?_)
      obtain ⟨rfl, h₁⟩ := h₁
      rw [if_pos (holdsString_nil.mp hl), List.append_nil]
      exact h₁
  | cons c l ih =>
      rw [List.length_cons] at hx
      obtain ⟨hc, hc0, hl⟩ := holdsString_cons.mp hl
      rw [User.printStringAt, if_pos (hw.addr_lt (by omega))]
      refine wp_bind _ _ (wp_mono (h.load hw (by omega)) fun b s₁ h₁ => ?_)
      obtain ⟨rfl, h₁⟩ := h₁
      rw [hc, if_neg hc0]
      refine wp_bind _ _ (wp_mono (h₁.say [c]) fun _ s₂ h₂ => ?_)
      have := ih (x := x + 1) h₂ hl (by omega)
      rwa [List.append_assoc] at this

/-- `strcmp` finds it to be the same. -/
theorem At.strcmpAt {m : Mem} {b e : Nat} {l : List UInt8} (h : At L p w out s)
    (hw : Window w p i n) (hl : HoldsString (w.object n) x l) (hx : x + l.length < 4096)
    (hm : HoldsString m b l) (he : b + l.length < e) :
    wp (kernelEnv L p waits) (User.strcmpAt (slotAddr i + x) m b e)
      (fun r s' => r = 0 ∧ At L p w out s') s := by
  induction l generalizing x b s with
  | nil =>
      rw [List.length_nil, Nat.add_zero] at hx he
      rw [User.strcmpAt, if_pos he]
      refine wp_bind _ _ (wp_mono (h.load hw hx) fun c s₁ h₁ => ?_)
      obtain ⟨rfl, h₁⟩ := h₁
      rw [holdsString_nil.mp hl, if_neg fun hc => hc.1 rfl]
      exact ⟨by rw [holdsString_nil.mp hm]; rfl, h₁⟩
  | cons c l ih =>
      rw [List.length_cons] at hx he
      obtain ⟨hc, hc0, hl⟩ := holdsString_cons.mp hl
      obtain ⟨hmc, _, hm⟩ := holdsString_cons.mp hm
      rw [User.strcmpAt, if_pos (by omega)]
      refine wp_bind _ _ (wp_mono (h.load hw (by omega)) fun b' s₁ h₁ => ?_)
      obtain ⟨rfl, h₁⟩ := h₁
      rw [hc, hmc, if_pos ⟨hc0, hc0, rfl⟩]
      exact ih (x := x + 1) h₁ hl (by omega) hm (by omega)

/-! ## The test -/

/-- What a test prints that passes, before its first `shm_dump`. -/
def passText (id a b : Nat) : List UInt8 :=
  User.shmtestColon ++ ascii ['i', 'd', '='] ++ numeral id ++ [10]
    ++ (User.shmtestColon ++ ascii ['v', 'a', '_', 'a', '=', '0', 'x'] ++ hexadecimal 8 a
      ++ ascii [' ', 'v', 'a', '_', 'b', '=', '0', 'x'] ++ hexadecimal 8 b ++ [10])
    ++ (User.shmtestColon ++ ascii ['r', 'e', 'a', 'd', ' ', 'v', 'i', 'a', ' ', 'v', 'a', '_', 'b',
      ':', ' '] ++ User.sharedMemoryOk ++ [10])
    ++ (User.shmtestColon ++ User.line ['P', 'A', 'S', 'S'])

/-- What a test prints. -/
inductive Tested : List UInt8 → Prop where
  | noObject : Tested (User.shmtestColon ++ User.line ['s', 'h', 'm', '_', 'g', 'e', 't', ' ',
      'f', 'a', 'i', 'l', 'e', 'd'])
  | noSlot : Tested (User.shmtestColon ++ User.line ['s', 'h', 'm', '_', 'a', 't', 't', 'a', 'c', 'h',
      ' ', 'f', 'a', 'i', 'l', 'e', 'd'])
  | pass {i j : Nat} (id : Nat) (dump dump' : List UInt8) : i < procShmMax → j < procShmMax → i ≠ j →
      Tested (passText id (slotAddr i) (slotAddr j) ++ dump ++ dump')

/-- The object that has been attached is seen there. -/
theorem Window.attached (ht : w.task p = some t) (hi : i < procShmMax) (n : Nat) :
    Window (w.setSlot p i (some n)) p i n :=
  ⟨hi, _, setSlot_self ht i (some n), Function.update_self i (some n) t.window⟩

/-- The other slots stay. -/
theorem Window.other {j : Nat} (h : Window w p i n) (hij : i ≠ j) (o : Option Nat) :
    Window (w.setSlot p j o) p i n := by
  obtain ⟨hi, t, ht, hn⟩ := h
  refine ⟨hi, _, setSlot_self ht j o, ?_⟩
  show Function.update t.window j o i = some n
  rw [Function.update_of_ne hij, hn]

theorem Window.congr {w' : World} (h : Window w p i n) (htask : w'.task = w.task) :
    Window w' p i n := ⟨h.slot, by rw [htask]; exact h.shows⟩

theorem setSlot_congr {w' : World} (htask : w'.task = w.task) (i : Nat) (o : Option Nat) :
    (w'.setSlot p i o).task = (w.setSlot p i o).task := by
  funext q
  rw [setSlot_task, setSlot_task, htask]

/-- A slot that was free is so again. -/
theorem setSlot_cleared {o : Option Nat} (ht : w.task p = some t) (hfree : t.window i = none) :
    ((w.setSlot p i o).setSlot p i none).task = w.task := by
  funext q
  rw [setSlot_task, setSlot_self ht, setSlot_task]
  by_cases hq : q = p
  · rw [if_pos hq, hq, ht]
    show some { t with window := Function.update (Function.update t.window i o) i none } = some t
    rw [Function.update_idem, ← hfree, Function.update_eq_self]
  · rw [if_neg hq, if_neg hq]

/-- Slots are cleared in either order. -/
theorem setSlot_comm {j : Nat} (hij : i ≠ j) (o o' : Option Nat) :
    ((w.setSlot p i o).setSlot p j o').task = ((w.setSlot p j o').setSlot p i o).task := by
  funext q
  simp only [setSlot_task]
  by_cases hq : q = p
  · rw [if_pos hq, if_pos hq]
    simp only [if_true, Option.map_map]
    refine congrArg (fun f => (w.task p).map f) (funext fun t => ?_)
    show { t with window := Function.update (Function.update t.window i o) j o' }
      = { t with window := Function.update (Function.update t.window j o') i o }
    rw [Function.update_comm hij]
  · rw [if_neg hq, if_neg hq, if_neg hq, if_neg hq]

/-- An object that is attached twice, and what comes of it when both slots are cleared. -/
theorem attached_twice {j : Nat} (ht : w.task p = some t) (hi : i < procShmMax)
    (hfree : t.window i = none) (hj : j < procShmMax)
    (hfree' : Function.update t.window i (some n) j = none) :
    i ≠ j ∧ Window ((w.setSlot p i (some n)).setSlot p j (some n)) p i n
    ∧ Window ((w.setSlot p i (some n)).setSlot p j (some n)) p j n
    ∧ ((((w.setSlot p i (some n)).setSlot p j (some n)).setSlot p i none).setSlot p j none).task
      = w.task := by
  have ht' := setSlot_self ht i (some n)
  have hij : i ≠ j := by
    rintro rfl
    rw [Function.update_self] at hfree'
    cases hfree'
  refine ⟨hij, (Window.attached ht hi n).other hij _, .attached ht' hj n, ?_⟩
  rw [setSlot_comm hij, setSlot_congr (setSlot_cleared ht' hfree')]
  exact setSlot_cleared ht hfree

/-- A number in hexadecimal, in front of a format. -/
theorem printf_hex {m : Mem} {e : Nat} {fmt rest : List UInt8} {vargs : List (BitVec 32)}
    (hrest : printf m e fmt vargs = .ok rest) (a : Nat) (ha : a < 2 ^ 32) :
    printf m e (37 :: 120 :: fmt) (BitVec.ofNat 32 a :: vargs) = .ok (hexadecimal 8 a ++ rest) := by
  have hconv : convert m e (BitVec.ofNat 32 a) .hex = .ok (hexadecimal 8 a) := by
    show Except.ok (printPointer (BitVec.ofNat 32 a) 8) = _
    rw [printPointer_eq, BitVec.toNat_ofNat, Nat.mod_eq_of_lt ha]
  rw [printf_convert (k := .hex) rfl, hconv, ok_bind, hrest]
  rfl

theorem print_addresses {a b : Nat} (ha : a < 2 ^ 32) (hb : b < 2 ^ 32) :
    User.print (User.shmtestColon ++ User.line ['v', 'a', '_', 'a', '=', '0', 'x', '%', 'x', ' ', 'v',
      'a', '_', 'b', '=', '0', 'x', '%', 'x']) [BitVec.ofNat 32 a, BitVec.ofNat 32 b]
    = say (User.shmtestColon ++ ascii ['v', 'a', '_', 'a', '=', '0', 'x'] ++ hexadecimal 8 a
      ++ ascii [' ', 'v', 'a', '_', 'b', '=', '0', 'x'] ++ hexadecimal 8 b ++ [10]) := by
  have hend : printf (fun _ => 0) 0 ([10] ++ []) [] = .ok ([10] ++ []) :=
    printf_text (by decide) (by rw [printf])
  have hmid := printf_text (l := ascii [' ', 'v', 'a', '_', 'b', '=', '0', 'x']) (by decide)
    (printf_hex hend b hb)
  have hall := printf_text (l := User.shmtestColon ++ ascii ['v', 'a', '_', 'a', '=', '0', 'x'])
    (by decide) (printf_hex hmid a ha)
  have hfmt : User.shmtestColon ++ User.line ['v', 'a', '_', 'a', '=', '0', 'x', '%', 'x', ' ', 'v',
      'a', '_', 'b', '=', '0', 'x', '%', 'x']
    = User.shmtestColon ++ ascii ['v', 'a', '_', 'a', '=', '0', 'x']
      ++ 37 :: 120 :: (ascii [' ', 'v', 'a', '_', 'b', '=', '0', 'x'] ++ 37 :: 120 :: ([10] ++ [])) := rfl
  unfold User.print User.printf
  rw [hfmt, hall]
  simp only [List.append_assoc, List.append_nil]
  rfl

theorem print_id {id : Int} (h0 : 0 ≤ id) (hlt : id < 2 ^ 31) :
    User.print (User.shmtestColon ++ User.line ['i', 'd', '=', '%', 'd']) [BitVec.ofInt 32 id]
    = say (User.shmtestColon ++ ascii ['i', 'd', '='] ++ numeral id.toNat ++ [10]) := by
  have hnat : (BitVec.ofInt 32 id).toNat = id.toNat ∧ 0 ≤ (BitVec.ofInt 32 id).toInt := by
    rw [BitVec.toNat_ofInt, BitVec.toInt_ofInt, Int.bmod_def]
    omega
  rw [← hnat.1]
  exact print_number (User.shmtestColon ++ ascii ['i', 'd', '=']) [10] (by decide) (by decide) hnat.2

/-- The second half of the test, once two slots show the object. -/
theorem shared_wp {j : Nat} {id : Int} (h : At L p w out s) (hi : Window w p i n)
    (hj : Window w p j n) (hij : i ≠ j) (h0 : 0 ≤ id) (hid : id < 2 ^ 31) :
    wp (kernelEnv L p waits) (do
      User.copyString (slotAddr i) (literal User.sharedMemoryOk) 0 (User.sharedMemoryOk.length + 1)
      User.print (User.shmtestColon ++ User.line ['i', 'd', '=', '%', 'd']) [BitVec.ofInt 32 id]
      User.print (User.shmtestColon ++ User.line ['v', 'a', '_', 'a', '=', '0', 'x', '%', 'x', ' ',
        'v', 'a', '_', 'b', '=', '0', 'x', '%', 'x'])
        [BitVec.ofNat 32 (slotAddr i), BitVec.ofNat 32 (slotAddr j)]
      User.print (User.shmtestColon ++ ascii ['r', 'e', 'a', 'd', ' ', 'v', 'i', 'a', ' ', 'v', 'a',
        '_', 'b', ':', ' ']) []
      User.printStringAt (slotAddr j)
      User.print (User.line []) []
      let cmp ← User.strcmpAt (slotAddr j) (literal User.sharedMemoryOk) 0
        (User.sharedMemoryOk.length + 1)
      if cmp = 0 then User.print (User.shmtestColon ++ User.line ['P', 'A', 'S', 'S']) []
      else User.print (User.shmtestColon ++ User.line ['F', 'A', 'I', 'L']) []
      User.shmDump
      let _ ← User.shmDetach (slotAddr i)
      let _ ← User.shmDetach (slotAddr j)
      User.shmDump)
      (fun _ s' => ∃ w' dump dump',
        At L p w' (out ++ (passText id.toNat (slotAddr i) (slotAddr j) ++ dump ++ dump')) s'
        ∧ w'.task = ((w.setSlot p i none).setSlot p j none).task) s := by
  have hlit : HoldsString (literal User.sharedMemoryOk) 0 User.sharedMemoryOk :=
    holdsString_literal (by decide)
  have hlen : User.sharedMemoryOk.length = 16 := rfl
  refine wp_bind _ _ (wp_mono (h.copyString (x := 0) hi hlit (by omega) (by omega))
    fun _ s₁ h₁ => ?_)
  obtain ⟨w₁, h₁, htask, hs, _⟩ := h₁
  have hi₁ := hi.congr htask
  have hj₁ := hj.congr htask
  rw [print_id h0 hid, print_addresses (slotAddr_lt hi.slot) (slotAddr_lt hj.slot),
    print_text (by decide)]
  refine wp_bind _ _ (wp_mono (h₁.say _) fun _ s₂ h₂ => ?_)
  refine wp_bind _ _ (wp_mono (h₂.say _) fun _ s₃ h₃ => ?_)
  refine wp_bind _ _ (wp_mono (h₃.say _) fun _ s₄ h₄ => ?_)
  refine wp_bind _ _ (wp_mono (h₄.printStringAt (x := 0) hj₁ hs (by omega)) fun _ s₅ h₅ => ?_)
  rw [print_text (by decide), show User.line [] = [10] from rfl]
  refine wp_bind _ _ (wp_mono (h₅.say _) fun _ s₆ h₆ => ?_)
  refine wp_bind _ _ (wp_mono (h₆.strcmpAt (x := 0) hj₁ hs (by omega) hlit (by omega))
    fun (cmp : Int) s₇ h₇ => ?_)
  obtain ⟨rfl, h₇⟩ := h₇
  dsimp only
  rw [if_pos rfl, print_text (by decide)]
  refine wp_bind _ _ (wp_mono (h₇.say _) fun _ s₈ h₈ => ?_)
  refine wp_bind _ _ (wp_mono h₈.shmDump fun _ s₉ h₉ => ?_)
  obtain ⟨dump, h₉⟩ := h₉
  refine wp_bind _ _ (wp_mono (h₉.shmDetach hi₁) fun _ s₁₀ h₁₀ => ?_)
  refine wp_bind _ _ (wp_mono (h₁₀.shmDetach (hj₁.other (Ne.symm hij) none)) fun _ s₁₁ h₁₁ => ?_)
  refine wp_mono h₁₁.shmDump fun _ s' h' => ?_
  obtain ⟨dump', h'⟩ := h'
  refine ⟨_, dump, dump', ?_, setSlot_congr (setSlot_congr htask i none) j none⟩
  simpa only [passText, User.line, List.append_assoc] using h'

theorem shmtest_wp (h : At L p w out s) :
    wp (kernelEnv L p MayPanic) User.runShmtest
      (fun _ s' => ∃ w' text, Tested text ∧ At L p w' (out ++ text) s' ∧ w'.task = w.task) s := by
  obtain ⟨t, ht⟩ := h.task
  unfold User.runShmtest
  refine wp_bind _ _ (wp_mono (h.shmGet 100 trivial) fun (id : Int) s₁ h₁ => ?_)
  obtain ⟨hid, h₁⟩ := h₁
  by_cases hneg : id < 0
  · rw [if_pos hneg, print_text (by decide)]
    exact wp_mono (h₁.say _) fun _ s' h' => ⟨w, _, .noObject, h', rfl⟩
  rw [if_neg hneg]
  refine wp_bind _ _ (wp_mono (h₁.shmAttach ht id trivial) fun (a : Nat) s₂ h₂ => ?_)
  rcases h₂ with ⟨rfl, h₂⟩ | ⟨i, hi, rfl, hfree, h₂⟩
  · -- the first `shm_attach` fails
    refine wp_bind _ _ (wp_mono (h₂.shmAttach ht id trivial) fun (b : Nat) s₃ h₃ => ?_)
    rw [if_pos (Or.inl rfl), print_text (by decide)]
    rcases h₃ with ⟨rfl, h₃⟩ | ⟨j, hj, rfl, hfree, h₃⟩
    · refine wp_bind _ _ (wp_mono (h₃.say _) fun _ s₄ h₄ => ?_)
      dsimp only
      rw [if_neg (not_not.mpr rfl), if_neg (not_not.mpr rfl)]
      exact ⟨w, _, .noSlot, h₄, rfl⟩
    · refine wp_bind _ _ (wp_mono (h₃.say _) fun _ s₄ h₄ => ?_)
      dsimp only
      rw [if_neg (not_not.mpr rfl), if_pos (slotAddr_ne_zero j)]
      refine wp_bind _ _ (wp_mono (h₄.shmDetach (.attached ht hj _)) fun _ s₅ h₅ => ?_)
      exact ⟨_, _, .noSlot, h₅, setSlot_cleared ht hfree⟩
  · have ht₁ := setSlot_self ht i (some (id - 1).toNat)
    refine wp_bind _ _ (wp_mono (h₂.shmAttach ht₁ id trivial) fun (b : Nat) s₃ h₃ => ?_)
    rcases h₃ with ⟨rfl, h₃⟩ | ⟨j, hj, rfl, hfree', h₃⟩
    · -- the second fails
      rw [if_pos (Or.inr rfl), print_text (by decide)]
      refine wp_bind _ _ (wp_mono (h₃.say _) fun _ s₄ h₄ => ?_)
      dsimp only
      rw [if_pos (slotAddr_ne_zero i), if_neg (not_not.mpr rfl)]
      refine wp_bind _ _ (wp_mono (h₄.shmDetach (.attached ht hi _)) fun _ s₅ h₅ => ?_)
      exact ⟨_, _, .noSlot, h₅, setSlot_cleared ht hfree⟩
    · obtain ⟨hij, hwi, hwj, hback⟩ := attached_twice ht hi hfree hj hfree'
      rw [if_neg (not_or.mpr ⟨slotAddr_ne_zero i, slotAddr_ne_zero j⟩)]
      refine wp_mono (shared_wp h₃ hwi hwj hij (by omega) hid) fun _ s' h' => ?_
      obtain ⟨w', dump, dump', h', htask⟩ := h'
      exact ⟨w', _, .pass id.toNat dump dump' hi hj hij, h', htask.trans hback⟩

/-- The test runs to its end if it gets the object twice. -/
theorem shmtest_returns {id : Int} {a b : Nat} {s₁ s₂ s₃ : Terminal} (h : At L p w out s)
    (hget : Serves L p s (.shmGet 100) id s₁) (hid : 0 ≤ id)
    (ha : Serves L p s₁ (.shmAttach id) a s₂) (ha0 : a ≠ 0)
    (hb : Serves L p s₂ (.shmAttach id) b s₃) (hb0 : b ≠ 0) :
    ∃ s' w' dump dump', Exec (kernelEnv L p MayPanic) User.runShmtest s (.ret ()) s'
      ∧ At L p w' (out ++ (passText id.toNat a b ++ dump ++ dump')) s' ∧ w'.task = w.task := by
  obtain ⟨t, ht⟩ := h.task
  obtain ⟨hlt, h₁⟩ := h.gets hget
  rcases h₁.attaches ht ha with ⟨h0, _⟩ | ⟨i, hi, rfl, hfree, h₂⟩
  · exact absurd h0 ha0
  have ht₁ := setSlot_self ht i (some (id - 1).toNat)
  rcases h₂.attaches ht₁ hb with ⟨h0, _⟩ | ⟨j, hj, rfl, hfree', h₃⟩
  · exact absurd h0 hb0
  obtain ⟨hij, hwi, hwj, hback⟩ := attached_twice ht hi hfree hj hfree'
  -- none of the calls that are left may panic
  obtain ⟨u, s', he, w', dump, dump', h', htask⟩ :=
    wp_returns (E := kernelEnv L p fun _ => False) (fun _ _ hno => hno)
      (shared_wp h₃ hwi hwj hij hid hlt)
  refine ⟨s', w', dump, dump', .call hget ?_, h', htask.trans hback⟩
  show Exec _ (if id < 0 then _ else _) s₁ _ _
  rw [if_neg (by omega)]
  refine .call ha (.call hb ?_)
  show Exec _ (if slotAddr i = 0 ∨ slotAddr j = 0 then _ else _) s₃ _ _
  rw [if_neg (not_or.mpr ⟨ha0, hb0⟩)]
  exact he.weaken fun _ _ _ _ hs => hs

end

/-- A kernel in which process 1 gets an object, and gets it twice. -/
theorem sample_answers : ∃ tr k s₁ s₂ s₃, UserRun sampleLayout tr k ∧ Live k 1
    ∧ Serves sampleLayout 1 ⟨k, []⟩ (.shmGet 100) 2 s₁
    ∧ Serves sampleLayout 1 s₁ (.shmAttach 2) (slotAddr 0) s₂
    ∧ Serves sampleLayout 1 s₂ (.shmAttach 2) (slotAddr 1) s₃ := by
  obtain ⟨k, n, hrun, hn, h, _, hmap, ⟨hu, _, hkey, _⟩, hrest⟩ :=
    gotten_run (L := sampleLayout) (by decide) (by decide)
  have hroom : driverPages.length + 2 * regionsNeeded sampleLayout 0 + 4 < maxRegions := by decide
  have hl := h.live (p := 1) (by decide) (by decide)
  -- the object in the table has another key
  have hnone : findByKey k 100 = none := findByKey_other (by rw [hkey]; decide) hrest
  obtain ⟨r, hs₁, h₁, _, hfew₁⟩ := h.shmGet hl (show (0 : Int) < 100 by decide) hnone
    (show 1 < shmMax by decide) (hrest 1 (by decide) (by decide))
    (fun j hj => Nat.lt_one_iff.mp hj ▸ hu) (by omega) (by decide)
  have hid₁ : ((created k 1 100 (k.regions 0).start (n + 1) r).shmTable 1).id = 2 := by
    rw [created_self]
    show k.nextShmId = 2
    rw [h.inv.ids.next, h.objects]
    rfl
  have hu₁ : ((created k 1 100 (k.regions 0).start (n + 1) r).shmTable 1).used = true := by
    rw [created_self]
    rfl
  have hmap₁ : ∀ i, i < procShmMax →
      (((created k 1 100 (k.regions 0).start (n + 1) r).procs 1).shmMappings i).used = 0 :=
    fun i hi => hmap 1 i (by decide) hi
  have hserve₁ : Serves sampleLayout 1 ⟨k, []⟩ (.shmGet 100) 2 ⟨_, []⟩ :=
    .shmGet ⟨.call hs₁, (fun c hc => by cases hc; trivial), hfew₁⟩
  have hat : At sampleLayout 1 _ [] ⟨k, []⟩ := ⟨⟨_, userRun_of_guarded hrun, rfl⟩, hl, rfl⟩
  obtain ⟨t, ht⟩ := hat.task
  have hat₁ := (hat.gets hserve₁).2
  generalize created k 1 100 (k.regions 0).start (n + 1) r = k₁ at *
  obtain ⟨k₂, n', hm, hs₂, hn', h₂, hfew₂, _⟩ := h₁.shmAttach (p := 1) (i := 0) (s := 1) hat₁.live
    (by decide) hu₁ (by decide) (hmap₁ 0 (by decide)) (fun j hj => absurd hj (Nat.not_lt_zero j))
    (by omega) (by decide)
  rw [hid₁] at hs₂ h₂ hfew₂
  have hserve₂ : Serves sampleLayout 1 ⟨k₁, []⟩ (.shmAttach 2) (slotAddr 0) ⟨_, []⟩ :=
    .shmAttach ⟨.call hs₂, (fun c hc => by cases hc; trivial), hfew₂⟩
  obtain ⟨i, _, hi0, _, hat₂⟩ :=
    (hat₁.attaches ht hserve₂).resolve_left fun h0 => slotAddr_ne_zero 0 h0.1
  obtain rfl := slotAddr_inj hi0
  have ht₂ := setSlot_self ht 0 (some ((2 : Int) - 1).toNat)
  have hu₂ : ((attached k₂ 1 0 1 2).shmTable 1).used = true := by
    unfold attached
    rw [setObj_self, (grow_mapPage hm).shmTable]
    exact hu₁
  -- slot 0 is taken, and slot 1 is free as it was
  have htaken : (((attached k₂ 1 0 1 2).procs 1).shmMappings 0).used ≠ 0 := by
    intro h0
    have hnone := (hat₂.free_iff ht₂ (by decide)).mpr h0
    dsimp only at hnone
    rw [Function.update_self] at hnone
    cases hnone
  have hfree : (((attached k₂ 1 0 1 2).procs 1).shmMappings 1).used = 0 := by
    refine (hat₂.free_iff ht₂ (by decide)).mp ?_
    dsimp only
    rw [Function.update_of_ne Nat.one_ne_zero]
    exact (hat₁.free_iff ht (by decide)).mpr (hmap₁ 1 (by decide))
  have hid₂ : ((attached k₂ 1 0 1 2).shmTable 1).id = 2 := by
    unfold attached
    rw [setObj_self, (grow_mapPage hm).shmTable]
    exact hid₁
  obtain ⟨k₃, _, _, hs₃, _, _, hfew₃, _⟩ := h₂.shmAttach (p := 1) (i := 1) (s := 1) hat₂.live
    (by decide) hu₂ (by decide) hfree (fun j hj => Nat.lt_one_iff.mp hj ▸ htaken) (by omega)
    (by decide)
  rw [hid₂] at hs₃ hfew₃
  exact ⟨_, k, _, _, _, userRun_of_guarded hrun, hl, hserve₁, hserve₂,
    .shmAttach ⟨.call hs₃, (fun c hc => by cases hc; trivial), hfew₃⟩⟩

/--
**The shared memory test never fails.** In whatever state of the kernel a process runs
`run_shmtest`, it never leaves an array, and each load, store, `shm_detach` and print that it comes
to is answered. If it comes to its end, it has said that it got no object, that it could
not attach it, or that it passed; it has not read anything else than what it wrote. Every process
then has the memory that it had before, with its window as it was.
-/
theorem shmtest_passes {L : Layout} {p : Nat} {tr : List UserEvent} {k : Kernel} {out : List UInt8}
    {prog : UserProg Unit} {s : Terminal} (h : UserRun L tr k) (hl : Live k p)
    (he : Exec (kernelEnv L p MayPanic) User.runShmtest ⟨k, out⟩ prog s) :
    (∀ e, prog ≠ .stop e)
    ∧ (∀ i next, prog = .call i next → MayPanic i ∨ ∃ r s', Serves L p s i r s')
    ∧ ∀ u, prog = .ret u → ∃ text tr', Tested text ∧ s.console = out ++ text
      ∧ UserRun L tr' s.kernel ∧ (World.after tr').task = (World.after tr).task := by
  have hat : At L p (World.after tr) out ⟨k, out⟩ := ⟨⟨tr, h, rfl⟩, hl, rfl⟩
  have hwp := he.wp (shmtest_wp hat)
  refine ⟨?_, ?_, ?_⟩
  · intro e heq
    rw [heq] at hwp
    exact hwp
  · intro i next heq
    rw [heq] at hwp
    exact hwp.1
  · intro u heq
    rw [heq] at hwp
    obtain ⟨w', text, htext, hat', htask⟩ := hwp
    obtain ⟨tr', hr, rfl⟩ := hat'.run
    exact ⟨text, tr', htext, hat'.console, hr, htask⟩

/-- A test that comes to its end. -/
theorem shmtest_passes_sample : ∃ k s, Live k 1
    ∧ Exec (kernelEnv sampleLayout 1 MayPanic) User.runShmtest ⟨k, []⟩ (.ret ()) s
    ∧ ∃ text tr', Tested text ∧ s.console = text ∧ UserRun sampleLayout tr' s.kernel := by
  obtain ⟨tr, k, s₁, s₂, s₃, hr, hl, hget, ha, hb⟩ := sample_answers
  have hat : At sampleLayout 1 (World.after tr) [] ⟨k, []⟩ := ⟨⟨tr, hr, rfl⟩, hl, rfl⟩
  obtain ⟨s, _, _, _, he, _⟩ := shmtest_returns hat hget (by decide) ha (slotAddr_ne_zero 0) hb
    (slotAddr_ne_zero 1)
  obtain ⟨text, tr', htext, hcon, hr', _⟩ := (shmtest_passes hr hl he).2.2 () rfl
  exact ⟨k, s, hl, he, text, tr', htext, hcon, hr'⟩

/--
**The shared memory test passes where it can.** If the kernel gives the process an object and
attaches it twice, the test runs to its end, whatever the kernel does in it: it writes the string
through the first address, reads it through the second, says `PASS`, and gives both slots back.
-/
theorem shmtest_completes {L : Layout} {p : Nat} {tr : List UserEvent} {k : Kernel}
    {out : List UInt8} {id : Int} {a b : Nat} {s₁ s₂ s₃ : Terminal} (h : UserRun L tr k)
    (hl : Live k p) (hget : Serves L p ⟨k, out⟩ (.shmGet 100) id s₁) (hid : 0 ≤ id)
    (ha : Serves L p s₁ (.shmAttach id) a s₂) (ha0 : a ≠ 0)
    (hb : Serves L p s₂ (.shmAttach id) b s₃) (hb0 : b ≠ 0) :
    ∃ s dump dump' tr', Exec (kernelEnv L p MayPanic) User.runShmtest ⟨k, out⟩ (.ret ()) s
      ∧ s.console = out ++ (passText id.toNat a b ++ dump ++ dump') ∧ UserRun L tr' s.kernel
      ∧ (World.after tr').task = (World.after tr).task := by
  have hat : At L p (World.after tr) out ⟨k, out⟩ := ⟨⟨tr, h, rfl⟩, hl, rfl⟩
  obtain ⟨s, w', dump, dump', he, hat', htask⟩ := shmtest_returns hat hget hid ha ha0 hb hb0
  obtain ⟨tr', hr, rfl⟩ := hat'.run
  exact ⟨s, dump, dump', tr', he, hat'.console, hr, htask⟩

/-- It can in process 1, after one call of `shm_get` for another key. -/
theorem shmtest_completes_sample : ∃ k s dump dump',
    Exec (kernelEnv sampleLayout 1 MayPanic) User.runShmtest ⟨k, []⟩ (.ret ()) s
    ∧ s.console = passText 2 (slotAddr 0) (slotAddr 1) ++ dump ++ dump' := by
  obtain ⟨tr, k, s₁, s₂, s₃, hr, hl, hget, ha, hb⟩ := sample_answers
  obtain ⟨s, dump, dump', _, he, hcon, _⟩ := shmtest_completes hr hl hget (by decide) ha
    (slotAddr_ne_zero 0) hb (slotAddr_ne_zero 1)
  exact ⟨k, s, dump, dump', he, hcon⟩

end Os1000.Proof
