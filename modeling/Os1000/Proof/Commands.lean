import Os1000.Proof.FileRuns
import Os1000.Proof.Format
import Os1000.Spec.CommandLine

/-!
# The shell does what its command lines mean

The line is collected in an array, up to a length, and compared with one string after another.
The array holds what was typed as far as it goes (`Collected`), and with the zero byte at the end
it is a string of fewer than 128 characters. Each comparison then decides a question about the
line, so that the chain of them finds the command that the line means, and no comparison, copy or
print leaves the array. Only the command `readfile` can, where the kernel returns a length that
its own buffer has no room for.
-/

namespace Os1000.Proof

open Os1000 Lib Command

/-! ## Strings -/

section

variable {m m' : Mem} {a e : Nat} {s t : List UInt8}

/-- `strcmp` with a string constant. -/
theorem strcmp_literal (h : HoldsString m a s) (ht : (0 : UInt8) ∉ t) (he : a + t.length < e) :
    ∃ r, strcmp m a e (literal t) 0 (t.length + 1) = .ok r ∧ (r = 0 ↔ s = t) := by
  have hlit := holdsString_literal ht
  obtain ⟨r, hr, hiff⟩ := strcmp_ok m a e (literal t) 0 (t.length + 1) (Or.inr hlit.ends) he
    (by omega)
  refine ⟨r, hr, hiff.trans ⟨fun hall => ?_, ?_⟩⟩
  · refine h.unique (holdsString_of_bytes ht (fun j hj => ?_) ?_)
    · rw [hall j (by omega)]
      exact hlit.byte hj
    · rw [hall t.length (Nat.le_refl _)]
      exact hlit.ends.zero
  · rintro rfl j hj
    rcases Nat.lt_or_eq_of_le hj with hj | rfl
    · exact Option.some.inj ((h.byte hj).symm.trans (hlit.byte hj))
    · exact h.ends.zero.trans hlit.ends.zero.symm

/-- `starts_with` -/
theorem startsWith_ok {b f : Nat} (h : HoldsString m a s) (h' : HoldsString m' b t)
    (he : a + s.length < e) (hf : b + t.length < f) :
    ∃ r, User.startsWith m a e m' b f = .ok r ∧ (r = true ↔ t <+: s) := by
  induction t generalizing a b s with
  | nil =>
      refine ⟨true, ?_, by simp⟩
      rw [User.startsWith, if_pos (by omega), if_pos (holdsString_nil.mp h')]
  | cons d t ih =>
      obtain ⟨hd, hd0, ht⟩ := holdsString_cons.mp h'
      rw [List.length_cons] at hf
      rw [User.startsWith, if_pos (by omega), if_neg (hd ▸ hd0), loadAt_ok (by omega), ok_bind, hd]
      cases s with
      | nil =>
          refine ⟨false, ?_, by simp⟩
          rw [if_pos (by rw [holdsString_nil.mp h]; exact hd0.symm)]
          rfl
      | cons c s =>
          obtain ⟨hc, _, hs⟩ := holdsString_cons.mp h
          rw [List.length_cons] at he
          rw [hc]
          by_cases hcd : c = d
          · rw [if_neg (not_not.mpr hcd)]
            obtain ⟨r, hr, hiff⟩ := ih hs ht (by omega) (by omega)
            exact ⟨r, hr, by rw [hiff, hcd, List.cons_prefix_cons]; simp⟩
          · rw [if_pos hcd]
            exact ⟨false, rfl, by simp [List.cons_prefix_cons, Ne.symm hcd]⟩

/-- `string_length` -/
theorem stringLength_ok (h : HoldsString m a s) (he : a + s.length < e) {len : Nat}
    (hlen : len ≤ s.length) : User.stringLength m a e len = .ok s.length := by
  induction hn : s.length - len generalizing len with
  | zero =>
      obtain rfl : len = s.length := by omega
      rw [User.stringLength, if_pos he, if_pos h.ends.zero]
  | succ n ih =>
      rw [User.stringLength, if_pos (by omega), if_neg (h.ends.nonzero len (by omega))]
      exact ih (by omega) (by omega)

theorem map_range_byte (h : HoldsString m a s) :
    ((List.range s.length).map fun i => m (a + i)) = s := by
  refine List.ext_getElem? fun j => ?_
  by_cases hj : j < s.length
  · rw [List.getElem?_map, List.getElem?_range hj, h.byte hj]
    rfl
  · rw [List.getElem?_eq_none (by simpa using hj), List.getElem?_eq_none (by omega)]

end

/-! ## Printing -/

section

variable {m : Mem} {e : Nat} {fmt : List UInt8} {vargs : List (BitVec 32)}

/-- Text in front of a format. -/
theorem printf_text {l rest : List UInt8} (hl : (37 : UInt8) ∉ l)
    (h : printf m e fmt vargs = .ok rest) : printf m e (l ++ fmt) vargs = .ok (l ++ rest) := by
  induction l with
  | nil => exact h
  | cons c l ih =>
      have ih := ih fun hc => hl (List.mem_cons_of_mem c hc)
      have hc : c ≠ 37 := fun hc => hl (hc ▸ List.mem_cons_self)
      rw [List.cons_append, List.cons_append]
      cases htail : l ++ fmt with
      | nil =>
          rw [htail, printf] at ih
          rw [← Except.ok.inj ih, printf, if_neg hc]
      | cons d tail =>
          rw [htail] at ih
          rw [printf_char hc, ih]
          rfl

/-- A text without directives is printed as it is. -/
theorem print_text {l : List UInt8} (hl : (37 : UInt8) ∉ l) : User.print l [] = say l := by
  have h : printf (fun _ => 0) 0 (l ++ []) [] = .ok (l ++ []) := printf_text hl (by rw [printf])
  rw [List.append_nil] at h
  unfold User.print User.printf
  rw [h]
  rfl

/-- A string between two texts. -/
theorem printf_string (pre post : List UInt8) {s : List UInt8} (hpre : (37 : UInt8) ∉ pre)
    (hpost : (37 : UInt8) ∉ post) (hs : HoldsString m 0 s) (he : s.length < e) :
    User.printf m e (pre ++ 37 :: 115 :: post) [0] = say (pre ++ s ++ post) := by
  have h0 : printf m e (post ++ []) [] = .ok (post ++ []) := printf_text hpost (by rw [printf])
  rw [List.append_nil] at h0
  have h1 : printf m e (37 :: 115 :: post) [0] = .ok (s ++ post) := by
    rw [printf_convert (k := .str) rfl, show convert m e 0 .str = .ok s from
      printString_iff.mpr ⟨hs, by simpa using he⟩, ok_bind, h0]
    rfl
  unfold User.printf
  rw [printf_text hpre h1, List.append_assoc]
  rfl

/-- A number between two texts. -/
theorem print_number (pre post : List UInt8) (hpre : (37 : UInt8) ∉ pre)
    (hpost : (37 : UInt8) ∉ post) {w : BitVec 32} (hw : 0 ≤ w.toInt) :
    User.print (pre ++ 37 :: 100 :: post) [w] = say (pre ++ numeral w.toNat ++ post) := by
  have hint : w.toInt = w.toNat := by
    rw [BitVec.toInt_eq_toNat_cond] at hw ⊢
    split
    · rfl
    · omega
  have h0 : printf (fun _ => 0) 0 (post ++ []) [] = .ok (post ++ []) :=
    printf_text hpost (by rw [printf])
  rw [List.append_nil] at h0
  have hnum : convert (fun _ => 0) 0 w .num = .ok (numeral w.toNat) := by
    refine (convert_iff .num).mpr (.num ?_ (by omega))
    rw [hint]
    exact canonicalInt_numeral w.toNat
  have h1 : printf (fun _ => 0) 0 (37 :: 100 :: post) [w] = .ok (numeral w.toNat ++ post) := by
    rw [printf_convert (k := .num) rfl, hnum, ok_bind, h0]
    rfl
  unfold User.print User.printf
  rw [printf_text hpre h1, List.append_assoc]
  rfl

end

/-! ## The commands -/

section

variable {cmdline : Mem} {text : List UInt8}

/-- The array holds a line. -/
structure IsLine (cmdline : Mem) (text : List UInt8) : Prop where
  holds : HoldsString cmdline 0 text
  length : text.length < 128

theorem ascii_length (word : List Char) : (ascii word).length = word.length := List.length_map _

theorem ifEquals_eq (h : IsLine cmdline text) {word : List Char} (h0 : (0 : UInt8) ∉ ascii word)
    (hlen : word.length < 128) (yes no : UserProg Unit) :
    User.ifEquals cmdline word yes no = if text = ascii word then yes else no := by
  obtain ⟨r, hr, hiff⟩ := strcmp_literal (e := 128) h.holds h0 (by rw [ascii_length]; omega)
  rw [ascii_length] at hr
  unfold User.ifEquals
  rw [show User.sizeofCmdline = 128 from rfl, hr]
  show (if r = 0 then yes else no) = _
  by_cases hr0 : r = 0
  · rw [if_pos hr0, if_pos (hiff.mp hr0)]
  · rw [if_neg hr0, if_neg fun ht => hr0 (hiff.mpr ht)]

theorem ifStartsWith_eq (h : IsLine cmdline text) {word : List Char} (h0 : (0 : UInt8) ∉ ascii word)
    (yes no : UserProg Unit) :
    User.ifStartsWith cmdline word yes no = if ascii word <+: text then yes else no := by
  have hlen := h.length
  obtain ⟨r, hr, hiff⟩ := startsWith_ok (e := 128) (f := word.length + 1) h.holds
    (holdsString_literal h0) (by omega) (by rw [ascii_length]; omega)
  unfold User.ifStartsWith
  rw [show User.sizeofCmdline = 128 from rfl, hr]
  show (if r = true then yes else no) = _
  by_cases hr0 : r = true
  · rw [if_pos hr0, if_pos (hiff.mp hr0)]
  · rw [if_neg hr0, if_neg fun ht => hr0 (hiff.mpr ht)]

/-- The command `readfile`. -/
theorem readfile_eq : User.readfile = perform .readfile := by
  unfold User.readfile perform
  refine congrArg (Prog.call _) (funext fun (r : FileReturn) => ?_)
  show (Prog.lift (if 0 ≤ r.a0 ∧ r.a0 < 128 then _ else _) >>= _)
    = (if 0 ≤ r.a0 ∧ r.a0 < 128 then _ else _)
  by_cases hin : 0 ≤ r.a0 ∧ r.a0 < 128
  · rw [if_pos hin, if_pos hin]
    obtain ⟨n, hn⟩ : ∃ n : Nat, r.a0 = n := ⟨r.a0.toNat, by omega⟩
    have hlen : ((List.range n).map r.user).length = n := by simp
    have hs := holdsString_takeWhile (m := Function.update r.user n 0) (a := 0)
      (s := (List.range n).map r.user)
      (fun j hj => by
        rw [hlen] at hj
        rw [Nat.zero_add, Function.update_of_ne (by omega), List.getElem?_map, List.getElem?_range hj]
        rfl)
      (by rw [hlen, Nat.zero_add, Function.update_self])
    have hle := List.Sublist.length_le (List.takeWhile_sublist (l := (List.range n).map r.user)
      (· ≠ (0 : UInt8)))
    rw [hlen] at hle
    rw [hn, Int.toNat_natCast]
    exact printf_string [] [10] (by decide) (by decide) hs
      (show _ < 128 by omega)
  · rw [if_neg hin, if_neg hin]
    rfl

/-- The command `send`, with a message. -/
theorem send_eq {message : List UInt8} (h : IsLine cmdline (sendWord ++ message)) :
    User.send cmdline = perform (.send message) := by
  have hm : HoldsString cmdline 5 message := h.holds.drop
  have hlen := h.length
  rw [List.length_append, show sendWord.length = 5 from rfl] at hlen
  unfold User.send perform
  rw [show User.sizeofCmdline = 128 from rfl, stringLength_ok hm (by omega) (Nat.zero_le _),
    Prog.lift_ok, Prog.ret_bind, map_range_byte hm]
  refine congrArg (Prog.call _) (funext fun (sent : BitVec 32) => ?_)
  show (if sent.toInt < 0 then _ else _) = (if sent.toInt < 0 then _ else _)
  by_cases hneg : sent.toInt < 0
  · rw [if_pos hneg, if_pos hneg]
    exact print_text (by decide)
  · rw [if_neg hneg, if_neg hneg]
    exact print_number (ascii ['s', 'e', 'n', 'd', ':', ' ']) (User.line [' ', 'b', 'y', 't', 'e', 's'])
      (by decide) (by decide) (by omega)

/-- The command `arp`, with an address or what should be one. -/
theorem arp_eq {address : List UInt8} (h : IsLine cmdline (arpWord ++ address)) :
    (∀ ip, Quad address ip → User.arp cmdline = perform (.arpRequest ip))
    ∧ ((∀ ip, ¬ Quad address ip) → User.arp cmdline = perform .arpUsage) := by
  have ha : HoldsString cmdline 4 address := h.holds.drop
  have hlen := h.length
  rw [List.length_append, show arpWord.length = 4 from rfl] at hlen
  obtain ⟨hyes, hno⟩ := parseIpv4_spec (e := 128) ha (by omega) (by omega) 0
  unfold User.arp
  rw [show User.sizeofCmdline = 128 from rfl]
  refine ⟨fun ip hq => ?_, fun hq => ?_⟩
  · rw [hyes ip hq, Prog.lift_ok, Prog.ret_bind, if_neg fun h => by cases h]
    unfold perform
    refine congrArg (Prog.call _) (funext fun (r : Int) => ?_)
    show (if r < 0 then _ else _) = (if r < 0 then _ else _)
    by_cases hneg : r < 0
    · rw [if_pos hneg, if_pos hneg]
      exact print_text (by decide)
    · rw [if_neg hneg, if_neg hneg]
      exact print_text (by decide)
  · rw [hno hq, Prog.lift_ok, Prog.ret_bind, if_pos rfl]
    exact print_text (by decide)

/-- The comparisons, as questions about the line. -/
theorem dispatch_if (h : IsLine cmdline text) : User.dispatch cmdline
    = if text = ascii ['h', 'e', 'l', 'l', 'o'] then perform .hello
      else if text = ascii ['e', 'x', 'i', 't'] then perform .exit
      else if text = ascii ['r', 'e', 'a', 'd', 'f', 'i', 'l', 'e'] then perform .readfile
      else if text = ascii ['w', 'r', 'i', 't', 'e', 'f', 'i', 'l', 'e'] then perform .writefile
      else if text = ascii ['s', 'e', 'n', 'd'] then perform .sendUsage
      else if sendWord <+: text then User.send cmdline
      else if text = ascii ['a', 'r', 'p'] then perform .arpDump
      else if text = ascii ['i', 'p'] then perform .ipv4Dump
      else if text = ascii ['s', 'h', 'm'] then perform .shmDump
      else if text = ascii ['s', 'h', 'm', 't', 'e', 's', 't'] then perform .shmtest
      else if arpWord <+: text then User.arp cmdline
      else perform (.unknown text) := by
  unfold User.dispatch
  rw [ifEquals_eq h (by decide) (by decide), ifEquals_eq h (by decide) (by decide),
    ifEquals_eq h (by decide) (by decide), ifEquals_eq h (by decide) (by decide),
    ifEquals_eq h (by decide) (by decide), ifStartsWith_eq h (by decide),
    ifEquals_eq h (by decide) (by decide), ifEquals_eq h (by decide) (by decide),
    ifEquals_eq h (by decide) (by decide), ifEquals_eq h (by decide) (by decide),
    ifStartsWith_eq h (by decide), print_text (by decide), print_text (by decide),
    print_text (by decide), readfile_eq]
  have hunknown : User.printf cmdline User.sizeofCmdline (User.line ['u', 'n', 'k', 'n', 'o', 'w', 'n',
      ' ', 'c', 'o', 'm', 'm', 'a', 'n', 'd', ':', ' ', '%', 's']) [0] = perform (.unknown text) :=
    printf_string (ascii ['u', 'n', 'k', 'n', 'o', 'w', 'n', ' ', 'c', 'o', 'm', 'm', 'a', 'n',
      'd', ':', ' ']) [10] (by decide) (by decide) h.holds h.length
  rw [hunknown]
  rfl

/-- A line that is no keyword. -/
theorem dispatch_other (h : IsLine cmdline text) (hkey : ∀ c, (text, c) ∉ keywords) :
    User.dispatch cmdline = if sendWord <+: text then User.send cmdline
      else if arpWord <+: text then User.arp cmdline else perform (.unknown text) := by
  have hne : ∀ {key c}, (key, c) ∈ keywords → text ≠ key := fun hk he => hkey _ (he ▸ hk)
  rw [dispatch_if h, if_neg (hne (c := .hello) (by simp [keywords])),
    if_neg (hne (c := .exit) (by simp [keywords])), if_neg (hne (c := .readfile) (by simp [keywords])),
    if_neg (hne (c := .writefile) (by simp [keywords])),
    if_neg (hne (c := .sendUsage) (by simp [keywords])),
    if_neg (hne (c := .arpDump) (by simp [keywords])),
    if_neg (hne (c := .ipv4Dump) (by simp [keywords])),
    if_neg (hne (c := .shmDump) (by simp [keywords])),
    if_neg (hne (c := .shmtest) (by simp [keywords]))]

/-- What follows `send ` or `arp ` does not make it a keyword. -/
theorem argument_not_keyword {word rest : List UInt8} (hw : word = sendWord ∨ word = arpWord)
    (c : Command) : (word ++ rest, c) ∉ keywords := by
  intro hmem
  have key : ∀ x ∈ keywords, ¬ sendWord <+: x.1 ∧ ¬ arpWord <+: x.1 := by
    simp only [keywords, List.forall_mem_cons]
    decide
  rcases hw with rfl | rfl
  · exact (key _ hmem).1 ⟨rest, rfl⟩
  · exact (key _ hmem).2 ⟨rest, rfl⟩

theorem not_send {address : List UInt8} : ¬ sendWord <+: arpWord ++ address := by
  rintro ⟨rest, hrest⟩
  have hhead := congrArg List.head? hrest
  cases hhead

/-- **The chain of comparisons finds the command that the line means.** -/
theorem dispatch_eq {c : Command} (h : IsLine cmdline text) (hc : Means text c) :
    User.dispatch cmdline = perform c := by
  cases hc with
  | keyword hmem =>
      rw [dispatch_if h]
      simp only [keywords, List.mem_cons, Prod.mk.injEq, List.not_mem_nil, or_false] at hmem
      rcases hmem with ⟨rfl, rfl⟩ | ⟨rfl, rfl⟩ | ⟨rfl, rfl⟩ | ⟨rfl, rfl⟩ | ⟨rfl, rfl⟩ | ⟨rfl, rfl⟩
        | ⟨rfl, rfl⟩ | ⟨rfl, rfl⟩ | ⟨rfl, rfl⟩
      all_goals
        repeat rw [if_neg (by decide)]
        exact if_pos rfl
  | send message =>
      rw [dispatch_other h (argument_not_keyword (Or.inl rfl)), if_pos ⟨message, rfl⟩]
      exact send_eq h
  | @arpRequest address ip hq =>
      rw [dispatch_other h (argument_not_keyword (Or.inr rfl)), if_neg not_send,
        if_pos ⟨address, rfl⟩]
      exact (arp_eq h).1 ip hq
  | @arpUsage address hq =>
      rw [dispatch_other h (argument_not_keyword (Or.inr rfl)), if_neg not_send,
        if_pos ⟨address, rfl⟩]
      exact (arp_eq h).2 hq
  | unknown hkey hsend harp => rw [dispatch_other h hkey, if_neg hsend, if_neg harp]

/-- The array holds what was typed. -/
def Collected (cmdline : Mem) (text : List UInt8) : Prop :=
  ∀ j, j < text.length → text[j]? = some (cmdline j)

theorem Collected.snoc (h : Collected cmdline text) (ch : UInt8) :
    Collected (Function.update cmdline text.length ch) (text ++ [ch]) := by
  intro j hj
  rw [List.length_append, List.length_singleton] at hj
  rcases Nat.lt_or_eq_of_le (Nat.le_of_lt_succ hj) with hj | rfl
  · rw [List.getElem?_append_left hj, Function.update_of_ne (by omega)]
    exact h j hj
  · rw [List.getElem?_append_right (Nat.le_refl _), Nat.sub_self, Function.update_self]
    rfl

/-- The end of the line makes it a string. -/
theorem Collected.line (h : Collected cmdline text) (hlen : text.length < 128) :
    IsLine (Function.update cmdline text.length 0) (text.takeWhile (· ≠ 0)) := by
  refine ⟨holdsString_takeWhile (fun j hj => ?_) ?_, ?_⟩
  · rw [Nat.zero_add, Function.update_of_ne (by omega)]
    exact h j hj
  · rw [Nat.zero_add, Function.update_self]
  · exact Nat.lt_of_le_of_lt (List.takeWhile_sublist _).length_le hlen

end

/-- A read of 128 bytes returns 128 whatever the size of the file is, or -1. -/
theorem handle_read_buf {fs fs' : Fs} {c : FileCall} {r : FileReturn} (hw : c.write = false)
    (ha : c.a2 = 128) (h : handleFileCall fs c = .ok (fs', r)) : r.a0 = -1 ∨ r.a0 = 128 := by
  have hlen : c.len = 128 := by
    unfold FileCall.len
    rw [ha]
    decide
  unfold handleFileCall fileCallWith at h
  obtain ⟨o, _, h⟩ := bind_eq_ok.mp h
  cases o with
  | none =>
      rw [pure_eq_ok, Prod.mk.injEq] at h
      rw [← h.2]
      exact Or.inl rfl
  | some i =>
      dsimp only at h
      rw [hw, hlen, if_neg (show ¬ (fileDataSize : Int) < 128 by decide),
        if_neg Bool.false_ne_true] at h
      obtain ⟨user, _, h⟩ := bind_eq_ok.mp h
      rw [pure_eq_ok, Prod.mk.injEq] at h
      rw [← h.2]
      exact Or.inr rfl

/-- It is 128 if there is the file, and -1 if there is none. -/
theorem handle_read_hello {fs : Fs} {c : FileCall} (hg : InOrder fs.files) (hw : c.write = false)
    (ha : c.a2 = 128) (hn : callName c = User.helloTxt) :
    ∃ r, handleFileCall fs c = .ok (fs, r)
      ∧ (FileExists fs.files User.helloTxt → r.a0 = 128)
      ∧ (¬ FileExists fs.files User.helloTxt → r.a0 = -1) := by
  have hlen : c.len = 128 := by
    unfold FileCall.len
    rw [ha]
    decide
  rcases fsLookup_spec hg c with ⟨i, hd, hl⟩ | ⟨hno, hl⟩
  · have hread := handle_read (n := 128) hl hw (hg.size i hd.1) (by rw [hlen]; rfl)
    refine ⟨_, hread, fun _ => rfl, fun hne => absurd ⟨i, hd.1, ?_, hd.2.1.trans hn⟩ hne⟩
    -- an entry that is not in use has no name
    by_contra hu
    have hempty : fileName (fs.files i) = [] := text_nil (hg.nameless i hd.1 hu)
    exact absurd (hempty.symm.trans (hd.2.1.trans hn)) (by decide)
  · refine ⟨_, handle_missing hl, fun hex => ?_, fun _ => rfl⟩
    obtain ⟨j, hj, _, hname⟩ := hex
    exact absurd (hname.trans hn.symm) (hno j hj)

/--
**The command `readfile` always leaves its buffer.** It asks for 128 bytes and writes a zero behind
as many as the kernel says it got. Whatever the files are, that is outside of `buf`: the kernel says
128 if there is the file, of any size, and -1 if there is none.
-/
theorem readfile_overruns_buffer {cmdline : Mem}
    (hl : IsLine cmdline (ascii ['r', 'e', 'a', 'd', 'f', 'i', 'l', 'e'])) :
    ∃ next, User.dispatch cmdline = .call (.readfile User.helloTxt 128) next
      ∧ (∀ (fs fs' : Fs) (c : FileCall) (r : FileReturn), c.write = false → c.a2 = 128 →
        handleFileCall fs c = .ok (fs', r) →
        next ⟨r.a0, fun x => r.user (c.buf + x)⟩ = .stop .outOfBounds)
      ∧ ∀ (fs : Fs) (c : FileCall), InOrder fs.files → c.write = false → c.a2 = 128 →
        callName c = User.helloTxt →
        ∃ r, handleFileCall fs c = .ok (fs, r)
          ∧ (FileExists fs.files User.helloTxt → r.a0 = 128)
          ∧ (¬ FileExists fs.files User.helloTxt → r.a0 = -1) := by
  refine ⟨_, dispatch_eq hl (.keyword (c := .readfile) (by simp [keywords])), ?_,
    fun fs c => handle_read_hello⟩
  intro fs fs' c r hw ha h
  show (if 0 ≤ r.a0 ∧ r.a0 < 128 then _ else _) = _
  refine if_neg fun hin => ?_
  rcases handle_read_buf hw ha h with h' | h'
  · omega
  · omega

theorem readfile_isLine :
    IsLine (literal (ascii ['r', 'e', 'a', 'd', 'f', 'i', 'l', 'e']))
      (ascii ['r', 'e', 'a', 'd', 'f', 'i', 'l', 'e']) :=
  ⟨holdsString_literal (by decide), by decide⟩

/-- A read of 128 bytes of `hello.txt`. -/
def callHello : FileCall where
  user := literal User.helloTxt
  write := false
  filename := 0
  buf := 0
  a2 := 128

/-- With a file of seven bytes, and with none. -/
theorem readfile_overruns_buffer_sample : ∃ (fs : Fs) (r r' : FileReturn)
    (next : FileReturn → UserProg Unit),
    User.dispatch (literal (ascii ['r', 'e', 'a', 'd', 'f', 'i', 'l', 'e']))
      = .call (.readfile User.helloTxt 128) next
    ∧ handleFileCall fs (callB false 128) = .ok (fs, r)
    ∧ next ⟨r.a0, fun x => r.user (0 + x)⟩ = .stop .outOfBounds
    ∧ handleFileCall fs callHello = .ok (fs, r') ∧ r'.a0 = -1
    ∧ next ⟨r'.a0, fun x => r'.user (0 + x)⟩ = .stop .outOfBounds := by
  obtain ⟨fs, _, hg, hall⟩ := sample_booted
  have hread := handle_read (n := 128) (callB_lookup hg hall false 128) rfl (hg.size 1 (by decide)) rfl
  obtain ⟨next, hnext, hstop, hanswer⟩ := readfile_overruns_buffer readfile_isLine
  obtain ⟨r', hhello, _, hno⟩ := hanswer fs callHello hg rfl rfl (by decide)
  refine ⟨fs, _, r', next, hnext, hread, hstop fs fs (callB false 128) _ rfl rfl hread, hhello,
    hno ?_, hstop fs fs callHello r' rfl rfl hhello⟩
  -- the two files are called otherwise
  rintro ⟨i, hi, _, hname⟩
  have hmax : filesMax = 2 := rfl
  obtain rfl | rfl : i = 0 ∨ i = 1 := by omega
  · exact absurd (((hall 0 hi).name rfl).symm.trans hname) (by decide)
  · exact absurd (((hall 1 hi).name rfl).symm.trans hname) (by decide)

end Os1000.Proof
