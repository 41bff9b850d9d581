import Os1000.Kernel.Filesystem
import Os1000.Kernel.Printf
import Os1000.Lib.Prog

/-!
# The shell (`user/shell.c`)

A user program computes on its own arrays, and for everything else it makes a system call, or
loads or stores a byte of its address space. What comes of that is up to the kernel, so a program
is a tree here (`Os1000.Lib.Prog`). A pointer that a call gets is given as what it points to: the
kernel reads a file name as a string and as many bytes of a buffer as the call says.

`cmdline` and `buf` are local arrays. What they hold at the beginning is not known, and the shell
stops when it leaves one of them. `parse_ipv4` reads a dotted quad in an array that ends at `e`,
every byte through `loadAt`; it also stops when an `int` overflows. A result of `none` is the
`return false` in the middle of a loop.
-/

namespace Os1000

open Lib

/-! ## `parse_ipv4` -/

/-- The `while` loop of `parse_ipv4`: the number, how many digits it has, and `text` behind it. -/
def parseNumber (m : Mem) (text e : Nat) (number digits : Nat) :
    Except Stop (Option (Nat × Nat × Nat)) :=
  if text < e then
    if 48 ≤ (m text).toNat ∧ (m text).toNat ≤ 57 then
      if number * 10 + ((m text).toNat - 48) < 2 ^ 31 then
        if 255 < number * 10 + ((m text).toNat - 48) then .ok none
        else if digits + 1 < 2 ^ 31 then
          parseNumber m (text + 1) e (number * 10 + ((m text).toNat - 48)) (digits + 1)
        else .error .overflow
      else .error .overflow
    else .ok (some (number, digits, text))
  else .error .outOfBounds
termination_by e - text

/-- The `for` loop of `parse_ipv4` with `n` parts to go: `text` and `value` after it. -/
def parseParts (m : Mem) (e : Nat) : Nat → Nat → Nat → Except Stop (Option (Nat × Nat))
  | 0, text, value => .ok (some (text, value))
  | n + 1, text, value => do
      match ← parseNumber m text e 0 0 with
      | none => return none
      | some (number, digits, text) =>
          if digits = 0 then return none
          else
            let value := u32 (value <<< 8) ||| number
            -- `part < 3`
            if 0 < n then do
              let c ← loadAt m text e
              if c ≠ 46 then return none else parseParts m e n (text + 1) value
            else parseParts m e n text value

/-- `parse_ipv4`: what it returns, and `*ip` after it. -/
def parseIpv4 (m : Mem) (text e ip : Nat) : Except Stop (Bool × Nat) := do
  match ← parseParts m e 4 text 0 with
  | none => return (false, ip)
  | some (text, value) =>
      let c ← loadAt m text e
      if c ≠ 0 then return (false, ip) else return (true, value)

/-! ## Programs -/

/-- What a program cannot do by itself. -/
inductive UserOp where
  | putchar (ch : UInt8)
  | getchar
  | exit
  /-- `readfile(filename, buf, len)` -/
  | readfile (filename : List UInt8) (len : Nat)
  /-- `writefile(filename, buf, len)`, with the `len` bytes at `buf` -/
  | writefile (filename buf : List UInt8)
  /-- `send(buf, len)`, with the `len` bytes at `buf` -/
  | send (buf : List UInt8)
  | arpRequest (ip : Nat)
  | arpDump
  | ipv4Dump
  | shmDump
  | shmGet (key : Int)
  | shmAttach (id : Int)
  | shmDetach (addr : Nat)
  /-- A byte of the address space is read. -/
  | load (vaddr : Nat)
  /-- A byte of the address space is written. -/
  | store (vaddr : Nat) (b : UInt8)

/-- What comes back. -/
@[reducible] def UserOp.Reply : UserOp → Type
  | .putchar _ => Unit
  -- as the `char` that the shell makes of it
  | .getchar => UInt8
  | .exit => Empty
  -- the length, and what is in `buf`
  | .readfile _ _ => FileReturn
  | .writefile _ _ => Int
  | .send _ => BitVec 32
  | .arpRequest _ => Int
  | .arpDump => Unit
  | .ipv4Dump => Unit
  | .shmDump => Unit
  | .shmGet _ => Int
  | .shmAttach _ => Nat
  | .shmDetach _ => Int
  | .load _ => UInt8
  | .store _ _ => Unit

/-- A user program. -/
abbrev UserProg (α : Type) := Prog UserOp UserOp.Reply Stop α

namespace User

/-- `syscall`, or a load or a store. -/
def ask (i : UserOp) : UserProg i.Reply := Prog.perform i

def putchar (ch : UInt8) : UserProg Unit := ask (.putchar ch)
def getchar : UserProg UInt8 := ask .getchar
def load (vaddr : Nat) : UserProg UInt8 := ask (.load vaddr)
def store (vaddr : Nat) (b : UInt8) : UserProg Unit := ask (.store vaddr b)
def shmGet (key : Int) : UserProg Int := ask (.shmGet key)
def shmAttach (id : Int) : UserProg Nat := ask (.shmAttach id)
def shmDetach (addr : Nat) : UserProg Int := ask (.shmDetach addr)
def shmDump : UserProg Unit := ask .shmDump

/-- `exit`, which does not come back. -/
def exit : UserProg Unit := ask .exit >>= fun (r : Empty) => nomatch r

/-- `printf`, in a program: the strings it is passed lie in `m`, which ends at `e`. -/
def printf (m : Mem) (e : Nat) (fmt : List UInt8) (vargs : List (BitVec 32)) : UserProg Unit := do
  let out ← Prog.lift (Os1000.printf m e fmt vargs)
  Prog.each putchar out

/-- `printf` without a string. -/
def print (fmt : List UInt8) (vargs : List (BitVec 32)) : UserProg Unit :=
  printf (fun _ => 0) 0 fmt vargs

/-- A text that ends its line. -/
def line (l : List Char) : List UInt8 := ascii l ++ [10]

/-! ## Strings -/

/-- `string_length`, with `len` characters counted. -/
def stringLength (m : Mem) (s e len : Nat) : Except Stop Nat :=
  if s + len < e then
    if m (s + len) = 0 then .ok len else stringLength m s e (len + 1)
  else .error .outOfBounds
termination_by e - (s + len)

/-- `starts_with` -/
def startsWith (s : Mem) (a aEnd : Nat) (pre : Mem) (b bEnd : Nat) : Except Stop Bool :=
  if b < bEnd then
    if pre b = 0 then .ok true
    else do
      let c ← loadAt s a aEnd
      if c ≠ pre b then return false else startsWith s (a + 1) aEnd pre (b + 1) bEnd
  else .error .outOfBounds
termination_by bEnd - b

/-- `m[i] = v`, for an `int` and an array of `e` bytes. -/
def storeIndex (m : Mem) (i : Int) (e : Nat) (v : UInt8) : Except Stop Mem :=
  if 0 ≤ i ∧ i < e then .ok (Function.update m i.toNat v) else .error .outOfBounds

/-! ## `run_shmtest` -/

/-- `copy_string`, to an address of the address space. -/
def copyString (dst : Nat) (src : Mem) (s e : Nat) : UserProg Unit :=
  if s < e then
    if src s = 0 then store dst 0
    else do
      store dst (src s)
      copyString (dst + 1) src (s + 1) e
  else .stop .outOfBounds
termination_by e - s

/-- `printString`, of a string in the address space. -/
def printStringAt (vaddr : Nat) : UserProg Unit :=
  if vaddr < 2 ^ 32 then do
    let c ← load vaddr
    if c = 0 then return ()
    else
      putchar c
      printStringAt (vaddr + 1)
  else .stop .outOfBounds
termination_by 2 ^ 32 - vaddr

/-- `strcmp`, of a string in the address space. -/
def strcmpAt (vaddr : Nat) (s2 : Mem) (b bEnd : Nat) : UserProg Int :=
  if b < bEnd then do
    let c ← load vaddr
    if c ≠ 0 ∧ s2 b ≠ 0 ∧ c = s2 b then strcmpAt (vaddr + 1) s2 (b + 1) bEnd
    else return (c.toNat : Int) - ((s2 b).toNat : Int)
  else .stop .outOfBounds
termination_by bEnd - b

/-- `"shared-memory-ok"` -/
def sharedMemoryOk : List UInt8 :=
  ascii ['s', 'h', 'a', 'r', 'e', 'd', '-', 'm', 'e', 'm', 'o', 'r', 'y', '-', 'o', 'k']

/-- `"shmtest: "`, with which its messages begin -/
def shmtestColon : List UInt8 := ascii ['s', 'h', 'm', 't', 'e', 's', 't', ':', ' ']

/-- `run_shmtest` -/
def runShmtest : UserProg Unit := do
  let id ← shmGet 100
  if id < 0 then
    print (shmtestColon ++ line ['s', 'h', 'm', '_', 'g', 'e', 't', ' ', 'f', 'a', 'i', 'l', 'e', 'd']) []
  else
    let a ← shmAttach id
    let b ← shmAttach id
    if a = 0 ∨ b = 0 then
      print (shmtestColon ++ line ['s', 'h', 'm', '_', 'a', 't', 't', 'a', 'c', 'h', ' ',
        'f', 'a', 'i', 'l', 'e', 'd']) []
      if a ≠ 0 then let _ ← shmDetach a
      if b ≠ 0 then let _ ← shmDetach b
    else
      copyString a (literal sharedMemoryOk) 0 (sharedMemoryOk.length + 1)
      print (shmtestColon ++ line ['i', 'd', '=', '%', 'd']) [BitVec.ofInt 32 id]
      print (shmtestColon ++ line ['v', 'a', '_', 'a', '=', '0', 'x', '%', 'x', ' ', 'v', 'a', '_', 'b',
        '=', '0', 'x', '%', 'x']) [BitVec.ofNat 32 a, BitVec.ofNat 32 b]
      -- `printf("shmtest: read via va_b: %s\n", b)`
      print (shmtestColon ++ ascii ['r', 'e', 'a', 'd', ' ', 'v', 'i', 'a', ' ', 'v', 'a', '_', 'b',
        ':', ' ']) []
      printStringAt b
      print (line []) []
      let cmp ← strcmpAt b (literal sharedMemoryOk) 0 (sharedMemoryOk.length + 1)
      if cmp = 0 then print (shmtestColon ++ line ['P', 'A', 'S', 'S']) []
      else print (shmtestColon ++ line ['F', 'A', 'I', 'L']) []
      shmDump
      let _ ← shmDetach a
      let _ ← shmDetach b
      shmDump

/-! ## `main` -/

/-- `sizeof(cmdline)` -/
def sizeofCmdline : Nat := 128
/-- `sizeof(buf)` -/
def sizeofBuf : Nat := 128

/-- `if (strcmp(cmdline, word) == 0) yes else no` -/
def ifEquals (cmdline : Mem) (word : List Char) (yes no : UserProg Unit) : UserProg Unit := do
  let cmp ← Prog.lift (strcmp cmdline 0 sizeofCmdline (literal (ascii word)) 0 (word.length + 1))
  if cmp = 0 then yes else no

/-- `if (starts_with(cmdline, word)) yes else no` -/
def ifStartsWith (cmdline : Mem) (word : List Char) (yes no : UserProg Unit) : UserProg Unit := do
  let b ← Prog.lift (startsWith cmdline 0 sizeofCmdline (literal (ascii word)) 0 (word.length + 1))
  if b then yes else no

/-- `"hello.txt"` -/
def helloTxt : List UInt8 := ascii ['h', 'e', 'l', 'l', 'o', '.', 't', 'x', 't']

/-- The command `readfile`. -/
def readfile : UserProg Unit := do
  let r : FileReturn ← ask (.readfile helloTxt sizeofBuf)
  let buf ← Prog.lift (storeIndex r.user r.a0 sizeofBuf 0)
  printf buf sizeofBuf (line ['%', 's']) [0]

/-- The command `writefile`. -/
def writefile : UserProg Unit := do
  let _ : Int ← ask (.writefile helloTxt (line ['H', 'e', 'l', 'l', 'o', ' ', 'f', 'r', 'o',
    'm', ' ', 's', 'h', 'e', 'l', 'l', '!'] ++ [0]))

/-- The command `send <message>`. -/
def send (cmdline : Mem) : UserProg Unit := do
  let messageLen ← Prog.lift (stringLength cmdline 5 sizeofCmdline 0)
  let sent : BitVec 32 ← ask (.send ((List.range messageLen).map fun i => cmdline (5 + i)))
  if sent.toInt < 0 then print (line ['s', 'e', 'n', 'd', ':', ' ', 'f', 'a', 'i', 'l', 'e', 'd']) []
  else print (line ['s', 'e', 'n', 'd', ':', ' ', '%', 'd', ' ', 'b', 'y', 't', 'e', 's']) [sent]

/-- The command `arp <IPv4 address>`. -/
def arp (cmdline : Mem) : UserProg Unit := do
  let parsed ← Prog.lift (parseIpv4 cmdline 4 sizeofCmdline 0)
  if parsed.1 = false then
    print (line ['u', 's', 'a', 'g', 'e', ':', ' ', 'a', 'r', 'p', ' ', '<', 'I', 'P', 'v', '4', ' ',
      'a', 'd', 'd', 'r', 'e', 's', 's', '>']) []
  else
    let r : Int ← ask (.arpRequest parsed.2)
    if r < 0 then
      print (line ['a', 'r', 'p', ':', ' ', 'r', 'e', 'q', 'u', 'e', 's', 't', ' ',
        'f', 'a', 'i', 'l', 'e', 'd']) []
    else
      print (line ['a', 'r', 'p', ':', ' ', 'r', 'e', 'q', 'u', 'e', 's', 't', ' ',
        's', 'e', 'n', 't']) []

/-- `main` after a line has been read. -/
def dispatch (cmdline : Mem) : UserProg Unit :=
  ifEquals cmdline ['h', 'e', 'l', 'l', 'o']
    (print (line ['H', 'e', 'l', 'l', 'o', ' ', 'w', 'o', 'r', 'l', 'd', ' ', 'f', 'r', 'o', 'm', ' ',
      's', 'h', 'e', 'l', 'l', '!']) []) <|
  ifEquals cmdline ['e', 'x', 'i', 't']
    (do print (line ['E', 'x', 'i', 't', ' ', '.', '.', '.', ' ']) []; exit) <|
  ifEquals cmdline ['r', 'e', 'a', 'd', 'f', 'i', 'l', 'e'] readfile <|
  ifEquals cmdline ['w', 'r', 'i', 't', 'e', 'f', 'i', 'l', 'e'] writefile <|
  ifEquals cmdline ['s', 'e', 'n', 'd']
    (print (line ['u', 's', 'a', 'g', 'e', ':', ' ', 's', 'e', 'n', 'd', ' ', '<', 'm', 'e', 's', 's',
      'a', 'g', 'e', '>']) []) <|
  ifStartsWith cmdline ['s', 'e', 'n', 'd', ' '] (send cmdline) <|
  ifEquals cmdline ['a', 'r', 'p'] (ask .arpDump) <|
  ifEquals cmdline ['i', 'p'] (ask .ipv4Dump) <|
  ifEquals cmdline ['s', 'h', 'm'] shmDump <|
  ifEquals cmdline ['s', 'h', 'm', 't', 'e', 's', 't'] runShmtest <|
  ifStartsWith cmdline ['a', 'r', 'p', ' '] (arp cmdline)
    (printf cmdline sizeofCmdline (line ['u', 'n', 'k', 'n', 'o', 'w', 'n', ' ', 'c', 'o', 'm', 'm',
      'a', 'n', 'd', ':', ' ', '%', 's']) [0])

end User

end Os1000
