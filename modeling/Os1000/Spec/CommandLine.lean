import Os1000.Proof.ParseIpv4
import Os1000.Spec.Format
import Os1000.User.Commands

/-!
# What a command line is for

Lines of text and commands, with no arrays and no comparisons of strings. A line is what is typed
before a carriage return, if that is fewer than 128 characters. It means a command (`Means`), and
a command makes its calls and says something.
-/

namespace Os1000

open Lib

/-- What the shell can be told to do. -/
inductive Command where
  | hello
  | exit
  | readfile
  | writefile
  | sendUsage
  | send (message : List UInt8)
  | arpDump
  | ipv4Dump
  | shmDump
  | shmtest
  | arpRequest (ip : Nat)
  | arpUsage
  | unknown (text : List UInt8)

namespace Command

/-- The lines that are commands. -/
def keywords : List (List UInt8 × Command) :=
  [(ascii ['h', 'e', 'l', 'l', 'o'], .hello),
    (ascii ['e', 'x', 'i', 't'], .exit),
    (ascii ['r', 'e', 'a', 'd', 'f', 'i', 'l', 'e'], .readfile),
    (ascii ['w', 'r', 'i', 't', 'e', 'f', 'i', 'l', 'e'], .writefile),
    (ascii ['s', 'e', 'n', 'd'], .sendUsage),
    (ascii ['a', 'r', 'p'], .arpDump),
    (ascii ['i', 'p'], .ipv4Dump),
    (ascii ['s', 'h', 'm'], .shmDump),
    (ascii ['s', 'h', 'm', 't', 'e', 's', 't'], .shmtest)]

/-- `"send "` and `"arp "`, after which the rest of the line is an argument. -/
def sendWord : List UInt8 := ascii ['s', 'e', 'n', 'd', ' ']
def arpWord : List UInt8 := ascii ['a', 'r', 'p', ' ']

/-- What a line means. -/
inductive Means : List UInt8 → Command → Prop where
  | keyword {text : List UInt8} {c : Command} : (text, c) ∈ keywords → Means text c
  | send (message : List UInt8) : Means (sendWord ++ message) (.send message)
  | arpRequest {address : List UInt8} {ip : Nat} : Proof.Quad address ip →
      Means (arpWord ++ address) (.arpRequest ip)
  | arpUsage {address : List UInt8} : (∀ ip, ¬ Proof.Quad address ip) →
      Means (arpWord ++ address) .arpUsage
  | unknown {text : List UInt8} : (∀ c, (text, c) ∉ keywords) → ¬ sendWord <+: text →
      ¬ arpWord <+: text → Means text (.unknown text)

/-- Characters for the console. -/
def say (text : List UInt8) : UserProg Unit := Prog.each User.putchar text

/-- What a command does. -/
def perform : Command → UserProg Unit
  | .hello => say (User.line ['H', 'e', 'l', 'l', 'o', ' ', 'w', 'o', 'r', 'l', 'd', ' ',
      'f', 'r', 'o', 'm', ' ', 's', 'h', 'e', 'l', 'l', '!'])
  | .exit => do
      say (User.line ['E', 'x', 'i', 't', ' ', '.', '.', '.', ' '])
      User.exit
  | .readfile => do
      let r : FileReturn ← User.ask (.readfile User.helloTxt 128)
      -- there is room for 127 characters and the end of the string
      if 0 ≤ r.a0 ∧ r.a0 < 128 then
        say (((List.range r.a0.toNat).map r.user).takeWhile (· ≠ 0) ++ [10])
      else .stop .outOfBounds
  | .writefile => User.writefile
  | .sendUsage => say (User.line ['u', 's', 'a', 'g', 'e', ':', ' ', 's', 'e', 'n', 'd', ' ',
      '<', 'm', 'e', 's', 's', 'a', 'g', 'e', '>'])
  | .send message => do
      let sent : BitVec 32 ← User.ask (.send message)
      if sent.toInt < 0 then
        say (User.line ['s', 'e', 'n', 'd', ':', ' ', 'f', 'a', 'i', 'l', 'e', 'd'])
      else
        say (ascii ['s', 'e', 'n', 'd', ':', ' '] ++ numeral sent.toNat
          ++ User.line [' ', 'b', 'y', 't', 'e', 's'])
  | .arpDump => User.ask .arpDump
  | .ipv4Dump => User.ask .ipv4Dump
  | .shmDump => User.ask .shmDump
  | .shmtest => User.runShmtest
  | .arpRequest ip => do
      let r : Int ← User.ask (.arpRequest ip)
      if r < 0 then
        say (User.line ['a', 'r', 'p', ':', ' ', 'r', 'e', 'q', 'u', 'e', 's', 't', ' ',
          'f', 'a', 'i', 'l', 'e', 'd'])
      else
        say (User.line ['a', 'r', 'p', ':', ' ', 'r', 'e', 'q', 'u', 'e', 's', 't', ' ',
          's', 'e', 'n', 't'])
  | .arpUsage => say (User.line ['u', 's', 'a', 'g', 'e', ':', ' ', 'a', 'r', 'p', ' ', '<', 'I', 'P',
      'v', '4', ' ', 'a', 'd', 'd', 'r', 'e', 's', 's', '>'])
  | .unknown text => say (ascii ['u', 'n', 'k', 'n', 'o', 'w', 'n', ' ', 'c', 'o', 'm', 'm', 'a', 'n',
      'd', ':', ' '] ++ text ++ [10])

end Command

end Os1000
