import Os1000.Lib.Numeral
import Os1000.Lib.Strings

/-!
# What a format says

A format is a text with directives in it. `%s`, `%d` and `%x` each take an argument, a word, and
stand for a string, a number in decimal, and the eight hexadecimal digits of a word. Before any
other character a percent sign stands for itself, and so does the character, another percent sign
included; at the end of a format it stands for nothing.
-/

namespace Os1000

open Lib

/-- How an argument is written. -/
inductive Conversion where
  | str
  | num
  | hex

/-- The conversion that a character after `%` names. -/
def conversion (c : UInt8) : Option Conversion :=
  if c = 115 then some .str
  else if c = 100 then some .num
  else if c = 120 then some .hex
  else none

/-- A part of a format. -/
inductive Directive where
  /-- A character that stands for itself. -/
  | plain (c : UInt8)
  /-- A percent sign and a character that names no conversion. -/
  | percent (c : UInt8)
  | convert (k : Conversion)

/-- The parts of a format. -/
def directives : List UInt8 → List Directive
  | [] => []
  | [c] => if c = 37 then [] else [.plain c]
  | c :: d :: fmt =>
      if c = 37 then ((conversion d).elim (.percent d) .convert) :: directives fmt
      else .plain c :: directives (d :: fmt)

/-- How a word is written. Strings lie in `m`, which ends at `e`. -/
inductive Shows (m : Mem) (e : Nat) : Conversion → BitVec 32 → List UInt8 → Prop where
  | str {w : BitVec 32} {s : List UInt8} : HoldsString m w.toNat s → w.toNat + s.length < e →
      Shows m e .str w s
  /-- The smallest `int` cannot be written. -/
  | num {w : BitVec 32} {s : List UInt8} : CanonicalInt s w.toInt → w.toInt ≠ -2 ^ 31 →
      Shows m e .num w s
  | hex {w : BitVec 32} : Shows m e .hex w (hexadecimal 8 w.toNat)

/-- What a format and its arguments give. Arguments that are not used do not matter. -/
inductive Renders (m : Mem) (e : Nat) : List Directive → List (BitVec 32) → List UInt8 → Prop where
  | done {vargs : List (BitVec 32)} : Renders m e [] vargs []
  | plain {c : UInt8} {ds : List Directive} {vargs : List (BitVec 32)} {out : List UInt8} :
      Renders m e ds vargs out → Renders m e (.plain c :: ds) vargs (c :: out)
  | percent {c : UInt8} {ds : List Directive} {vargs : List (BitVec 32)} {out : List UInt8} :
      Renders m e ds vargs out → Renders m e (.percent c :: ds) vargs (37 :: c :: out)
  | convert {k : Conversion} {ds : List Directive} {w : BitVec 32} {vargs : List (BitVec 32)}
      {s out : List UInt8} :
      Shows m e k w s → Renders m e ds vargs out →
      Renders m e (.convert k :: ds) (w :: vargs) (s ++ out)

end Os1000
