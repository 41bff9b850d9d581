import Os1000.Layout
import Os1000.Kernel.Common

/-!
# The printer (`kernel/common.c`)

`printf` and the functions it calls. What they do is put characters on the console, so
they return the characters, in order. Arithmetic on `int` that overflows stops the
program, and so does a division by zero.

The format is a string constant everywhere in the source: a list of its characters here.
Arguments are words of 32 bits, as `va_arg` gets them.
-/

namespace Os1000

open Lib

/-- `printString` -/
def printString (m : Mem) (s e : Nat) : Except Stop (List UInt8) :=
  if s < e then
    if m s = 0 then .ok []
    else do
      let rest ← printString m (s + 1) e
      return m s :: rest
  else .error .outOfBounds
termination_by e - s

/-- `printPointer`: the last `i` hexadecimal digits. -/
def printPointer (p : BitVec 32) : Nat → List UInt8
  | 0 => []
  | i + 1 =>
      let tmp := (p.toNat >>> (i * 4)) &&& 0xf
      (if 10 ≤ tmp then UInt8.ofNat (97 + tmp - 10) else UInt8.ofNat (48 + tmp)) :: printPointer p i

theorem mul_le_of_le_tdiv {num magnitude : Int} (h : 0 < magnitude)
    (hle : magnitude ≤ num.tdiv 10) : magnitude * 10 ≤ num := by
  by_cases hnum : 0 ≤ num
  · rw [Int.tdiv_eq_ediv_of_nonneg hnum] at hle
    omega
  · have hneg : 0 ≤ (-num).tdiv 10 := Int.tdiv_nonneg (by omega) (by omega)
    rw [Int.neg_tdiv] at hneg
    omega

/-- The first loop of `printNum`: the power of ten that `num` begins with, and its digits. -/
def growMagnitude (num magnitude : Int) (count : Nat) (h : 0 < magnitude) :
    Except Stop (Int × Nat) :=
  if hle : magnitude ≤ num.tdiv 10 then
    if magnitude * 10 < 2 ^ 31 ∧ count + 1 < 2 ^ 31 then
      growMagnitude num (magnitude * 10) (count + 1) (by omega)
    else .error .overflow
  else .ok (magnitude, count)
termination_by (num - magnitude).toNat
decreasing_by
  have := mul_le_of_le_tdiv h hle
  omega

/-- The second loop of `printNum`. -/
def printDigits : Nat → Int → Int → Except Stop (List UInt8)
  | 0, _, _ => .ok []
  | count + 1, num, magnitude =>
      if magnitude = 0 then .error .overflow
      else do
        let rest ← printDigits count (num.tmod magnitude) (magnitude.tdiv 10)
        return UInt8.ofInt (48 + num.tdiv magnitude) :: rest

/-- `printNum` from the two loops on. -/
def printMagnitude (num : Int) : Except Stop (List UInt8) := do
  let first ← growMagnitude num 1 1 (by decide)
  printDigits first.2 num first.1

/-- `printNum` -/
def printNum (num : Int) : Except Stop (List UInt8) :=
  if num = 0 then .ok [48]
  else if num < 0 then
    if -num < 2 ^ 31 then do
      let digits ← printMagnitude (-num)
      return 45 :: digits
    else .error .overflow
  else printMagnitude num

/-- `printf`. The strings it is passed lie in `m`, which ends at `e`. -/
def printf (m : Mem) (e : Nat) : List UInt8 → List (BitVec 32) → Except Stop (List UInt8)
  | [], _ => .ok []
  | [c], _ => if c = 37 then .ok [] else .ok [c]
  | c :: d :: fmt, vargs =>
      if c = 37 then
        if d = 115 ∨ d = 100 ∨ d = 120 then
          match vargs with
          | [] => .error .outOfBounds
          | arg :: vargs => do
              let out ←
                if d = 115 then printString m arg.toNat e
                else if d = 100 then printNum arg.toInt
                else .ok (printPointer arg 8)
              let rest ← printf m e fmt vargs
              return out ++ rest
        else do
          let rest ← printf m e fmt vargs
          return c :: d :: rest
      else do
        let rest ← printf m e (d :: fmt) vargs
        return c :: rest

/-- `"%d.%d.%d.%d"` -/
def ipv4Format : List UInt8 := [37, 100, 46, 37, 100, 46, 37, 100, 46, 37, 100]

/-- `print_ipv4`, in `arp.c` and in `ipv4.c`. -/
def printIpv4 (m : Mem) (e ip : Nat) : Except Stop (List UInt8) :=
  printf m e ipv4Format
    [BitVec.ofNat 32 ((ip >>> 24) &&& 0xff), BitVec.ofNat 32 ((ip >>> 16) &&& 0xff),
      BitVec.ofNat 32 ((ip >>> 8) &&& 0xff), BitVec.ofNat 32 (ip &&& 0xff)]

end Os1000
