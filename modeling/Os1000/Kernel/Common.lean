import Os1000.Lib.Text

/-!
# The C library (`kernel/common.c`)

`memcpy`, `memset`, `strcpy` and `strcmp`, byte by byte. C does not check the bounds
of an array; here every access does, and one that leaves its array stops the program
with `outOfBounds`. So a call that returns has only touched what it was given, and a
call that does not return is a defect of its caller.

An array is a memory together with the address where it ends. Addresses only grow
from where they start, so there is no lower bound to check.
-/

namespace Os1000

open Lib

/-- Why the kernel stops. -/
inductive Stop where
  /-- `PANIC` -/
  | panic
  /-- An access outside its array. -/
  | outOfBounds
  /-- A signed `int` overflows. -/
  | overflow
deriving DecidableEq, Repr

/-- Read the byte at `a` of an array that ends at `e`. -/
def loadAt (m : Mem) (a e : Nat) : Except Stop UInt8 :=
  if a < e then .ok (m a) else .error .outOfBounds

/-- Write a byte at `a` of an array that ends at `e`. -/
def storeAt (m : Mem) (a e : Nat) (v : UInt8) : Except Stop Mem :=
  if a < e then .ok (Function.update m a v) else .error .outOfBounds

/-- `memcpy(dst + d, src + s, n)` -/
def memcpy (dst : Mem) (d dEnd : Nat) (src : Mem) (s sEnd : Nat) : Nat → Except Stop Mem
  | 0 => .ok dst
  | n + 1 => do
      let c ← loadAt src s sEnd
      let dst ← storeAt dst d dEnd c
      memcpy dst (d + 1) dEnd src (s + 1) sEnd n

/-- `memset(buf + a, c, n)` -/
def memset (buf : Mem) (a e : Nat) (c : UInt8) : Nat → Except Stop Mem
  | 0 => .ok buf
  | n + 1 => do
      let buf ← storeAt buf a e c
      memset buf (a + 1) e c n

/-- `strcpy(dst + d, src + s)`: it reads on until a zero byte, which must come before `sEnd`. -/
def strcpy (dst : Mem) (d dEnd : Nat) (src : Mem) (s sEnd : Nat) : Except Stop Mem :=
  if s < sEnd then
    if src s = 0 then storeAt dst d dEnd 0
    else do
      let dst ← storeAt dst d dEnd (src s)
      strcpy dst (d + 1) dEnd src (s + 1) sEnd
  else .error .outOfBounds
termination_by sEnd - s

/-- `strcmp(s1 + a, s2 + b)` -/
def strcmp (s1 : Mem) (a aEnd : Nat) (s2 : Mem) (b bEnd : Nat) : Except Stop Int :=
  if a < aEnd then do
    let c2 ← loadAt s2 b bEnd
    if s1 a ≠ 0 ∧ c2 ≠ 0 ∧ s1 a = c2 then strcmp s1 (a + 1) aEnd s2 (b + 1) bEnd
    else return ((s1 a).toNat : Int) - (c2.toNat : Int)
  else .error .outOfBounds
termination_by aEnd - a

end Os1000
