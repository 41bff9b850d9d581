import Mathlib.Algebra.Order.Ring.Int

/-!
# The machine the kernel is linked for

Word size, page size and the linker symbols of `linker/kernel.ld`. Everything is
placed from `__kernel_base = 0x80200000` upwards: the sections of the kernel, a
128 KiB boot stack, and then, page aligned, 64 MiB of free RAM. Only where the
free RAM starts, and where in the image two symbols ended up, depends on how large
the sections came out, so that is what a `Layout` chooses.
-/

namespace Os1000

/-- Truncation to `uint32_t`. -/
def u32 (n : Nat) : Nat := n % 2 ^ 32

/-- Conversion to a 32-bit `int`, two's complement. -/
def i32 (n : Int) : Int := (n + 2 ^ 31) % 2 ^ 32 - 2 ^ 31

theorem u32_of_lt {n : Nat} (h : n < 2 ^ 32) : u32 n = n := Nat.mod_eq_of_lt h

/-- `PAGE_SIZE` -/
def pageSize : Nat := 4096

/-- `__kernel_base` -/
def kernelBase : Nat := 0x80200000

/-- The size of the free RAM, `64 * 1024 * 1024`. -/
def freeRamSize : Nat := 0x4000000

/-- `PROCS_MAX` -/
def procsMax : Nat := 8

/-- `sizeof(struct process)`: 81 words of bookkeeping and the 8 KiB kernel stack. -/
def sizeofProcess : Nat := 8516

/-- Where the linker put the process table, `user_entry` and the free RAM. -/
structure Layout where
  /-- The address of `user_entry`, in `.text`. -/
  userEntry : Nat
  /-- The address of `procs[]`, in `.bss`. -/
  procs : Nat
  /-- `__free_ram` -/
  freeRam : Nat
  /-- `.text` lies inside the kernel image. -/
  userEntry_ge : kernelBase ≤ userEntry
  userEntry_lt : userEntry < procs
  /-- `.bss` lies inside the kernel image. -/
  procs_ge : kernelBase ≤ procs
  /-- The process table ends before the free RAM begins. -/
  procs_le : procs + procsMax * sizeofProcess ≤ freeRam
  /-- `. = ALIGN(4096)` -/
  freeRam_aligned : freeRam % pageSize = 0
  /-- `__free_ram_end` is a 32-bit address. -/
  end_lt : freeRam + freeRamSize < 2 ^ 32

/-- `__free_ram_end` -/
def Layout.freeRamEnd (L : Layout) : Nat := L.freeRam + freeRamSize

/-- A layout the linker script can produce: half a megabyte of kernel image. -/
def sampleLayout : Layout where
  userEntry := 0x80204000
  procs := 0x80220000
  freeRam := 0x80280000
  userEntry_ge := by decide
  userEntry_lt := by decide
  procs_ge := by decide
  procs_le := by decide
  freeRam_aligned := by decide
  end_lt := by decide

end Os1000
