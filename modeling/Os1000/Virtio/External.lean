import Os1000.Kernel.Process
import Os1000.Lib.Plic
import Os1000.Virtio.Request

/-!
# External interrupts (`plic.c`, `handle_external_interrupt`, `wait_for_interrupt`)

The interrupt lines of the devices go to the interrupt controller, and the controller to the
hart. When an interrupt is taken, `handle_external_interrupt` claims a source, calls the
handler of its device, and completes the source. `wait_for_interrupt` has interrupts off,
sleeps in `wfi` until one is pending, and then lets it in.

This is the machine of `Os1000.Virtio.Request` with what it leaves out: what makes a handler
run. A handler runs only where the controller interrupts the hart, `wfi` ends only when it
does, and the bits of `InterruptStatus` are set by the device and cleared by the handler.
The lines of all other sources do as they like.

What the hart and the controller do by themselves (`CpuStep`) is kept apart from what
comes from outside (`OutsideStep`): the devices, and programs that make a call.
-/

namespace Os1000

open Lib

/-! ## The controller -/

/-- `riscv,ndev` -/
def plicSources : Nat := 0x35
/-- The context of the supervisor mode of hart 0. -/
def plicContext : Nat := 1
/-- `PLIC_SENABLE` -/
def plicSenable : Nat := plicBase + 0x2080
/-- `PLIC_STHRESHOLD` -/
def plicSthreshold : Nat := plicBase + 0x201000
/-- `PLIC_SCLAIM` -/
def plicSclaim : Nat := plicBase + 0x201004
/-- `VIRTIO_BLK_IRQ` -/
def virtioBlkIrq : Nat := 1
/-- `VIRTIO_NET_IRQ` -/
def virtioNetIrq : Nat := 2

/-- A write through `plic_reg(address)`. -/
def plicStore (p : Plic plicSources) (address v : Nat) : Plic plicSources :=
  p.write plicContext (address - plicBase) v

/-- A read through `plic_reg(address)`. -/
def plicLoad (p : Plic plicSources) (address : Nat) : Nat × Plic plicSources :=
  p.read plicContext (address - plicBase)

/-- `plic_enable` -/
def plicEnable (p : Plic plicSources) (irq : Nat) : Plic plicSources :=
  let priority := plicBase + irq * 4
  let enable := plicSenable + irq / 32 * 4
  let p := plicStore p priority 1
  let word := plicLoad p enable
  plicStore word.2 enable (word.1 ||| 1 <<< (irq % 32))

/-- `plic_init` -/
def plicInit (p : Plic plicSources) : Plic plicSources :=
  let p := plicStore p plicSthreshold 0
  let p := plicEnable p virtioBlkIrq
  plicEnable p virtioNetIrq

/-- `plic_claim` -/
def plicClaim (p : Plic plicSources) : Nat × Plic plicSources := plicLoad p plicSclaim

/-- `plic_complete` -/
def plicComplete (p : Plic plicSources) (irq : Nat) : Plic plicSources := plicStore p plicSclaim irq

/-! ## The machine -/

/-- Where `handle_external_interrupt` is. -/
inductive TrapPc where
  /-- No interrupt is being handled. -/
  | idle
  /-- Before `plic_claim`. -/
  | claim
  /-- Before the handler of `d` is called. -/
  | call (d : VirtioDev) (irq : Nat)
  /-- In the handler of `d`. -/
  | run (d : VirtioDev) (irq : Nat)
  /-- Before `plic_complete`. -/
  | complete (irq : Nat)
deriving DecidableEq, Repr

/-- The `switch` of `handle_external_interrupt`. An unexpected source is reported and completed. -/
def switchIrq (irq : Nat) : TrapPc :=
  if irq = virtioBlkIrq then .call .blk irq
  else if irq = virtioNetIrq then .call .net irq
  else if irq = 0 then .idle
  else .complete irq

/-- The drivers and their devices, with the controller between them. -/
structure Core extends Drivers where
  plic : Plic plicSources
  trap : TrapPc
  /-- The lines of the sources that belong to neither device. -/
  lines : Nat → Bool

/-- The interrupt line of source `i`. -/
def Core.line (s : Core) (i : Nat) : Bool :=
  if i = virtioBlkIrq then (s.dev .blk).status.any
  else if i = virtioNetIrq then (s.dev .net).status.any
  else s.lines i

/-- What the hart and the controller do by themselves. -/
inductive CpuStep : Core → CallLabel → Core → Prop where
  /-- A call goes on. `wfi` sleeps until an interrupt is pending. One that is pending when the window
  opens, or when a trap returns to it, is taken at once; one that comes too late to be taken in
  the window is no different from one that comes after it. In the rest of a call that was made
  with interrupts on, one may come at any time, and the call may as well go on before it does. -/
  | call {s : Core} {l : CallLabel} {t : Drivers} :
      s.trap = .idle → s.call ≠ .idle → DriversStep s.toDrivers l t → t.call ≠ s.call →
      (∀ c, t.call = .window c → s.plic.eip = true) →
      (∀ c, s.call = .window c → s.plic.eip = false) →
      CpuStep s l { s with toDrivers := t }
  | take {s : Core} :
      s.trap = .idle → InterruptsOn s.sie s.call → s.plic.eip = true →
      CpuStep s .quiet { s with trap := .claim }
  | claim {s : Core} :
      s.trap = .claim →
      CpuStep s .quiet { s with
        plic := (plicClaim s.plic).2, trap := switchIrq (plicClaim s.plic).1 }
  | enter {s : Core} {d : VirtioDev} {irq : Nat} :
      s.trap = .call d irq →
      CpuStep s .quiet { s with
        toDrivers := s.setDev d { s.dev d with pc := .status }, trap := .run d irq }
  | handler {s : Core} {d : VirtioDev} {irq : Nat} {t : DevState} :
      s.trap = .run d irq → (s.dev d).pc ≠ .idle → HandlerStep d (s.dev d) t →
      CpuStep s .quiet { s with
        toDrivers := s.setDev d t, trap := if t.pc = .idle then .complete irq else .run d irq }
  | complete {s : Core} {irq : Nat} :
      s.trap = .complete irq →
      CpuStep s .quiet { s with plic := plicComplete s.plic irq, trap := .idle }
  | forward {s : Core} {i : Nat} :
      0 < i → i ≤ plicSources → s.line i = true → s.plic.pending i = false →
      s.plic.claimed i = false → CpuStep s .quiet { s with plic := s.plic.forward i }

/-- How many interrupts a device owes for what it does. -/
def DeviceEvent.owes : DeviceEvent → Nat
  | .take _ => 0
  | .fill => 0
  | .complete _ => 1

/-- What comes from outside: a call is made, a device does something, a line changes. -/
inductive OutsideStep : Core → CallLabel → Core → Prop where
  | start {s : Core} {c : Call} (sie : Bool) :
      s.trap = .idle → s.call = .idle → Accepts s.toDrivers c →
      OutsideStep s .quiet { s with call := .fill c, sie }
  | reject {s : Core} {c : Call} :
      s.trap = .idle → s.call = .idle → ¬ Accepts s.toDrivers c → OutsideStep s (.ret c) s
  | device {s : Core} {d : VirtioDev} {q : Nat} {ev : DeviceEvent} {q' : Queue} :
      q < d.queues → DeviceStep ((s.dev d).queue q) ev q' →
      OutsideStep s .quiet { s with
        toDrivers := s.setDev d { s.dev d with
          queue := Function.update (s.dev d).queue q q', owed := (s.dev d).owed + ev.owes } }
  | raise {s : Core} {d : VirtioDev} :
      0 < (s.dev d).owed →
      OutsideStep s .quiet { s with
        toDrivers := s.setDev d { s.dev d with
          owed := (s.dev d).owed - 1, status := { (s.dev d).status with usedBuffer := true } } }
  | config {s : Core} {d : VirtioDev} :
      OutsideStep s .quiet { s with
        toDrivers := s.setDev d { s.dev d with
          status := { (s.dev d).status with configChange := true } } }
  | lines {s : Core} {lines : Nat → Bool} : OutsideStep s .quiet { s with lines }

/-- One step of anything. -/
inductive CoreStep : Core → CallLabel → Core → Prop where
  | cpu {s s' : Core} {l : CallLabel} : CpuStep s l s' → CoreStep s l s'
  | outside {s s' : Core} {l : CallLabel} : OutsideStep s l s' → CoreStep s l s'

/-- After the initialisation of both devices and `plic_init`, before a device has done anything. -/
def CoreStart (s : Core) : Prop :=
  DriversStart s.toDrivers
    ∧ (s.dev .net).queue netRxQueue = netRxReady (s.dev .net).netRxPaddr
    ∧ (∃ pending, s.plic = plicInit (Plic.reset pending)) ∧ s.trap = .idle

end Os1000
