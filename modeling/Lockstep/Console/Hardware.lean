import Lockstep.Console.Devices
import Lockstep.Console.Memory

/-!
All of the console but the processors themselves.
-/

namespace Lockstep.Console

structure Hardware (δ : Type) where
  memory : Memory
  control : SystemControl
  waitstates : Waitstates
  externalMemory : ExternalMemory
  /-- Whether firmware has finished, as each processor reads it. -/
  bootFlags : Each (BitVec 8)
  schedule : Schedule SystemEvent
  /-- Interrupts that devices raised and that have not reached the processors yet. -/
  raised : Each Word
  /-- The state of the devices. -/
  devices : δ
  config : Configuration

namespace Hardware

variable {δ : Type}

/-- Reset everything but memory and devices. -/
def reset (h : Hardware δ) : Hardware δ :=
  { h with
    control := .initial
    waitstates := .initial
    externalMemory := 0
    bootFlags := .both 0
    schedule := {}
    raised := .both 0 }

def powerOn (config : Configuration) (devices : δ) : Hardware δ where
  memory := .initial config
  control := .initial
  waitstates := .initial
  externalMemory := 0
  bootFlags := .both 0
  schedule := {}
  raised := .both 0
  devices
  config

def mapMemory (f : Memory → Memory) (h : Hardware δ) : Hardware δ := { h with memory := f h.memory }

/-- Let the devices do something, and take back what they did to the console. -/
def withDevices {α : Type} (act : δ → DeviceContext → α × δ × DeviceContext) (h : Hardware δ)
    (journal : Journal) : α × Hardware δ × Journal :=
  let (a, devices, c) := act h.devices { schedule := h.schedule, raised := h.raised, journal }
  (a, { h with devices, schedule := c.schedule, raised := c.raised }, c.journal)

end Hardware

/-- A processor of the console with the rest of it around. -/
abbrev Node (δ : Type) := Machine (Hardware δ)

namespace Node

variable {δ : Type}

def receiveInterrupts (id : ProcessorId) (m : Node δ) : Node δ :=
  { m with
    cpu := m.cpu.requestInterrupts (m.system.raised.get id)
    system := { m.system with raised := m.system.raised.set id 0 } }

def withDevices {α : Type} (act : δ → DeviceContext → α × δ × DeviceContext) (m : Node δ) :
    α × Node δ :=
  let (a, system, journal) := m.system.withDevices act m.journal
  (a, { m with system, journal })

end Node

end Lockstep.Console
