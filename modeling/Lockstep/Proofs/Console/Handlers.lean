import Lockstep.Proofs.BlockTransfers
import Lockstep.Proofs.Computations
import Lockstep.Proofs.Console.Noting
import Lockstep.Proofs.SoftwareCalls

/-!
Software calls on the console. Its buses leave the registers and the pipeline of their processor alone, so that a call
goes on behind itself whoever handles it. The devices can raise an interrupt when a call reads them; then the handler
of interrupts is entered after the call.
-/

namespace Lockstep.Console

variable {δ : Type} (devices : Devices δ) (id : ProcessorId)

/-- Accesses outside memory, and the devices that they call, leave the registers alone. -/
theorem Node.sameRegisters : Node.KeepsCalls devices id Machine.SameRegisters where
  refl _ := ⟨rfl, rfl⟩
  trans := .trans
  note _ _ _ := ⟨rfl, rfl⟩
  core r v mask m := ⟨(Node.writeCore_spares id r v mask m).regs, (Node.writeCore_spares id r v mask m).exceptionBase⟩
  read _ _ := ⟨rfl, rfl⟩
  write _ _ _ _ := ⟨rfl, rfl⟩

theorem Board.memoryBus_accessesApart : (Board.memoryBus devices id).AccessesApart where
  get w a m := by
    cases id <;> exact ((Node.sameRegisters devices _).readPlace w _ _ m).regs
  set w a v m := by
    have kept : ∀ p, (Node.writePlace devices id w (w.align a) v p m).cpu.regs = m.cpu.regs := by
      intro p
      cases p with
      | memory r offset => rfl
      | firmware | io | video | nothing =>
        exact ((Node.sameRegisters devices id).writePlace w _ v (by simp) m).regs
    cases id <;> exact kept _

theorem Board.bus_handsOff : (Board.bus devices id).HandsOff where
  reading := by
    cases id with
    | arm7 | arm9 =>
      exact ⟨fun w a m => (Node.sameRegisters devices _).readPlace w _ _ m, fun _ _ _ _ => ⟨rfl, rfl⟩⟩
  declining {n m m'} h := by
    have offered : offerCall (Board.memoryBus devices id) n m = .ok false m' := by
      cases id <;> exact h
    unfold offerCall at offered
    rw [Exec.get_bind] at offered
    split_ifs at offered
    · rw [Firmware.call_declines offered]
      exact ⟨rfl, rfl⟩
    · cases offered
      exact ⟨rfl, rfl⟩

theorem Board.bus_keepsRegisters : (Board.bus devices id).KeepsRegisters where
  get w a m := ((bus_handsOff devices id).reading.get w a m).regs
  set w a v m := by
    cases id with
    | arm7 => exact (memoryBus_accessesApart devices .arm7).set w a v m
    | arm9 => exact (memoryBus_accessesApart devices .arm9).set w a v m
  waitTime w a k m := ((bus_handsOff devices id).reading.waitTime w a k m).regs

theorem Node.writeCore_fetchKind (r : CoreWord) (v mask : Word) (m : Node δ) :
    (Node.writeCore id r v mask m).cpu.fetchKind = m.cpu.fetchKind := by
  have power : ∀ (x : BitVec 8) (m : Node δ), (Node.setPower x m).cpu.fetchKind = m.cpu.fetchKind := by
    intro x m
    unfold Node.setPower
    split <;> rfl
  cases r with
  | externalMemory | enabled | requested => rfl
  | masterEnable =>
    unfold Node.writeCore
    simp only
    split_ifs <;> rfl
  | bootFlag =>
    unfold Node.writeCore
    simp only
    split_ifs
    · exact power _ _
    · exact power _ _
    · rfl
    · rfl

/-- So is the rest of the pipeline. -/
theorem Node.samePipeline : Node.KeepsCalls devices id Machine.SamePipeline where
  refl _ := ⟨.refl _, rfl, rfl⟩
  trans first second := ⟨first.place.trans second.place, second.fetchKind.trans first.fetchKind,
    second.timestamp.trans first.timestamp⟩
  note _ _ _ := ⟨.refl _, rfl, rfl⟩
  core r v mask m := by
    have spared := Node.writeCore_spares id r v mask m
    exact ⟨⟨congrArg (·.pc) spared.regs, congrArg (·.isThumb) spared.regs⟩, Node.writeCore_fetchKind id r v mask m,
      spared.timestamp⟩
  read _ _ := ⟨.refl _, rfl, rfl⟩
  write _ _ _ _ := ⟨.refl _, rfl, rfl⟩

theorem Board.bus_sparesPipeline : (Board.bus devices id).SparesPipeline where
  get w a m := by
    cases id <;> exact (Node.samePipeline devices _).readPlace w _ _ m
  waitTime _ _ _ _ := by
    cases id <;> exact ⟨.refl _, rfl, rfl⟩
  controlRead _ _ := by
    cases id <;> exact ⟨.refl _, rfl, rfl⟩
  controlWrite r v m := by
    cases id with
    | arm7 => exact ⟨.refl _, rfl, rfl⟩
    | arm9 =>
      -- a write can halt the processor and move its exception vectors, which the pipeline has nothing of
      show m.SamePipeline (writeControl r v m).2
      unfold writeControl
      cases SystemControl.waits r
      · exact ⟨⟨rfl, rfl⟩, rfl, rfl⟩
      · exact ⟨⟨rfl, rfl⟩, rfl, rfl⟩

/-- Where calls are emulated, the step of a processor with a known call goes on behind it, unless an interrupt can
be serviced when the call is done. -/
theorem Node.call_carried {m : Node δ} {n : BitVec 8} (emulated : m.system.config.emulateCalls = true)
    (known : n ∈ Firmware.known) (running : m.cpu.halted = false)
    (next : Exec.nextCall (Board.bus devices id) m = some n)
    (calm : ((Exec.work (Board.bus devices id)).final m).cpu.serviceable = false) :
    Exec.entries (Board.bus devices id) m = [] ∧
      m.cpu.regs.further.SameButAnswers ((Exec.step (Board.bus devices id)).final m).cpu.regs := by
  have config := (((Hardware.config_keeps devices) id).carries.fetched m).1
  have call : (Board.bus devices id).softwareCall n (Exec.fetched (Board.bus devices id) m).2 =
      Firmware.call (Board.memoryBus devices id) n (Exec.fetched (Board.bus devices id) m).2 := by
    have offered : (Board.bus devices id).softwareCall n = offerCall (Board.memoryBus devices id) n := by
      cases id <;> rfl
    rw [offered, offerCall, Exec.get_bind, config, emulated, if_pos rfl]
  obtain ⟨none, answers, -⟩ := Exec.call_carried (Board.bus_handsOff devices id)
    (Board.memoryBus_accessesApart devices id) known running next ⟨rfl, rfl⟩ call calm
  exact ⟨none, answers⟩

/-- Devices that raise the first line of the ARM7 when it reads the keys. -/
def keyRead : Script where
  onRead := [(0x04000130, [.raise .arm7 0])]

/-- The ARM7 of a console in System mode, about to call for the checksum of a byte of the keys. -/
def summing : Node ScriptState :=
  ((Board.powerOn (.setImage {} "nds7" ⟨#[0x00, 0x00, 0x0E, 0xEF]⟩) { words := [(0x04000130, 0)] }).node .arm7).mapCpu
    fun p => { p with
      regs := { p.regs with cells := (p.regs.cells.set 1 0x04000130).set 2 1, cpsr := 0x1F, mode := .system }
      interrupts := { master := true, enabled := 1, requested := 0 } }

/-- The call stores nothing, but its load raises an interrupt, whose handler is entered in the same step. -/
theorem summing_interrupted :
    Mode.ofStatus? summing.cpu.regs.cpsr = some summing.cpu.regs.mode ∧ summing.cpu.halted = false ∧
      summing.cpu.regs.instructionSize.toNat ∣ summing.cpu.regs.pc.toNat ∧ summing.cpu.serviceable = false ∧
      summing.system.config.emulateCalls = true ∧ 0x0E ∈ Firmware.known ∧
      Exec.nextCall (Board.bus keyRead.devices .arm7) summing = some 0x0E ∧
      (∀ set m, Firmware.call { Board.memoryBus keyRead.devices .arm7 with set } 0x0E m =
        Firmware.call (Board.memoryBus keyRead.devices .arm7) 0x0E m) ∧
      Exec.entries (Board.bus keyRead.devices .arm7) summing = [.irq] ∧
      ((Exec.step (Board.bus keyRead.devices .arm7)).final summing).cpu.regs.cpsr = 0x92 := by
  refine ⟨rfl, rfl, by decide, rfl, rfl, by decide, by decide +kernel, fun set m => ?_, by decide +kernel,
    by decide +kernel⟩
  exact Firmware.checksum_set _ set m

end Lockstep.Console
