import Lockstep.Proofs.Frame
import Lockstep.Proofs.Transcript

/-!
Systems that do not look at the registers of the processor that calls them. On two machines that agree outside of
some parts of the registers such a system does the same, so that they agree outside of these parts again.
-/

namespace Lockstep

variable {σ α : Type}

namespace Registers

inductive Part where
  | cell (s : Slot)
  | saved (b : Bank)
  | pc
  /-- A bit of the status register. -/
  | status (i : Nat)
  | mode

def AgreeAt (f f' : Registers) : Part → Prop
  | .cell s => f'.cell s = f.cell s
  | .saved b => f'.bankedSpsr b = f.bankedSpsr b
  | .pc => f'.pc = f.pc
  | .status i => f'.cpsr.getLsbD i = f.cpsr.getLsbD i
  | .mode => f'.mode = f.mode

theorem AgreeAt.setCell {f f' : Registers} {p : Part} (h : f.AgreeAt f' p) (s : Slot) (v : Word) :
    (f.setCell s v).AgreeAt (f'.setCell s v) p := by
  cases p with
  | cell t =>
    refine (f'.cell_setCell s t v).trans (Eq.trans ?_ (f.cell_setCell s t v).symm)
    split_ifs
    · rfl
    · exact h
  | saved | pc | status | mode => exact h

end Registers

open Registers (Part)

/-- Two machines that differ at most in their registers and in the kind of the next fetch. -/
structure Machine.Beside (m m' : Machine σ) : Prop where
  interrupts : m'.cpu.interrupts = m.cpu.interrupts
  halted : m'.cpu.halted = m.cpu.halted
  timestamp : m'.cpu.timestamp = m.cpu.timestamp
  exceptionBase : m'.cpu.exceptionBase = m.cpu.exceptionBase
  system : m'.system = m.system
  journal : m'.journal = m.journal

/-- Two machines that differ at most in the kind of the next fetch and in some parts of the registers. -/
structure Machine.Alike (hidden : Part → Prop) (m m' : Machine σ) : Prop where
  beside : m.Beside m'
  parts : ∀ p, ¬ hidden p → m.cpu.regs.AgreeAt m'.cpu.regs p

def Machine.AlikeWith (hidden : Part → Prop) (x x' : α × Machine σ) : Prop := x'.1 = x.1 ∧ x.2.Alike hidden x'.2

/-- A call that looks neither at the registers nor at the kind of the next fetch: what comes back and what it does to
the rest do not depend on them, and no part of the registers is set from another part. -/
structure Machine.Unseeing (call : Machine σ → α × Machine σ) : Prop where
  answer : ∀ {m m' : Machine σ}, m.Beside m' → (call m').1 = (call m).1
  beside : ∀ {m m' : Machine σ}, m.Beside m' → (call m).2.Beside (call m').2
  parts : ∀ {m m' : Machine σ}, m.Beside m' → ∀ p, m.cpu.regs.AgreeAt m'.cpu.regs p →
    (call m).2.cpu.regs.AgreeAt (call m').2.cpu.regs p

/-- One that does not set the kind of the next fetch either, which instructions set before an access or after it. -/
structure Machine.Blind (call : Machine σ → α × Machine σ) : Prop extends Machine.Unseeing call where
  fetchKind : ∀ m, (call m).2.cpu.fetchKind = m.cpu.fetchKind

/-- A property of all accesses that a system answers. -/
structure Bus.OnAccess (bus : Bus σ) (P : ∀ {α : Type}, (Machine σ → α × Machine σ) → Prop) : Prop where
  get : ∀ w a, P (bus.get w a)
  set : ∀ w a v, P fun m => ((), bus.set w a v m)
  waitTime : ∀ w a k, P (bus.waitTime w a k)

abbrev Bus.Blind (bus : Bus σ) : Prop := bus.OnAccess Machine.Blind

namespace Machine

variable {hidden : Part → Prop} {m m' : Machine σ}

theorem Blind.alike {call : Machine σ → α × Machine σ} (h : Blind call) (alike : m.Alike hidden m') :
    AlikeWith hidden (call m) (call m') :=
  ⟨h.answer alike.beside, h.beside alike.beside, fun p seen => h.parts alike.beside p (alike.parts p seen)⟩

namespace Alike

variable (h : m.Alike hidden m')
include h

theorem mono {more : Part → Prop} (le : ∀ p, hidden p → more p) : m.Alike more m' :=
  ⟨h.beside, fun p seen => h.parts p fun hid => seen (le p hid)⟩

theorem idle (n : Nat) : (m.idle n).Alike hidden (m'.idle n) := by
  obtain ⟨⟨interrupts, halted, timestamp, exceptionBase, system, journal⟩, parts⟩ := h
  exact ⟨⟨interrupts, halted, congrArg (· + n) timestamp, exceptionBase, system, journal⟩, parts⟩

theorem setFetchKind_left (k : Access) : (m.setFetchKind k).Alike hidden m' :=
  ⟨⟨h.beside.interrupts, h.beside.halted, h.beside.timestamp, h.beside.exceptionBase, h.beside.system,
    h.beside.journal⟩, h.parts⟩

theorem setFetchKind_right (k : Access) : m.Alike hidden (m'.setFetchKind k) :=
  ⟨⟨h.beside.interrupts, h.beside.halted, h.beside.timestamp, h.beside.exceptionBase, h.beside.system,
    h.beside.journal⟩, h.parts⟩

theorem outside {f f' : Registers → Registers} : (m.mapRegs f).Beside (m'.mapRegs f') :=
  ⟨h.beside.interrupts, h.beside.halted, h.beside.timestamp, h.beside.exceptionBase, h.beside.system,
    h.beside.journal⟩

/-- A cell that is set to the same is no longer hidden. -/
theorem setCell (s : Slot) (v : Word) :
    (m.mapRegs (·.setCell s v)).Alike (fun p => hidden p ∧ p ≠ .cell s) (m'.mapRegs (·.setCell s v)) := by
  refine ⟨h.outside, fun p seen => ?_⟩
  by_cases hid : hidden p
  · obtain rfl : p = .cell s := Classical.byContradiction fun other => seen ⟨hid, other⟩
    have set (f : Registers) : (f.setCell s v).cell s = v := (f.cell_setCell s s v).trans (if_pos rfl)
    exact (set m'.cpu.regs).trans (set m.cpu.regs).symm
  · exact (h.parts p hid).setCell s v

/-- A hidden cell may be set on one side. -/
theorem setCell_right {s : Slot} (hid : hidden (.cell s)) (v : Word) :
    m.Alike hidden (m'.mapRegs (·.setCell s v)) := by
  refine ⟨h.outside (f := id), fun p seen => ?_⟩
  have same := h.parts p seen
  cases p with
  | cell t =>
    have other : t ≠ s := by
      rintro rfl
      exact seen hid
    exact (m'.cpu.regs.cell_setCell s t v).trans ((if_neg other).trans same)
  | saved | pc | status | mode => exact same

end Alike

/-- A call that is written down does not look at the registers either. -/
theorem Blind.noted {call : Machine σ → α × Machine σ} (h : Blind call) (note : α → List Request) :
    Blind fun m : Machine (σ × Transcript) =>
      ((call (m.seen Prod.fst)).1, m.noting (call (m.seen Prod.fst)).2 (note (call (m.seen Prod.fst)).1)) := by
  have shown : ∀ {m m' : Machine (σ × Transcript)}, m.Beside m' → (m.seen Prod.fst).Beside (m'.seen Prod.fst) :=
    fun b => ⟨b.interrupts, b.halted, b.timestamp, b.exceptionBase, congrArg Prod.fst b.system, b.journal⟩
  refine ⟨⟨fun b => h.answer (shown b), fun {m m'} b => ?_, fun b p same => h.parts (shown b) p same⟩,
    fun m => h.fetchKind (m.seen Prod.fst)⟩
  have after := h.beside (shown b)
  refine ⟨after.interrupts, after.halted, after.timestamp, after.exceptionBase, ?_, after.journal⟩
  show (_, m'.system.2 ++ _) = (_, m.system.2 ++ _)
  rw [after.system, h.answer (shown b), b.system]

end Machine

namespace Bus.Blind

variable {bus : Bus σ} (h : bus.Blind)
include h

theorem recorded : bus.recorded.Blind where
  get w a := (h.get w a).noted fun v => [.get w a (w.truncate v)]
  set w a v := (h.set w a v).noted fun _ => [.set w a v]
  waitTime w a k := (h.waitTime w a k).noted fun n => [.wait w a k n]

variable {hidden : Part → Prop} {m m' : Machine σ} (alike : m.Alike hidden m')
include alike

theorem wait (w : Width) (a : Address) (k : Access) : (bus.wait w a k m).Alike hidden (bus.wait w a k m') := by
  obtain ⟨same, after⟩ := (h.waitTime w a k).alike alike
  show ((bus.waitTime w a k m).2.idle _).Alike hidden ((bus.waitTime w a k m').2.idle _)
  rw [same]
  exact after.idle _

theorem load (w : Width) (a : Address) : Machine.AlikeWith hidden (bus.load w a m) (bus.load w a m') := by
  obtain ⟨same, after⟩ := (h.get w a).alike alike
  exact ⟨congrArg w.truncate same, after⟩

theorem write (w : Width) (a : Address) (v : Word) (k : Access) :
    (bus.write w a v k m).Alike hidden (bus.write w a v k m') :=
  ((h.set w a (w.truncate v)).alike (h.wait alike w a k.asWrite)).2

theorem read (w : Width) (a : Address) (k : Access) :
    Machine.AlikeWith hidden (bus.read w a k m) (bus.read w a k m') := by
  obtain ⟨same, after⟩ := h.load (h.wait alike w a k) w a
  exact ⟨congrArg (fun v : Word => if !bus.isV5 && w == .half && a.getLsbD 0 then v.rotateRight 8 else v) same, after⟩

theorem readSignedHalf (a : Address) (k : Access) :
    Machine.AlikeWith hidden (bus.readSignedHalf a k m) (bus.readSignedHalf a k m') := by
  obtain ⟨same, after⟩ := h.load (h.wait alike .half a k) .half a
  exact ⟨congrArg (fun v : Word => if !bus.isV5 && a.getLsbD 0 then Word.extend (v.extractLsb' 8 8)
    else Word.extend (v.setWidth 16)) same, after⟩

theorem readRotated (a : Address) (k : Access) :
    Machine.AlikeWith hidden (bus.readRotated a k m) (bus.readRotated a k m') := by
  obtain ⟨same, after⟩ := h.read alike .word (Word.alignDown a 4) k
  exact ⟨congrArg (fun v : Word => v.rotateRight (8 * (a.toNat % 4))) same, after⟩

omit alike

variable (m : Machine σ)

theorem wait_fetchKind (w : Width) (a : Address) (k : Access) : (bus.wait w a k m).cpu.fetchKind = m.cpu.fetchKind :=
  (h.waitTime w a k).fetchKind m

theorem read_fetchKind (w : Width) (a : Address) (k : Access) : (bus.read w a k m).2.cpu.fetchKind = m.cpu.fetchKind :=
  ((h.get w a).fetchKind _).trans (h.wait_fetchKind m w a k)

theorem readSignedHalf_fetchKind (a : Address) (k : Access) :
    (bus.readSignedHalf a k m).2.cpu.fetchKind = m.cpu.fetchKind := h.read_fetchKind m .half a k

theorem readRotated_fetchKind (a : Address) (k : Access) :
    (bus.readRotated a k m).2.cpu.fetchKind = m.cpu.fetchKind := h.read_fetchKind m .word _ k

theorem write_fetchKind (w : Width) (a : Address) (v : Word) (k : Access) :
    (bus.write w a v k m).cpu.fetchKind = m.cpu.fetchKind :=
  ((h.set w a _).fetchKind _).trans (h.wait_fetchKind m w a k.asWrite)

end Bus.Blind

/-- A call that concerns nothing but the system. -/
theorem Machine.blind_mapSystem (answer : σ → α) (f : σ → σ) :
    Machine.Blind fun m : Machine σ => (answer m.system, m.mapSystem f) where
  answer b := congrArg answer b.system
  beside b := ⟨b.interrupts, b.halted, b.timestamp, b.exceptionBase, congrArg f b.system, b.journal⟩
  parts _ _ same := same
  fetchKind _ := rfl

theorem FlatMemory.bus_blind (a : Architecture) (timing : Width → Address → Access → Nat) :
    (FlatMemory.bus a timing).Blind where
  get w a := Machine.blind_mapSystem (·.get w a) fun s : FlatMemory => s.record (.read w a (s.get w a))
  set w a v := Machine.blind_mapSystem (fun _ => ()) fun s : FlatMemory => (s.set w a v).record (.write w a v)
  waitTime w a k := Machine.blind_mapSystem (fun _ => timing w a k) id

end Lockstep
