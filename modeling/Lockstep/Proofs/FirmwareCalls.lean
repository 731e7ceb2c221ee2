import Lockstep.Proofs.Carry

/-!
Firmware calls. A call answers in r0, r1 and r3, lets time pass, and may halt the processor; all else that it does
are accesses to memory. Calls that are known are carried out, but for a division by zero.
-/

namespace Lockstep

/-- Two files that differ at most in r0, r1 and r3. -/
structure Registers.SameButAnswers (f f' : Registers) : Prop where
  cells : ∀ s, s ∉ [Slot.low 0, .low 1, .low 3] → f'.cell s = f.cell s
  saved : f'.saved = f.saved
  pc : f'.pc = f.pc
  cpsr : f'.cpsr = f.cpsr
  mode : f'.mode = f.mode

namespace Registers.SameButAnswers

variable {f g h : Registers}

theorem refl (f : Registers) : f.SameButAnswers f := ⟨fun _ _ => rfl, rfl, rfl, rfl, rfl⟩

theorem trans (a : f.SameButAnswers g) (b : g.SameButAnswers h) : f.SameButAnswers h :=
  ⟨fun s hs => (b.cells s hs).trans (a.cells s hs), b.saved.trans a.saved, b.pc.trans a.pc,
    b.cpsr.trans a.cpsr, b.mode.trans a.mode⟩

theorem of_eq (same : g = f) : f.SameButAnswers g := same ▸ refl f

end Registers.SameButAnswers

variable {σ : Type}

structure Machine.Answers (m m' : Machine σ) : Prop extends m.Alone m' where
  regs : m.cpu.regs.SameButAnswers m'.cpu.regs

namespace Machine.Answers

theorem refl (m : Machine σ) : m.Answers m := ⟨⟨rfl, Nat.le_refl _, rfl, rfl⟩, .refl _⟩

theorem idle (m : Machine σ) (cycles : Nat) : m.Answers (m.idle cycles) :=
  ⟨⟨rfl, Nat.le_add_right _ _, rfl, rfl⟩, .refl _⟩

theorem halt (m : Machine σ) : m.Answers (m.mapCpu (·.halt)) := ⟨⟨rfl, Nat.le_refl _, rfl, rfl⟩, .refl _⟩

theorem note (m : Machine σ) (l : Level) (t : String) : m.Answers (m.note l t) :=
  ⟨⟨rfl, Nat.le_refl _, rfl, rfl⟩, .refl _⟩

theorem result {r : LowRegister} (answer : Slot.low r ∈ [Slot.low 0, .low 1, .low 3]) (v : Word) (m : Machine σ) :
    m.Answers (Firmware.result r v m) := by
  have named : m.cpu.regs.mode.slot? r.wide = some (.low r) := dif_pos r.isLt
  have written : m.cpu.regs.write r.wide v = m.cpu.regs.setCell (.low r) v := by
    rw [Registers.write, named]
  refine ⟨⟨rfl, Nat.le_refl _, rfl, rfl⟩, ?_⟩
  show m.cpu.regs.SameButAnswers (m.cpu.regs.write r.wide v)
  rw [written]
  refine ⟨fun s hs => ?_, rfl, rfl, rfl, rfl⟩
  rw [Registers.cell_setCell, if_neg]
  rintro rfl
  exact hs answer

theorem trans {m₁ m₂ m₃ : Machine σ} (a : m₁.Answers m₂) (b : m₂.Answers m₃) : m₁.Answers m₃ :=
  ⟨⟨b.system.trans a.system, Nat.le_trans a.timestamp b.timestamp, b.interrupts.trans a.interrupts,
    b.exceptionBase.trans a.exceptionBase⟩, a.regs.trans b.regs⟩

end Machine.Answers

namespace Firmware

section
variable {bus : Bus σ} {R : Machine σ → Machine σ → Prop}
  (get : ∀ w a m, R m (bus.get w a m).2) (set : ∀ w a v m, R m (bus.set w a v m))
  (own : ∀ m m', m.Answers m' → R m m')
  (trans : ∀ {m₁ m₂ m₃}, R m₁ m₂ → R m₂ m₃ → R m₁ m₃)
include get set own trans

theorem copyUnits_keeps (w : Width) (fill : Option Word) (count : Nat) (src dst : Address) (m : Machine σ) :
    R m (copyUnits bus w fill count src dst m) := by
  induction count generalizing src dst m with
  | zero => exact own m m (.refl m)
  | succ count ih =>
    cases fill with
    | some v => exact trans (set w dst _ m) (ih _ _ _)
    | none => exact trans (get w src m) (trans (set w dst _ _) (ih _ _ _))

theorem moveUnits_keeps (w : Width) (count : Nat) (filling : Bool) (m : Machine σ) :
    R m (moveUnits bus w count filling m) := by
  have copied := copyUnits_keeps get set own trans w
    (if filling then some (bus.load w (w.align (argument 0 m)) m).1 else none) count
    (w.align (argument 0 m)) (w.align (argument 1 m)) (bus.load w (w.align (argument 0 m)) m).2
  exact trans (get w _ m) (trans copied (own _ _ (.idle _ _)))

omit set in
theorem checksumMemory_keeps (count : Nat) (addr : Address) (crc : BitVec 16) (m : Machine σ) :
    R m (checksumMemory bus count addr crc m).2 := by
  induction count generalizing addr crc m with
  | zero => exact own m m (.refl m)
  | succ count ih => exact trans (get .byte addr m) (ih _ _ _)

omit get set own trans in
/-- A division by zero fails and leaves everything as it is. -/
theorem divide_cases (m : Machine σ) :
    argument 1 m = 0 ∧ (divide : Exec σ Unit) m = .error (.invalidState "BIOS division by zero") m ∨
      argument 1 m ≠ 0 ∧ ∃ m', (divide : Exec σ Unit) m = .ok () m' ∧ m.Answers m' := by
  unfold divide
  simp only [bind, EStateM.bind, Exec.get_eq]
  by_cases h : argument 1 m = 0
  · rw [if_pos h]
    exact .inl ⟨h, rfl⟩
  · rw [if_neg h]
    exact .inr ⟨h, _, rfl, ((Machine.Answers.result (by decide) _ m).trans (.result (by decide) _ _)).trans
      (.result (by decide) _ _)⟩

omit get set trans in
theorem divide_keeps (m : Machine σ) : R m ((divide : Exec σ Unit).final m) := by
  unfold Exec.final
  rcases divide_cases m with ⟨-, fails⟩ | ⟨-, m', ends, answers⟩
  · rw [fails]
    exact own m m (.refl m)
  · rw [ends]
    exact own m m' answers

theorem call_keeps (number : BitVec 8) (m : Machine σ) : R m ((call bus number).final m) := by
  have done : ∀ x : Exec σ Unit, R m (x.final m) → R m (Exec.final (do
      x
      modify (·.note .trace ("Emulated BIOS call 0x" ++ Text.hexPadded 2 number.toNat))
      pure true) m) := by
    intro x hx
    rw [Exec.final_bind]
    unfold Exec.final at hx
    cases hm : x m with
    | ok _ m₁ =>
      rw [hm] at hx
      exact trans hx (own _ _ (.note _ _ _))
    | error e m₁ =>
      rw [hm] at hx
      exact hx
  unfold call
  split
  · exact done (modify spin) (own _ _ ((Machine.Answers.idle m _).trans (.result (by decide) _ _)))
  · exact done (modify fun m : Machine σ => m.mapCpu (·.halt)) (own _ _ (.halt m))
  · exact done divide (divide_keeps own m)
  · exact done (modify (moveMemory bus)) (moveUnits_keeps get set own trans _ _ _ m)
  · exact done (modify (moveBlocks bus)) (moveUnits_keeps get set own trans _ _ _ m)
  · exact done (modify fun m => result 0 (squareRoot (argument 0 m)) m) (own _ _ (.result (by decide) _ m))
  · have summed := checksumMemory_keeps get own trans (argument 2 m).toNat (argument 1 m)
      ((argument 0 m).setWidth 16) m
    exact done (modify (checksum bus)) (trans summed (own _ _ (.result (by decide) _ _)))
  · exact done (modify (result 0 0)) (own _ _ (.result (by decide) _ m))
  · exact own m m (.refl m)

end

/-- The call for a checksum stores nothing. -/
theorem checksum_set (bus : Bus σ) (set : Width → Address → Word → Machine σ → Machine σ) (m : Machine σ) :
    call { bus with set } 0x0E m = call bus 0x0E m := by
  have summed : ∀ count addr crc m,
      checksumMemory { bus with set } count addr crc m = checksumMemory bus count addr crc m := by
    intro count addr crc m
    induction count generalizing addr crc m with
    | zero => rfl
    | succ count ih => exact ih _ _ _
  have called : ∀ bus : Bus σ, call bus 0x0E m =
      .ok true ((checksum bus m).note .trace ("Emulated BIOS call 0x" ++ Text.hexPadded 2 14)) := fun _ => rfl
  rw [called, called]
  unfold checksum
  rw [summed]

def known : List (BitVec 8) := [0x03, 0x06, 0x09, 0x0B, 0x0C, 0x0D, 0x0E, 0x0F]

/-- A known call is carried out, unless it divides by zero. -/
theorem call_ends (bus : Bus σ) {number : BitVec 8} (h : number ∈ known) (m : Machine σ) :
    (∃ m', call bus number m = .ok true m') ∨
      number = 0x09 ∧ argument 1 m = 0 ∧
        call bus number m = .error (.invalidState "BIOS division by zero") m := by
  simp only [known, List.mem_cons, List.not_mem_nil, or_false] at h
  rcases h with rfl | rfl | rfl | rfl | rfl | rfl | rfl | rfl
  case inr.inr.inl =>
    have called : call bus 0x09 m = EStateM.bind divide (fun _ => do
      modify (·.note .trace ("Emulated BIOS call 0x" ++ Text.hexPadded 2 9))
      pure true) m := rfl
    rw [called]
    unfold EStateM.bind
    rcases divide_cases m with ⟨zero, fails⟩ | ⟨-, m', ends, -⟩
    · rw [fails]
      exact .inr ⟨rfl, zero, rfl⟩
    · rw [ends]
      exact .inl ⟨_, rfl⟩
  all_goals exact .inl ⟨_, rfl⟩

/-- A call that is not carried out leaves everything as it is. -/
theorem call_declines {bus : Bus σ} {number : BitVec 8} {m m' : Machine σ}
    (declined : call bus number m = .ok false m') : m' = m := by
  by_cases h : number ∈ known
  · rcases call_ends bus h m with ⟨_, carried⟩ | ⟨-, -, failed⟩
    · rw [carried] at declined
      cases declined
    · rw [failed] at declined
      cases declined
  · have refused : call bus number = pure false := by
      unfold call
      split
      case h_9 => rfl
      all_goals
        rename_i value
        exact absurd (by simp [known, ← BitVec.toNat_inj, value]) h
    rw [refused] at declined
    cases declined
    rfl

end Firmware

end Lockstep
