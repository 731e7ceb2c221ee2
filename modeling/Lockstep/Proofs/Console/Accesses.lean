import Lockstep.Console.Board
import Lockstep.Proofs.FirmwareCalls

/-!
What an access can do to the console. An access writes memory, writes a word that the console has itself,
writes the system control coprocessor, or calls the devices; a firmware call is a number of accesses. What
these keep, every step of either processor keeps.
-/

namespace Lockstep

namespace Console

variable {δ : Type}

/-- A relation that all keep that accesses of a processor do outside memory. -/
structure Node.KeepsCalls (devices : Devices δ) (id : ProcessorId) (R : Node δ → Node δ → Prop) : Prop where
  refl : ∀ m, R m m
  trans : ∀ {m₁ m₂ m₃}, R m₁ m₂ → R m₂ m₃ → R m₁ m₃
  note : ∀ m l t, R m (m.note l t)
  core : ∀ r v mask m, R m (Node.writeCore id r v mask m)
  read : ∀ a m, R m (Node.readDevice devices id a m).2
  write : ∀ a v mask m, R m (Node.writeDevice devices id a v mask m).2

/-- A relation that all keep that a processor does by itself, and all that its accesses do outside memory. -/
structure Node.KeepsIo (devices : Devices δ) (id : ProcessorId) (R : Node δ → Node δ → Prop) : Prop where
  own : ∀ m m', m.Alone m' → R m m'
  trans : ∀ {m₁ m₂ m₃}, R m₁ m₂ → R m₂ m₃ → R m₁ m₃
  core : ∀ r v mask m, R m (Node.writeCore id r v mask m)
  read : ∀ a m, R m (Node.readDevice devices id a m).2
  write : ∀ a v mask m, R m (Node.writeDevice devices id a v mask m).2

/-- A relation that all keep that an access of a processor can do to the console, and all that a processor
does by itself. -/
structure Node.Keeps (devices : Devices δ) (id : ProcessorId) (R : Node δ → Node δ → Prop) : Prop
    extends Node.KeepsIo devices id R where
  memory : ∀ r offset w v (m : Node δ), R m (m.mapSystem (·.mapMemory (·.write r offset w v)))
  control : id = .arm9 → ∀ reg v m, R m (writeControl reg v m).2

namespace Node.KeepsCalls

variable {devices : Devices δ} {id : ProcessorId} {R : Node δ → Node δ → Prop} (h : KeepsCalls devices id R)
include h

theorem readNothing (w : Width) (a : Address) (m : Node δ) : R m (Node.readNothing id w a m).2 := by
  unfold Node.readNothing
  simp only
  split_ifs
  · exact h.refl m
  · exact h.note _ _ _

theorem readIo (w : Width) (a : Address) (m : Node δ) : R m (Node.readIo devices id w a m).2 := by
  unfold Node.readIo
  simp only
  cases CoreWord.ofAddress? (Lane.wordOf a) with
  | some r => exact h.refl m
  | none =>
    have called := h.read (Lane.wordOf a) m
    rcases hd : Node.readDevice devices id (Lane.wordOf a) m with ⟨_ | v, m₁⟩ <;> rw [hd] at called
    · exact h.trans called (h.note _ _ _)
    · exact called

theorem readPlace (w : Width) (a : Address) (p : Place) (m : Node δ) :
    R m (Node.readPlace devices id w a p m).2 := by
  cases p with
  | memory r offset => exact h.refl m
  | firmware offset =>
    unfold Node.readPlace
    simp only
    split
    · exact h.refl m
    · exact h.readNothing w a m
  | io => exact h.readIo w a m
  | video =>
    have called := h.read (Lane.wordOf a) m
    unfold Node.readPlace Node.readVideo
    simp only
    rcases hd : Node.readDevice devices id (Lane.wordOf a) m with ⟨_ | v, m₁⟩ <;> rw [hd] at called
    · exact h.trans called (h.readNothing w a m₁)
    · exact called
  | nothing => exact h.readNothing w a m

theorem writeIo (w : Width) (a : Address) (v : Word) (m : Node δ) :
    R m (Node.writeIo devices id w a v m) := by
  unfold Node.writeIo
  simp only
  cases CoreWord.ofAddress? (Lane.wordOf a) with
  | some r => exact h.core r _ _ m
  | none =>
    have called := h.write (Lane.wordOf a) (v <<< Lane.shift a) (Lane.mask w a) m
    rcases hd : Node.writeDevice devices id (Lane.wordOf a) (v <<< Lane.shift a) (Lane.mask w a) m with
      ⟨_ | _, m₁⟩ <;> rw [hd] at called
    · exact h.trans called (h.note _ _ _)
    · exact called

theorem writePlace (w : Width) (a : Address) (v : Word) {p : Place} (hp : ∀ r offset, p ≠ .memory r offset)
    (m : Node δ) : R m (Node.writePlace devices id w a v p m) := by
  cases p with
  | memory r offset => exact absurd rfl (hp r offset)
  | io => exact h.writeIo w a v m
  | video =>
    have called := h.write (Lane.wordOf a) (v <<< Lane.shift a) (Lane.mask w a) m
    unfold Node.writePlace Node.writeVideo
    simp only
    rcases hd : Node.writeDevice devices id (Lane.wordOf a) (v <<< Lane.shift a) (Lane.mask w a) m with
      ⟨_ | _, m₁⟩ <;> rw [hd] at called
    · exact h.trans called (h.note _ _ _)
    · exact called
  | firmware offset => exact h.note _ _ _
  | nothing => exact h.note _ _ _

end Node.KeepsCalls

namespace Node.KeepsIo

variable {devices : Devices δ} {id : ProcessorId} {R : Node δ → Node δ → Prop} (h : KeepsIo devices id R)
include h

theorem calls : KeepsCalls devices id R where
  refl m := h.own m m ⟨rfl, Nat.le_refl _, rfl, rfl⟩
  trans := h.trans
  note _ _ _ := h.own _ _ ⟨rfl, Nat.le_refl _, rfl, rfl⟩
  core := h.core
  read := h.read
  write := h.write

theorem offerCall {bus : Bus (Hardware δ)} (get : ∀ w a m, R m (bus.get w a m).2)
    (set : ∀ w a v m, R m (bus.set w a v m)) (number : BitVec 8) (m : Node δ) :
    R m ((Console.offerCall bus number).final m) := by
  have offered : Console.offerCall bus number m =
      if m.system.config.emulateCalls then Firmware.call bus number m else .ok false m := by
    unfold Console.offerCall
    simp only [bind, EStateM.bind, Exec.get_eq]
    split_ifs <;> rfl
  unfold Exec.final
  rw [offered]
  split_ifs
  · exact Firmware.call_keeps get set (fun _ _ answers => h.own _ _ answers.toAlone) h.trans number m
  · exact h.calls.refl m

end Node.KeepsIo

namespace Node.Keeps

variable {devices : Devices δ} {id : ProcessorId} {R : Node δ → Node δ → Prop} (h : Keeps devices id R)
include h

theorem writePlace (w : Width) (a : Address) (v : Word) (p : Place) (m : Node δ) :
    R m (Node.writePlace devices id w a v p m) := by
  cases p with
  | memory r offset => exact h.memory r offset w v m
  | firmware | io | video | nothing => exact h.calls.writePlace w a v (by simp) m

/-- What accesses keep, a processor on its bus keeps. -/
theorem carries : (Board.bus devices id).Carries R where
  own := h.own
  trans := h.trans
  calls := by
    cases id with
    | arm7 =>
      exact {
        get := fun w a m => h.calls.readPlace w _ _ m
        set := fun w a v m => h.writePlace w _ v _ m
        waitTime := fun _ _ _ m => h.calls.refl m
        softwareCall := h.offerCall (fun w a m => h.calls.readPlace w _ _ m) fun w a v m => h.writePlace w _ v _ m
        controlRead := fun _ m => h.calls.refl m
        controlWrite := fun _ _ m => h.calls.refl m }
    | arm9 =>
      exact {
        get := fun w a m => h.calls.readPlace w _ _ m
        set := fun w a v m => h.writePlace w _ v _ m
        waitTime := fun _ _ _ m => h.calls.refl m
        softwareCall := h.offerCall (fun w a m => h.calls.readPlace w _ _ m) fun w a v m => h.writePlace w _ v _ m
        controlRead := fun _ _ => h.own _ _ ⟨rfl, Nat.le_refl _, rfl, rfl⟩
        controlWrite := fun reg v m => h.control rfl reg v m }

end Node.Keeps

/-- The same for a relation that looks only at what is around the processors. -/
def Hardware.Keeps (devices : Devices δ) (R : Hardware δ → Hardware δ → Prop) : Prop :=
  ∀ id, Node.Keeps devices id fun m m' => R m.system m'.system

namespace Hardware.Keeps

variable {devices : Devices δ} {R : Hardware δ → Hardware δ → Prop} (keeps : Keeps devices R)
include keeps

theorem refl (h : Hardware δ) : R h h := (keeps .arm9).calls.refl ⟨default, h, #[]⟩

theorem trans {h₁ h₂ h₃ : Hardware δ} (first : R h₁ h₂) (second : R h₂ h₃) : R h₁ h₃ := by
  let around (h : Hardware δ) : Node δ := ⟨default, h, #[]⟩
  have both := @(keeps .arm9).trans (around h₁) (around h₂) (around h₃)
  exact both first second

end Hardware.Keeps

end Console

end Lockstep
