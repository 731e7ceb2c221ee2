import Lockstep.Flags
import Lockstep.Pipeline
import Mathlib.Logic.Relation
import Mathlib.Tactic.SplitIfs

/-!
Elementary moves. An instruction spends time, calls the bus, writes a register of its own mode or of User mode,
sets an arithmetic flag, refills the pipeline, and once at most changes a status register under its guard. What
all of these keep, every instruction keeps. To enter a handler takes two such changes, of a saved status and of
the status itself, and one more move that writes the link register; so no instruction makes up an entry.
-/

namespace Lockstep

/-- The cells that programs in a mode can name: their own, and with the user mark those of User mode. -/
def Mode.Owns (k : Mode) (s : Slot) : Prop := ∃ r, k.slot? r = some s ∨ Mode.user.slot? r = some s

def Flag.isArithmetic : Flag → Bool
  | .negative | .zero | .carry | .overflow | .saturation => true
  | .irqDisable | .fiqDisable | .thumb => false

variable {σ α β : Type}

/-- The machine in which a computation ends, whether or not it fails. -/
def Exec.final (x : Exec σ α) (m : Machine σ) : Machine σ :=
  match x m with
  | .ok _ m' => m'
  | .error _ m' => m'

def Exec.succeeds (x : Exec σ α) (m : Machine σ) : Bool :=
  match x m with
  | .ok _ _ => true
  | .error _ _ => false

theorem Exec.eq_ok_of_succeeds {x : Exec σ Unit} {m : Machine σ} (h : x.succeeds m = true) :
    x m = .ok () (x.final m) := by
  unfold succeeds at h
  unfold final
  cases hx : x m with
  | ok _ _ => rfl
  | error _ _ =>
    rw [hx] at h
    cases h

inductive Move (bus : Bus σ) : Machine σ → Machine σ → Prop where
  | note (m : Machine σ) (l : Level) (t : String) : Move bus m (m.note l t)
  | idle (m : Machine σ) (n : Nat) : Move bus m (m.idle n)
  | wake (m : Machine σ) : Move bus m (m.mapCpu ({ · with halted := false }))
  | nonsequential (m : Machine σ) : Move bus m (m.setFetchKind .nonsequential)
  | sequel (m : Machine σ) : Move bus m (m.setFetchKind .sequel)
  | get (m : Machine σ) (w : Width) (a : Address) : Move bus m (bus.get w a m).2
  | set (m : Machine σ) (w : Width) (a : Address) (v : Word) : Move bus m (bus.set w a v m)
  | wait (m : Machine σ) (w : Width) (a : Address) (k : Access) : Move bus m (bus.waitTime w a k m).2
  | controlRead (m : Machine σ) (r : ControlRegister) : Move bus m (bus.controlRead r m).2
  | controlWrite (m : Machine σ) (r : ControlRegister) (v : Word) :
      Move bus m (bus.controlWrite r v m).2
  | softwareCall (m : Machine σ) (n : BitVec 8) : Move bus m ((bus.softwareCall n).final m)
  | write {m : Machine σ} {s : Slot} (v : Word) (h : m.cpu.regs.mode.Owns s) :
      Move bus m (m.mapRegs (·.setCell s v))
  | flag (m : Machine σ) {x : Flag} (b : Bool) (h : x.isArithmetic = true) :
      Move bus m (m.setFlag x b)
  | conditions (m : Machine σ) (v : Word) : Move bus m (m.mapRegs (·.setConditionFlags v))
  | advance (m : Machine σ) :
      Move bus m (m.mapRegs fun f => { f with pc := f.pc + f.instructionSize })
  | jump (m : Machine σ) (a : Address) : Move bus m (bus.jump a m)
  /-- The instruction set changes together with a refill. -/
  | exchange (m : Machine σ) (thumb : Bool) (a : Address) :
      Move bus m (bus.jump a (m.setFlag .thumb thumb))

/-- The changes of a whole status register. -/
inductive StatusChange (bus : Bus σ) : Machine σ → Machine σ → Prop where
  /-- The return from an exception, in the modes that have a saved status. -/
  | resume {m : Machine σ} {f : Registers} (a : Address) (saved : m.cpu.regs.mode.hasSaved = true)
      (h : m.cpu.regs.setCpsr m.cpu.regs.spsr = .ok f) :
      StatusChange bus m (bus.jump a (m.mapRegs fun _ => f))
  /-- A write to the status register, which keeps the instruction set and in User mode the control
  byte. -/
  | status {m : Machine σ} {v : Word} {f : Registers}
      (thumb : v.getLsbD 5 = m.cpu.regs.isThumb)
      (control : m.cpu.regs.mode = .user → ∀ i < 8, v.getLsbD i = m.cpu.regs.cpsr.getLsbD i)
      (h : m.cpu.regs.setCpsr v = .ok f) : StatusChange bus m (m.mapRegs fun _ => f)
  | saved (m : Machine σ) (v : Word) : StatusChange bus m (m.mapRegs (·.setSpsr v))

abbrev Moves (bus : Bus σ) : Machine σ → Machine σ → Prop := Relation.ReflTransGen (Move bus)

/-- A run of moves in which a status register changes once at most. -/
def Acts (bus : Bus σ) (m m' : Machine σ) : Prop :=
  ∃ m₁ m₂, Moves bus m m₁ ∧ Relation.ReflGen (StatusChange bus) m₁ m₂ ∧ Moves bus m₂ m'

section
variable {bus : Bus σ} {m m' m'' : Machine σ}

theorem Move.moves (h : Move bus m m') : Moves bus m m' := .single h

theorem Moves.acts (h : Moves bus m m') : Acts bus m m' := ⟨m', m', h, .refl, .refl⟩

theorem StatusChange.acts (h : StatusChange bus m m') : Acts bus m m' := ⟨m, m', .refl, .single h, .refl⟩

theorem Moves.trans_acts (h : Moves bus m m') : Acts bus m' m'' → Acts bus m m''
  | ⟨m₁, m₂, before, change, after⟩ => ⟨m₁, m₂, h.trans before, change, after⟩

theorem Acts.trans_moves (h : Moves bus m' m'') : Acts bus m m' → Acts bus m m''
  | ⟨m₁, m₂, before, change, after⟩ => ⟨m₁, m₂, before, change, after.trans h⟩

/-- What moves and changes of a status register keep. -/
theorem Acts.keep {P : Machine σ → Prop} (move : ∀ {m m'}, Move bus m m' → P m → P m')
    (change : ∀ {m m'}, StatusChange bus m m' → P m → P m') (h : Acts bus m m') (start : P m) : P m' := by
  have run : ∀ {m m'}, Moves bus m m' → P m → P m' := by
    intro m m' moves start
    induction moves with
    | refl => exact start
    | tail _ last ih => exact move last ih
  obtain ⟨m₁, m₂, before, changed, after⟩ := h
  have first := run before start
  cases changed with
  | refl => exact run after first
  | single changed => exact run after (change changed first)

end

section
variable (bus : Bus σ) (m : Machine σ)

theorem write_moves {r : Register} (v : Word) (h : r ≠ Register.pc) :
    Moves bus m (m.mapRegs (·.write r v)) := by
  obtain ⟨s, hs⟩ := Option.ne_none_iff_exists'.1 (h ∘ (Mode.slot?_eq_none m.cpu.regs.mode r).1)
  have : m.mapRegs (·.write r v) = m.mapRegs (·.setCell s v) := by
    simp only [Machine.mapRegs, Machine.mapCpu, Processor.mapRegs, Registers.write, hs]
  rw [this]
  exact (Move.write v ⟨r, .inl hs⟩).moves

theorem writeUser_moves (r : Register) (v : Word) : Moves bus m (m.mapRegs (·.writeUser r v)) := by
  cases hs : Mode.user.slot? r with
  | none =>
    have : m.mapRegs (·.writeUser r v) = m := by
      simp only [Machine.mapRegs, Machine.mapCpu, Processor.mapRegs, Registers.writeUser, hs]
    rw [this]
  | some s =>
    have : m.mapRegs (·.writeUser r v) = m.mapRegs (·.setCell s v) := by
      simp only [Machine.mapRegs, Machine.mapCpu, Processor.mapRegs, Registers.writeUser, hs]
    rw [this]
    exact (Move.write v ⟨r, .inr hs⟩).moves

theorem setLr_moves (v : Word) : Moves bus m (m.mapRegs (·.setLr v)) :=
  write_moves bus m v (r := Register.lr) (by decide)

theorem setSp_moves (v : Word) : Moves bus m (m.mapRegs (·.setSp v)) :=
  write_moves bus m v (r := Register.sp) (by decide)

theorem setNZ_moves (set : Bool) (v : Word) : Moves bus m (m.mapRegs (·.setNZ set v)) := by
  cases set
  · exact .refl
  · exact (Move.flag m v.msb (x := .negative) rfl).moves.trans (Move.flag _ (v == 0) (x := .zero) rfl).moves

theorem setNZC_moves (set : Bool) (v : Word) (c : Bool) : Moves bus m (m.mapRegs (·.setNZC set v c)) := by
  cases set
  · exact .refl
  · exact (setNZ_moves bus m true v).tail (.flag _ c (x := .carry) rfl)

theorem setNZCV_moves (set : Bool) (s : Lockstep.Sum) : Moves bus m (m.mapRegs (·.setNZCV set s)) := by
  cases set
  · exact .refl
  · exact (setNZC_moves bus m true s.value s.carry).tail (.flag _ s.overflow (x := .overflow) rfl)

theorem idleNonsequential_moves : Moves bus m m.idleNonsequential :=
  (Move.idle m 1).moves.tail (.nonsequential _)

theorem idleMultiplier_moves (v : Word) (signed : Bool) : Moves bus m (m.idleMultiplier v signed) :=
  (Move.idle m _).moves.tail (.nonsequential _)

theorem wait_moves (w : Width) (a : Address) (k : Access) : Moves bus m (bus.wait w a k m) :=
  (Move.wait m w a k).moves.tail (.idle _ _)

theorem read_moves (w : Width) (a : Address) (k : Access) : Moves bus m (bus.read w a k m).2 :=
  (wait_moves bus m w a k).tail (.get _ w a)

theorem write_memory_moves (w : Width) (a : Address) (v : Word) (k : Access) :
    Moves bus m (bus.write w a v k m) :=
  (wait_moves bus m w a k.asWrite).tail (.set _ w a _)

theorem readSignedHalf_moves (a : Address) (k : Access) : Moves bus m (bus.readSignedHalf a k m).2 :=
  (wait_moves bus m .half a k).tail (.get _ .half a)

theorem readRotated_moves (a : Address) (k : Access) : Moves bus m (bus.readRotated a k m).2 :=
  read_moves bus m .word _ k

theorem setReg_moves (r : Register) (v : Word) : Moves bus m (bus.setReg r v m) := by
  unfold Bus.setReg
  split_ifs with h
  · exact (Move.jump m v).moves
  · exact write_moves bus m v h

theorem setRegLoaded_moves (r : Register) (v : Word) : Moves bus m (bus.setRegLoaded r v m) := by
  unfold Bus.setRegLoaded
  split_ifs with h
  · exact (Move.exchange m _ v).moves
  · exact (Move.jump m v).moves
  · exact write_moves bus m v h

theorem fetch_moves : Moves bus m (bus.fetch m).2 := by
  refine .tail (.tail (.trans (Move.advance m).moves ?_) (.sequel _)) (.get _ _ _)
  exact wait_moves bus _ _ _ _

theorem transferNone_moves (base : Register) (store up before : Bool) :
    Moves bus m (bus.transferNone base store up before m) := by
  have hb := setReg_moves bus m base (Word.offset (m.reg base) 0x40 up)
  unfold Bus.transferNone
  simp only
  split_ifs with h5 hs
  · exact hb
  · exact hb.trans (write_memory_moves bus _ _ _ _ _)
  · exact (hb.trans (read_moves bus _ _ _ _)).tail (.jump _ _)

end

def Exec.Moving (bus : Bus σ) (x : Exec σ α) : Prop := ∀ m, Moves bus m (x.final m)

def Exec.Acting (bus : Bus σ) (x : Exec σ α) : Prop := ∀ m, Acts bus m (x.final m)

namespace Exec

variable {bus : Bus σ}

theorem moving_pure (a : α) : Moving bus (pure a : Exec σ α) := fun _ => .refl

theorem moving_get : Moving bus (get : Exec σ (Machine σ)) := fun _ => .refl

theorem moving_modify {f : Machine σ → Machine σ} (h : ∀ m, Moves bus m (f m)) :
    Moving bus (modify f : Exec σ Unit) := h

theorem moving_modifyGet {f : Machine σ → α × Machine σ} (h : ∀ m, Moves bus m (f m).2) :
    Moving bus (modifyGet f : Exec σ α) := h

theorem final_bind (x : Exec σ α) (f : α → Exec σ β) (m : Machine σ) :
    (x >>= f).final m =
      match x m with
      | .ok a m' => (f a).final m'
      | .error _ m' => m' := by
  show Exec.final (EStateM.bind x f) m = _
  unfold Exec.final EStateM.bind
  cases x m <;> rfl

theorem get_eq (m : Machine σ) : (get : Exec σ (Machine σ)) m = .ok m m := rfl

theorem get_bind (f : Machine σ → Exec σ β) (m : Machine σ) : (get >>= f) m = f m m := rfl

theorem modifyGet_bind (g : Machine σ → α × Machine σ) (f : α → Exec σ β) (m : Machine σ) :
    (modifyGet g >>= f : Exec σ β) m = f (g m).1 (g m).2 := rfl

theorem setCpsr_eq (v : Word) (m : Machine σ) :
    (Exec.setCpsr v : Exec σ Unit) m =
      match m.cpu.regs.setCpsr v with
      | .ok f => .ok () (m.mapRegs fun _ => f)
      | .error e => .error e m := by
  unfold Exec.setCpsr
  show EStateM.bind get _ m = _
  simp only [EStateM.bind, Exec.get_eq]
  cases m.cpu.regs.setCpsr v <;> rfl

theorem final_setCpsr (v : Word) (m : Machine σ) :
    (Exec.setCpsr v : Exec σ Unit).final m =
      match m.cpu.regs.setCpsr v with
      | .ok f => m.mapRegs fun _ => f
      | .error _ => m := by
  unfold Exec.final
  rw [setCpsr_eq]
  cases m.cpu.regs.setCpsr v <;> rfl

/-- What comes of two computations in a row, of which the second is left out if the first fails. -/
theorem final_bind_rel {P Q R : Machine σ → Machine σ → Prop} {x : Exec σ α} {f : α → Exec σ β}
    (stop : ∀ {m m'}, P m m' → R m m') (go : ∀ {m₁ m₂ m₃}, P m₁ m₂ → Q m₂ m₃ → R m₁ m₃)
    (hx : ∀ m, P m (x.final m)) (hf : ∀ a m, Q m ((f a).final m)) (m : Machine σ) : R m ((x >>= f).final m) := by
  have h := hx m
  rw [final_bind]
  unfold final at h
  split at h
  · next a m' _ => exact go h (hf a m')
  · exact stop h

theorem moving_bind {x : Exec σ α} {f : α → Exec σ β} (hx : Moving bus x) (hf : ∀ a, Moving bus (f a)) :
    Moving bus (x >>= f) :=
  final_bind_rel id Relation.ReflTransGen.trans hx hf

theorem Moving.acting {x : Exec σ α} (h : Moving bus x) : Acting bus x := fun m => (h m).acts

theorem moving_bind_acting {x : Exec σ α} {f : α → Exec σ β} (hx : Moving bus x) (hf : ∀ a, Acting bus (f a)) :
    Acting bus (x >>= f) :=
  final_bind_rel Moves.acts Moves.trans_acts hx hf

theorem acting_bind_moving {x : Exec σ α} {f : α → Exec σ β} (hx : Acting bus x) (hf : ∀ a, Moving bus (f a)) :
    Acting bus (x >>= f) :=
  final_bind_rel id (fun before after => before.trans_moves after) hx hf

theorem moving_unsupported (inst : Word) : Moving bus (Exec.unsupported inst : Exec σ Unit) :=
  fun _ => .refl

end Exec

end Lockstep
