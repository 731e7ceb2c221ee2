import Lockstep.Proofs.Move

/-!
A machine seen through a view of its system and of its journal. If the calls of one bus look through the view like the
calls of another, then all that a processor does on the one looks like what it does on the other.
-/

namespace Lockstep

variable {σ τ α β : Type}

/-- A map of the system, and a map of the journal that new entries do not disturb. -/
structure View (σ τ : Type) where
  system : σ → τ
  journal : Journal → Journal
  note : ∀ j l t, journal (j.note l t) = (journal j).note l t

def View.of (f : σ → τ) : View σ τ := ⟨f, id, fun _ _ _ => rfl⟩

namespace Machine

def seen (φ : σ → τ) (m : Machine σ) : Machine τ := ⟨m.cpu, φ m.system, m.journal⟩

def viewed (φ : View σ τ) (m : Machine σ) : Machine τ := ⟨m.cpu, φ.system m.system, φ.journal m.journal⟩

variable (φ : View σ τ) (m : Machine σ)

theorem viewed_of (f : σ → τ) : m.viewed (.of f) = m.seen f := rfl

@[simp] theorem viewed_cpu : (m.viewed φ).cpu = m.cpu := rfl
@[simp] theorem viewed_system : (m.viewed φ).system = φ.system m.system := rfl
@[simp] theorem viewed_reg (r : Register) : (m.viewed φ).reg r = m.reg r := rfl
@[simp] theorem viewed_regLate (r : Register) : (m.viewed φ).regLate r = m.regLate r := rfl
@[simp] theorem viewed_mapCpu (f : Processor → Processor) : (m.viewed φ).mapCpu f = (m.mapCpu f).viewed φ := rfl
@[simp] theorem viewed_mapRegs (f : Registers → Registers) : (m.viewed φ).mapRegs f = (m.mapRegs f).viewed φ := rfl
@[simp] theorem viewed_idle (n : Nat) : (m.viewed φ).idle n = (m.idle n).viewed φ := rfl
@[simp] theorem viewed_setFlag (x : Flag) (b : Bool) : (m.viewed φ).setFlag x b = (m.setFlag x b).viewed φ := rfl
@[simp] theorem viewed_setFetchKind (k : Access) :
    (m.viewed φ).setFetchKind k = (m.setFetchKind k).viewed φ := rfl

@[simp] theorem viewed_note (l : Level) (t : String) : (m.viewed φ).note l t = (m.note l t).viewed φ :=
  congrArg (Machine.mk m.cpu (φ.system m.system)) (φ.note m.journal l t).symm

@[simp] theorem viewed_idleMultiplier (v : Word) (signed : Bool) :
    (m.viewed φ).idleMultiplier v signed = (m.idleMultiplier v signed).viewed φ := rfl

theorem viewed_ite (c : Prop) [Decidable c] (m₁ m₂ : Machine σ) :
    (if c then m₁.viewed φ else m₂.viewed φ) = (if c then m₁ else m₂).viewed φ :=
  (apply_ite (Machine.viewed φ) c m₁ m₂).symm

end Machine

def seenWith (φ : View σ τ) (p : α × Machine σ) : α × Machine τ := (p.1, p.2.viewed φ)

def Exec.seen (φ : View σ τ) : EStateM.Result Fault (Machine σ) α → EStateM.Result Fault (Machine τ) α
  | .ok a m => .ok a (m.viewed φ)
  | .error e m => .error e (m.viewed φ)

/-- The calls of a bus look through the view like the calls of another. -/
structure Bus.Shows (φ : View σ τ) (bus : Bus σ) (bus' : Bus τ) : Prop where
  architecture : bus'.architecture = bus.architecture
  get : ∀ w a m, bus'.get w a (m.viewed φ) = seenWith φ (bus.get w a m)
  set : ∀ w a v m, bus'.set w a v (m.viewed φ) = (bus.set w a v m).viewed φ
  waitTime : ∀ w a k m, bus'.waitTime w a k (m.viewed φ) = seenWith φ (bus.waitTime w a k m)
  softwareCall : ∀ n m, bus'.softwareCall n (m.viewed φ) = Exec.seen φ (bus.softwareCall n m)
  controlRead : ∀ r m, bus'.controlRead r (m.viewed φ) = seenWith φ (bus.controlRead r m)
  controlWrite : ∀ r v m, bus'.controlWrite r v (m.viewed φ) = seenWith φ (bus.controlWrite r v m)
  tracing : ∀ s, bus'.tracing (φ.system s) = bus.tracing s
  dozeLength : ∀ s, bus'.dozeLength (φ.system s) = bus.dozeLength s

namespace Bus.Shows

variable {φ : View σ τ} {bus : Bus σ} {bus' : Bus τ} (h : bus.Shows φ bus')
include h

theorem isV5 : bus'.isV5 = bus.isV5 := congrArg Architecture.isV5 h.architecture

theorem load (w : Width) (a : Address) (m : Machine σ) :
    bus'.load w a (m.viewed φ) = seenWith φ (bus.load w a m) := by
  simp only [Bus.load, h.get, seenWith]

theorem store (w : Width) (a : Address) (v : Word) (m : Machine σ) :
    bus'.store w a v (m.viewed φ) = (bus.store w a v m).viewed φ := h.set w a _ m

theorem wait (w : Width) (a : Address) (k : Access) (m : Machine σ) :
    bus'.wait w a k (m.viewed φ) = (bus.wait w a k m).viewed φ := by
  simp only [Bus.wait, h.waitTime, seenWith, Machine.viewed_idle]

theorem read (w : Width) (a : Address) (k : Access) (m : Machine σ) :
    bus'.read w a k (m.viewed φ) = seenWith φ (bus.read w a k m) := by
  simp only [Bus.read, h.wait, h.load, h.isV5, seenWith]

theorem write (w : Width) (a : Address) (v : Word) (k : Access) (m : Machine σ) :
    bus'.write w a v k (m.viewed φ) = (bus.write w a v k m).viewed φ := by
  simp only [Bus.write, h.wait, h.store]

theorem readSignedHalf (a : Address) (k : Access) (m : Machine σ) :
    bus'.readSignedHalf a k (m.viewed φ) = seenWith φ (bus.readSignedHalf a k m) := by
  simp only [Bus.readSignedHalf, h.wait, h.load, h.isV5, seenWith]

theorem readRotated (a : Address) (k : Access) (m : Machine σ) :
    bus'.readRotated a k (m.viewed φ) = seenWith φ (bus.readRotated a k m) := by
  simp only [Bus.readRotated, h.read, seenWith]

theorem jump (a : Address) (m : Machine σ) : bus'.jump a (m.viewed φ) = (bus.jump a m).viewed φ := by
  simp only [Bus.jump, Bus.fetchWidth, Machine.viewed_cpu, h.waitTime, seenWith, Machine.viewed_mapCpu]
  rfl

theorem jumpRelative (distance : Int) (m : Machine σ) :
    bus'.jumpRelative distance (m.viewed φ) = (bus.jumpRelative distance m).viewed φ := h.jump _ m

theorem jumpExchange (target : Word) (m : Machine σ) :
    bus'.jumpExchange target (m.viewed φ) = (bus.jumpExchange target m).viewed φ := h.jump _ (m.setFlag .thumb _)

theorem setReg (r : Register) (v : Word) (m : Machine σ) :
    bus'.setReg r v (m.viewed φ) = (bus.setReg r v m).viewed φ := by
  simp only [Bus.setReg, h.jump, Machine.viewed_mapRegs, Machine.viewed_ite]

theorem setRegLoaded (r : Register) (v : Word) (m : Machine σ) :
    bus'.setRegLoaded r v (m.viewed φ) = (bus.setRegLoaded r v m).viewed φ := by
  simp only [Bus.setRegLoaded, h.isV5, h.jump, h.jumpExchange, Machine.viewed_mapRegs, Machine.viewed_ite]

theorem fetch (m : Machine σ) : bus'.fetch (m.viewed φ) = seenWith φ (bus.fetch m) := by
  simp only [Bus.fetch, Bus.fetchWidth, Machine.viewed_cpu, Machine.viewed_mapRegs, h.wait,
    Machine.viewed_setFetchKind, h.load]
  rfl

theorem enter (kind : Exception) (a : Address) (m : Machine σ) :
    bus'.enter kind a (m.viewed φ) = (bus.enter kind a m).viewed φ := by
  simp only [Bus.enter, Machine.viewed_cpu, Machine.viewed_mapRegs, h.jump]

theorem checkInterrupt (m : Machine σ) :
    bus'.checkInterrupt (m.viewed φ) = (bus.checkInterrupt m).viewed φ := by
  simp only [Bus.checkInterrupt, Machine.viewed_cpu, h.enter, Machine.viewed_ite]

theorem transferNone (base : Register) (store up before : Bool) (m : Machine σ) :
    bus'.transferNone base store up before (m.viewed φ) = (bus.transferNone base store up before m).viewed φ := by
  simp only [Bus.transferNone, Machine.viewed_cpu, Machine.viewed_reg, h.setReg, h.isV5, h.read, h.write, h.jump,
    seenWith, Machine.viewed_ite]

end Bus.Shows

def Exec.Shows (φ : View σ τ) (x : Exec σ α) (y : Exec τ α) : Prop := ∀ m, y (m.viewed φ) = seen φ (x m)

namespace Exec

variable {φ : View σ τ}

theorem shows_pure (a : α) : Shows φ (pure a : Exec σ α) (pure a) := fun _ => rfl

theorem shows_modify {f : Machine σ → Machine σ} {g : Machine τ → Machine τ}
    (h : ∀ m, g (m.viewed φ) = (f m).viewed φ) : Shows φ (modify f : Exec σ Unit) (modify g) :=
  fun m => congrArg (EStateM.Result.ok ()) (h m)

theorem shows_bind {x : Exec σ α} {y : Exec τ α} {f : α → Exec σ β} {g : α → Exec τ β} (hx : Shows φ x y)
    (hf : ∀ a, Shows φ (f a) (g a)) : Shows φ (x >>= f) (y >>= g) := by
  intro m
  show EStateM.bind y g (m.viewed φ) = seen φ (EStateM.bind x f m)
  unfold EStateM.bind
  rw [hx m]
  cases x m with
  | ok a m₁ => exact hf a m₁
  | error e m₁ => rfl

theorem shows_modifyGet {f : Machine σ → α × Machine σ} {g : Machine τ → α × Machine τ}
    (h : ∀ m, g (m.viewed φ) = seenWith φ (f m)) : Shows φ (modifyGet f : Exec σ α) (modifyGet g) := by
  intro m
  show EStateM.Result.ok (g (m.viewed φ)).1 (g (m.viewed φ)).2 = _
  rw [h m]
  rfl

/-- A computation that first looks at the machine. -/
theorem shows_get {f : Machine σ → Exec σ β} {g : Machine τ → Exec τ β}
    (h : ∀ m, g (m.viewed φ) (m.viewed φ) = seen φ (f m m)) : Shows φ (get >>= f) (get >>= g) := h

theorem shows_unsupported (inst : Word) :
    Shows φ (Exec.unsupported inst : Exec σ Unit) (Exec.unsupported inst) := fun _ => rfl

theorem shows_setCpsr (v : Word) : Shows φ (Exec.setCpsr v : Exec σ Unit) (Exec.setCpsr v) := by
  intro m
  rw [setCpsr_eq, setCpsr_eq, Machine.viewed_cpu]
  cases m.cpu.regs.setCpsr v <;> rfl

theorem shows_unless {c : Prop} [Decidable c] {x y : Exec σ α} {x' y' : Exec τ α} (hx : Shows φ x x')
    (hy : Shows φ y y') : Shows φ (if c then x else y) (if c then x' else y') := by
  split_ifs
  · exact hx
  · exact hy

/-- A part that a condition can skip, and what comes after it. -/
theorem shows_when {c : Prop} [Decidable c] {x : Exec σ Unit} {y : Exec τ Unit} {f : Unit → Exec σ β}
    {g : Unit → Exec τ β} (hx : Shows φ x y) (hf : ∀ u, Shows φ (f u) (g u)) :
    Shows φ (if c then x >>= f else f ()) (if c then y >>= g else g ()) :=
  shows_unless (shows_bind hx hf) (hf ())

theorem Shows.final {x : Exec σ α} {y : Exec τ α} (h : Shows φ x y) (m : Machine σ) :
    y.final (m.viewed φ) = (x.final m).viewed φ := by
  unfold Exec.final
  rw [h m]
  cases x m <;> rfl

end Exec

theorem Bus.Shows.softwareInterrupt {φ : View σ τ} {bus : Bus σ} {bus' : Bus τ} (h : bus.Shows φ bus')
    (n : BitVec 8) : Exec.Shows φ (bus.softwareInterrupt n) (bus'.softwareInterrupt n) := by
  refine Exec.shows_bind (h.softwareCall n) fun handled => Exec.shows_unless ?_ ?_
  · exact Exec.shows_modify fun m => Machine.viewed_note φ m _ _
  · exact Exec.shows_modify fun m => h.enter .softwareInterrupt _ m

end Lockstep
