import Lockstep.Registers
import Mathlib.Data.List.Basic
import Mathlib.Tactic.SplitIfs

/-!
The register file by the book. A programmer sees separate places: r0 to r7; r8 to r12 once for FIQ mode and
once for all other modes; r13 and r14 of each bank; a saved status for each bank but that of User mode; the
program counter and the status. Every name of a register stands for one place, which the mode of the moment
chooses, and whatever is done to the file, a place holds what was written to it last.
-/

namespace Lockstep

inductive Location where
  | common (i : Fin 8)
  | middle (fiq : Bool) (i : Fin 5)
  | stack (b : Bank)
  | link (b : Bank)
  | saved (b : Bank)
  | counter
  | status
deriving DecidableEq, Repr

namespace Location

/-- There are five registers from r8 to r12. -/
theorem middle_lt {r : Register} (above : ¬r.val < 8) (below : r.val < 13) : r.val - 8 < 5 := by
  omega

def named (k : Mode) (r : Register) : Location :=
  if common : r.val < 8 then .common ⟨r.val, common⟩
  else if middle : r.val < 13 then .middle (k = .fiq) ⟨r.val - 8, middle_lt common middle⟩
  else if r.val = 13 then .stack k.bank
  else if r.val = 14 then .link k.bank
  else .counter

/-- The place of the saved status of a mode. User and System mode have none. -/
def savedBy? (k : Mode) : Option Location :=
  if k = .user ∨ k = .system then none else some (.saved k.bank)

/-- What a place holds after a reset: the status says Supervisor mode, with interrupts disabled. -/
def atReset : Location → Word
  | .status => 0xD3
  | _ => 0

/-- What was written, and where, since a reset. The latest comes first. -/
abbrev Log := List (Location × Word)

def Log.last (log : Log) (x : Location) : Word := (log.lookup x).getD x.atReset

def Log.mode? (log : Log) : Option Mode := Mode.ofStatus? (log.last .status)

theorem Log.last_cons (log : Log) (x y : Location) (v : Word) :
    Log.last ((y, v) :: log) x = if x = y then v else log.last x := by
  unfold last
  by_cases h : x = y
  · subst h
    rw [List.lookup_cons_self, if_pos rfl]
    rfl
  · have hne : (x == y) = false := beq_eq_false_iff_ne.2 h
    rw [List.lookup_cons, hne, if_neg h]

end Location

open Location (Log)

namespace Registers

/-- Everything that can be done to a register file from outside. -/
inductive Operation where
  | setCpsr (v : Word)
  | setMode (k : Mode)
  | write (r : Register) (v : Word)
  | writeUser (r : Register) (v : Word)
  | setSp (v : Word)
  | setLr (v : Word)
  | setBankedSp (b : Bank) (v : Word)
  | setSpsr (v : Word)
  | setFlag (x : Flag) (b : Bool)
  | setConditionFlags (v : Word)
deriving DecidableEq, Repr

def perform (f : Registers) : Operation → Option Fault × Registers
  | .setCpsr v =>
    match f.setCpsr v with
    | .ok f' => (none, f')
    | .error e => (some e, f)
  | .setMode k => (none, f.setMode k)
  | .write r v => (none, f.write r v)
  | .writeUser r v => (none, f.writeUser r v)
  | .setSp v => (none, f.setSp v)
  | .setLr v => (none, f.setLr v)
  | .setBankedSp b v => (none, f.setBankedSp b v)
  | .setSpsr v => (none, f.setSpsr v)
  | .setFlag x b => (none, f.setFlag x b)
  | .setConditionFlags v => (none, f.setConditionFlags v)

def performAll (f : Registers) : List Operation → List (Option Fault) × Registers
  | [] => ([], f)
  | op :: ops =>
    let done := f.perform op
    let rest := performAll done.2 ops
    (done.1 :: rest.1, rest.2)

namespace Operation

/-- The one place that an operation writes to in a mode, and what it writes there, given the status. Writes to
the program counter of User mode and to a saved status that does not exist are lost, and a status that names no
mode is refused. -/
def entry? (k : Mode) (status : Word) : Operation → Option (Location × Word)
  | .setCpsr v => if (Mode.ofStatus? v).isSome then some (.status, v) else none
  | .setMode k' => some (.status, (status &&& ~~~0x1F) ||| k'.bits.setWidth 32)
  | .write r v => some (.named k r, v)
  | .writeUser r v => if r = Register.pc then none else some (.named .user r, v)
  | .setSp v => some (.stack k.bank, v)
  | .setLr v => some (.link k.bank, v)
  | .setBankedSp b v => some (.stack b, v)
  | .setSpsr v => (Location.savedBy? k).map (·, v)
  | .setFlag x b => some (.status, Bits.put status x.position b)
  | .setConditionFlags v => some (.status, (status &&& 0x0FFFFFFF) ||| (v &&& 0xF0000000))

def fault? : Operation → Option Fault
  | .setCpsr v => if (Mode.ofStatus? v).isSome then none else some (.invalidMode (v &&& 0x1F))
  | _ => none

def record (log : Log) (op : Operation) : Log :=
  match log.mode?.bind fun k => op.entry? k (log.last .status) with
  | some e => e :: log
  | none => log

/-- An operation writes to one place at most. -/
theorem last_record (log : Log) (op : Operation) (x : Location) :
    (record log op).last x =
      match log.mode?.bind fun k => op.entry? k (log.last .status) with
      | some (y, v) => if x = y then v else log.last x
      | none => log.last x := by
  unfold record
  cases log.mode?.bind fun k => op.entry? k (log.last .status) with
  | some e => exact log.last_cons x e.1 e.2
  | none => rfl

end Operation

end Registers

def Slot.location : Slot → Location
  | .low i => .common i
  | .high i => .middle false i
  | .fast i => .middle true i
  | .stack b => .stack b
  | .link b => .link b

theorem Slot.location_inj {s t : Slot} : s.location = t.location ↔ s = t := by
  cases s <;> cases t <;> simp [Slot.location]

theorem Slot.location_ne {s : Slot} : s.location ≠ .counter ∧ s.location ≠ .status ∧
    ∀ b, s.location ≠ .saved b := by
  cases s <;> simp [Slot.location]

theorem Location.named_eq (k : Mode) (r : Register) :
    Location.named k r = match k.slot? r with
      | some s => s.location
      | none => .counter := by
  revert r
  cases k <;> decide

theorem Location.savedBy?_eq (k : Mode) :
    Location.savedBy? k = if k.hasSaved then some (.saved k.bank) else none := by
  cases k <;> rfl

namespace Registers

/-- A file that holds in every cell what a log says was written to its place last. -/
structure Agrees (f : Registers) (log : Log) : Prop where
  cell : ∀ s, f.cell s = log.last s.location
  saved : ∀ b, b ≠ .user → f.saved.get b.index = log.last (.saved b)
  pc : f.pc = log.last .counter
  cpsr : f.cpsr = log.last .status
  mode : log.mode? = some f.mode

namespace Agrees

theorem initial : Registers.initial.Agrees [] where
  cell s := by
    refine (Vector.getElem_replicate _).trans ?_
    cases s <;> rfl
  saved b _ := Vector.getElem_replicate _
  pc := rfl
  cpsr := rfl
  mode := by decide

variable {f : Registers} {log : Log}

/-- A write to a cell. -/
theorem setCell (h : f.Agrees log) (s : Slot) (v : Word) : (f.setCell s v).Agrees ((s.location, v) :: log) := by
  obtain ⟨counter, status, saved⟩ := s.location_ne
  refine ⟨fun t => ?_, fun b hb => ?_, ?_, ?_, ?_⟩
  · simp only [cell_setCell, Log.last_cons, Slot.location_inj, h.cell]
  · rw [Log.last_cons, if_neg (saved b).symm]
    exact h.saved b hb
  · rw [Log.last_cons, if_neg counter.symm]
    exact h.pc
  · rw [Log.last_cons, if_neg status.symm]
    exact h.cpsr
  · rw [Log.mode?, Log.last_cons, if_neg status.symm]
    exact h.mode

/-- A write to the status that names the mode of the file. -/
theorem setStatus (h : f.Agrees log) {v : Word} {k : Mode} (hk : Mode.ofStatus? v = some k) :
    Agrees { f with cpsr := v, mode := k } ((.status, v) :: log) := by
  refine ⟨fun t => ?_, fun b hb => ?_, ?_, ?_, ?_⟩
  · rw [Log.last_cons, if_neg t.location_ne.2.1]
    exact h.cell t
  · rw [Log.last_cons, if_neg (by simp)]
    exact h.saved b hb
  · rw [Log.last_cons, if_neg (by simp)]
    exact h.pc
  · rw [Log.last_cons, if_pos rfl]
  · rw [Log.mode?, Log.last_cons, if_pos rfl, hk]

/-- A write that spares the bits of the mode. -/
theorem setStatusAbove (h : f.Agrees log) {v : Word} (kept : ∀ i < 5, v.getLsbD i = f.cpsr.getLsbD i) :
    Agrees { f with cpsr := v } ((.status, v) :: log) :=
  h.setStatus ((Mode.ofStatus?_congr kept).trans (h.cpsr ▸ h.mode))

theorem setPc (h : f.Agrees log) (v : Word) : Agrees { f with pc := v } ((.counter, v) :: log) := by
  refine ⟨fun t => ?_, fun b hb => ?_, ?_, ?_, ?_⟩
  · rw [Log.last_cons, if_neg t.location_ne.1]
    exact h.cell t
  · rw [Log.last_cons, if_neg (by simp)]
    exact h.saved b hb
  · rw [Log.last_cons, if_pos rfl]
  · rw [Log.last_cons, if_neg (by simp)]
    exact h.cpsr
  · rw [Log.mode?, Log.last_cons, if_neg (by simp)]
    exact h.mode

theorem setSaved (h : f.Agrees log) (b : Bank) (v : Word) :
    Agrees { f with saved := f.saved.set b.index v } ((.saved b, v) :: log) := by
  refine ⟨fun t => ?_, fun b' hb => ?_, ?_, ?_, ?_⟩
  · rw [Log.last_cons, if_neg (t.location_ne.2.2 b)]
    exact h.cell t
  · rw [Log.last_cons]
    simp only [Location.saved.injEq]
    split_ifs with same
    · subst same
      exact Vector.getElem_set_self _
    · refine (Vector.getElem_set_ne _ _ fun e => same (Bank.index_inj.1 (Fin.ext e)).symm).trans ?_
      exact h.saved b' hb
  · rw [Log.last_cons, if_neg (by simp)]
    exact h.pc
  · rw [Log.last_cons, if_neg (by simp)]
    exact h.cpsr
  · rw [Log.mode?, Log.last_cons, if_neg (by simp)]
    exact h.mode

/-- An operation does to the file what its entry does to the log. -/
theorem perform (h : f.Agrees log) (op : Operation) :
    (f.perform op).1 = op.fault? ∧ (f.perform op).2.Agrees (op.record log) := by
  have logged : op.record log =
      match op.entry? f.mode f.cpsr with
      | some e => e :: log
      | none => log := by
    rw [Operation.record, h.mode, h.cpsr]
    rfl
  rw [logged]
  cases op with
  | setCpsr v =>
    unfold Registers.perform Registers.setCpsr
    cases hk : Mode.ofStatus? v with
    | some k => simpa [Operation.fault?, Operation.entry?, hk] using h.setStatus hk
    | none => simpa [Operation.fault?, Operation.entry?, hk] using h
  | setMode k => exact ⟨rfl, h.setStatus (f.setMode_status k)⟩
  | write r v =>
    refine ⟨rfl, ?_⟩
    simp only [Operation.entry?, Location.named_eq]
    show (f.write r v).Agrees _
    unfold Registers.write
    cases f.mode.slot? r with
    | some s => exact h.setCell s v
    | none => exact h.setPc v
  | writeUser r v =>
    refine ⟨rfl, ?_⟩
    simp only [Operation.entry?, Location.named_eq]
    show (f.writeUser r v).Agrees _
    unfold Registers.writeUser
    cases hs : Mode.user.slot? r with
    | some s =>
      have hr : r ≠ Register.pc := fun e => by
        rw [(Mode.slot?_eq_none .user r).2 e] at hs
        cases hs
      simpa [hr] using h.setCell s v
    | none => simpa [(Mode.slot?_eq_none .user r).1 hs] using h
  | setSp v => exact ⟨rfl, h.setCell (.stack f.bank) v⟩
  | setLr v => exact ⟨rfl, h.setCell (.link f.bank) v⟩
  | setBankedSp b v => exact ⟨rfl, h.setCell (.stack b) v⟩
  | setSpsr v =>
    refine ⟨rfl, ?_⟩
    simp only [Operation.entry?, Location.savedBy?_eq]
    show (f.setSpsr v).Agrees _
    unfold Registers.setSpsr
    split_ifs
    · exact h.setSaved f.bank v
    · exact h
  | setFlag x b =>
    refine ⟨rfl, h.setStatusAbove fun i hi => ?_⟩
    have high : 5 ≤ x.position := by cases x <;> decide
    exact (f.getLsbD_setFlag x b i).trans (if_neg (by omega))
  | setConditionFlags v =>
    exact ⟨rfl, h.setStatusAbove fun i hi => f.getLsbD_setConditionFlags v (by omega)⟩

theorem performAll (h : f.Agrees log) (ops : List Operation) :
    (f.performAll ops).1 = ops.map Operation.fault? ∧
      (f.performAll ops).2.Agrees (ops.foldl Operation.record log) := by
  induction ops generalizing f log with
  | nil => exact ⟨rfl, h⟩
  | cons op ops ih =>
    obtain ⟨refused, agrees⟩ := h.perform op
    obtain ⟨faults, agrees'⟩ := ih agrees
    exact ⟨congrArg₂ List.cons refused faults, agrees'⟩

theorem readAs (h : f.Agrees log) (k : Mode) (r : Register) : f.readAs k r = log.last (.named k r) := by
  rw [Registers.readAs, Location.named_eq]
  cases k.slot? r with
  | some s => exact h.cell s
  | none => exact h.pc

theorem spsr (h : f.Agrees log) :
    f.spsr = log.last ((Location.savedBy? f.mode).getD .status) := by
  rw [Registers.spsr, Location.savedBy?_eq]
  split_ifs with hs
  · exact h.saved f.bank (bne_iff_ne.1 hs)
  · exact h.cpsr

end Agrees

/-- After any operations on a file that was reset, every reading of the file is what was written last to the
place that it names, and every operation wrote to one place at most. A status that names no mode was refused
and changed nothing. -/
theorem reads_last_written (ops : List Operation) :
    let log := ops.foldl Operation.record []
    let f := (Registers.initial.performAll ops).2
    (Registers.initial.performAll ops).1 = ops.map Operation.fault? ∧
    (∀ (op : Operation) x, (op.record log).last x =
      match op.entry? f.mode f.cpsr with
      | some (y, v) => if x = y then v else log.last x
      | none => log.last x) ∧
    (∀ r, f.read r = log.last (.named f.mode r)) ∧
    (∀ r, f.readUser r = log.last (.named .user r)) ∧
    f.sp = log.last (.stack f.bank) ∧ f.lr = log.last (.link f.bank) ∧
    (∀ b, f.bankedSp b = log.last (.stack b)) ∧ (∀ b, f.bankedLr b = log.last (.link b)) ∧
    f.spsr = log.last ((Location.savedBy? f.mode).getD .status) ∧
    f.pc = log.last .counter ∧ f.cpsr = log.last .status ∧
    (∀ x : Flag, f.flag x = (log.last .status).getLsbD x.position) ∧
    Mode.ofStatus? (log.last .status) = some f.mode ∧ f.bank = f.mode.bank ∧
    ∀ v, f.perform (.setCpsr v) =
      match Mode.ofStatus? v with
      | some k => (none, { f with cpsr := v, mode := k })
      | none => (some (.invalidMode (v &&& 0x1F)), f) := by
  intro log f
  obtain ⟨faults, agrees⟩ := Agrees.initial.performAll ops
  change f.Agrees log at agrees
  refine ⟨faults, fun op x => ?_, agrees.readAs f.mode, agrees.readAs .user, agrees.cell _, agrees.cell _,
    fun b => agrees.cell (.stack b), fun b => agrees.cell (.link b), agrees.spsr, agrees.pc, agrees.cpsr,
    fun x => ?_, agrees.mode, rfl, fun v => ?_⟩
  · rw [Operation.last_record, agrees.mode, agrees.cpsr]
    rfl
  · rw [flag, agrees.cpsr]
  · rw [perform, setCpsr]
    cases Mode.ofStatus? v <;> rfl

/-- FIQ mode writes r8 and r13 and sees them there; System mode sees its own. -/
example :
    let f := (Registers.initial.performAll [.setMode .system, .write 8 1, .setSp 2, .setMode .fiq, .write 8 3,
      .setCpsr 0x15, .writeUser 13 4, .setMode .user]).2
    (f.read 8, f.sp, f.bankedSp .fiq, f.mode) = (1, 4, 0, .user) := by
  decide

end Registers

end Lockstep
