import Lockstep.Console.Views
import Mathlib.Data.Fintype.Basic
import Mathlib.Tactic.FinCases
import Mathlib.Tactic.SplitIfs

/-!
The system control coprocessor as a register file. A name that programs use for a register stands for one thing
that the coprocessor keeps, or for none. What is kept is what was written last, as far as it has room for it.
-/

namespace Lockstep.Console

inductive Stored where
  | control
  | cacheable (i : Fin 2)
  | writeBuffer
  | permissions (i : Fin 2)
  | extendedPermissions (i : Fin 2)
  | region (i : Fin 2) (n : Fin 8)
  | lockdown (i : Fin 2)
  | dataPlacement
  | instructionPlacement
  | traceId
deriving DecidableEq, Repr

namespace Stored

/-- The names of a register. Only that of the trace process has two. -/
def names : Stored → List ControlRegister
  | .control => [⟨0, 1, 0, 0⟩]
  | .cacheable i => [⟨0, 2, 0, i⟩]
  | .writeBuffer => [⟨0, 3, 0, 0⟩]
  | .permissions i => [⟨0, 5, 0, i⟩]
  | .extendedPermissions i => [⟨0, 5, 0, 2 + i⟩]
  | .region i n => [⟨0, 6, n, i⟩]
  | .lockdown i => [⟨0, 9, 0, i⟩]
  | .dataPlacement => [⟨0, 9, 1, 0⟩]
  | .instructionPlacement => [⟨0, 9, 1, 1⟩]
  | .traceId => [⟨0, 13, 0, 1⟩, ⟨0, 13, 1, 1⟩]

def keep : Stored → Word → Word
  | .control, v => v ||| 0x78
  | .cacheable _, v | .writeBuffer, v => Width.byte.truncate v
  | .permissions _, v => Width.half.truncate v
  | _, v => v

def atReset : Stored → Word
  | .control => 0x00052078
  | .dataPlacement => 0x027C000A
  | .instructionPlacement => 0x00000020
  | _ => 0

/-- What a register holds after some writes: what was written to it last. -/
def last (writes : List (ControlRegister × Word)) (x : Stored) : Word :=
  match writes.reverse.find? (·.1 ∈ x.names) with
  | some (_, v) => x.keep v
  | none => x.atReset

theorem last_snoc (writes : List (ControlRegister × Word)) (r : ControlRegister) (v : Word) (x : Stored) :
    last (writes ++ [(r, v)]) x = if r ∈ x.names then x.keep v else last writes x := by
  unfold last
  rw [List.reverse_append, List.reverse_singleton, List.singleton_append, List.find?_cons]
  by_cases named : r ∈ x.names <;> simp [named]

theorem opcode1_eq {r : ControlRegister} {x : Stored} (h : r ∈ x.names) : r.opcode1 = 0 := by
  cases x <;> simp only [names, List.mem_cons, List.not_mem_nil, or_false] at h <;> grind

/-- No name stands for two registers. -/
theorem names_apart {r : ControlRegister} {x y : Stored} (hx : r ∈ x.names) (hy : r ∈ y.names) : x = y := by
  cases x <;> simp only [names, List.mem_cons, List.not_mem_nil, or_false] at hx
  all_goals cases y <;> simp only [names, List.mem_cons, List.not_mem_nil, or_false] at hy
  all_goals grind

/-- The numbers that no register has. -/
theorem unnamed {primary secondary opcode2 : Nat} (unknown : ∀ x : Stored, ⟨0, primary, secondary, opcode2⟩ ∉ x.names) :
    ¬(primary = 1 ∧ secondary = 0 ∧ opcode2 = 0) ∧ ¬(primary = 2 ∧ secondary = 0 ∧ opcode2 < 2) ∧
      ¬(primary = 3 ∧ secondary = 0 ∧ opcode2 = 0) ∧ ¬(primary = 5 ∧ secondary = 0 ∧ opcode2 < 4) ∧
      ¬(primary = 6 ∧ secondary < 8 ∧ opcode2 < 2) ∧ ¬(primary = 9 ∧ secondary < 2 ∧ opcode2 < 2) ∧
      ¬(primary = 13 ∧ secondary < 2 ∧ opcode2 = 1) := by
  refine ⟨?control, ?cacheable, ?writeBuffer, ?permissions, ?regions, ?placement, ?traceId⟩
  case control => rintro ⟨rfl, rfl, rfl⟩; exact unknown .control (.head _)
  case cacheable => rintro ⟨rfl, rfl, h⟩; exact unknown (.cacheable ⟨opcode2, h⟩) (.head _)
  case writeBuffer => rintro ⟨rfl, rfl, rfl⟩; exact unknown .writeBuffer (.head _)
  case permissions =>
    rintro ⟨rfl, rfl, h⟩
    match opcode2, h with
    | 0, _ => exact unknown (.permissions 0) (.head _)
    | 1, _ => exact unknown (.permissions 1) (.head _)
    | 2, _ => exact unknown (.extendedPermissions 0) (.head _)
    | 3, _ => exact unknown (.extendedPermissions 1) (.head _)
  case regions =>
    rintro ⟨rfl, row, column⟩; exact unknown (.region ⟨opcode2, column⟩ ⟨secondary, row⟩) (.head _)
  case placement =>
    rintro ⟨rfl, h, column⟩
    match secondary, h, opcode2, column with
    | 0, _, n, column => exact unknown (.lockdown ⟨n, column⟩) (.head _)
    | 1, _, 0, _ => exact unknown .dataPlacement (.head _)
    | 1, _, 1, _ => exact unknown .instructionPlacement (.head _)
  case traceId =>
    rintro ⟨rfl, h, rfl⟩
    match secondary, h with
    | 0, _ => exact unknown .traceId (.head _)
    | 1, _ => exact unknown .traceId (.tail _ (.head _))

end Stored

/-- What the registers hold that say which processor this is: its name, its caches and its memories. -/
def identification (r : ControlRegister) : Word :=
  if r.opcode1 = 0 ∧ r.primary = 0 ∧ r.secondary = 0 ∧ r.opcode2 < 8 then
    if r.opcode2 = 1 then 0x0F0D2112
    else if r.opcode2 = 2 then 0x00140180
    else 0x41059461
  else 0

section
variable {α : Type} {n : Nat} (xs : Vector α n) {i j : Fin n} (a : α)

theorem get_set_self : (xs.set i a).get i = a := Vector.getElem_set_self _

theorem get_set_of_ne (h : j ≠ i) : (xs.set i a).get j = xs.get j :=
  Vector.getElem_set_ne _ _ fun same => h (Fin.ext same).symm

theorem setIfInBounds_ge {k : Nat} (h : n ≤ k) : xs.setIfInBounds k a = xs := by
  grind

end

namespace SystemControl

variable (s : SystemControl) (v : Word)

def stored : Stored → Word
  | .control => s.control
  | .cacheable i => (s.cacheable.get i).setWidth 32
  | .writeBuffer => s.writeBuffer.setWidth 32
  | .permissions i => (s.permissions.get i).setWidth 32
  | .extendedPermissions i => s.extendedPermissions.get i
  | .region i n => (s.regions.get i).get n
  | .lockdown i => s.lockdown.get i
  | .dataPlacement => s.dataPlacement
  | .instructionPlacement => s.instructionPlacement
  | .traceId => s.traceId

def put : Stored → SystemControl
  | .control => moveWindows { s with control := v ||| Control.alwaysSet }
  | .cacheable i => { s with cacheable := s.cacheable.set i (v.setWidth 8) }
  | .writeBuffer => { s with writeBuffer := v.setWidth 8 }
  | .permissions i => { s with permissions := s.permissions.set i (v.setWidth 16) }
  | .extendedPermissions i => { s with extendedPermissions := s.extendedPermissions.set i v }
  | .region i n => { s with regions := s.regions.set i ((s.regions.get i).set n v) }
  | .lockdown i => { s with lockdown := s.lockdown.set i v }
  | .dataPlacement => moveWindows { s with dataPlacement := v }
  | .instructionPlacement => moveWindows { s with instructionPlacement := v }
  | .traceId => { s with traceId := v }

theorem stored_put_self (x : Stored) : (s.put v x).stored x = x.keep v := by
  cases x with
  | cacheable i | permissions i => exact congrArg (BitVec.setWidth 32) (get_set_self _ _)
  | extendedPermissions i | lockdown i => exact get_set_self _ _
  | region i n => exact (congrArg (fun row : Vector Word 8 => row.get n) (get_set_self _ _)).trans (get_set_self _ _)
  | control | writeBuffer | dataPlacement | instructionPlacement | traceId => rfl

theorem stored_put_of_ne {x y : Stored} (other : y ≠ x) : (s.put v x).stored y = s.stored y := by
  cases x <;> cases y
  -- Only registers of one family share a vector.
  case cacheable.cacheable | permissions.permissions =>
    exact congrArg (BitVec.setWidth 32) (get_set_of_ne _ _ fun same => other (congrArg _ same))
  case extendedPermissions.extendedPermissions | lockdown.lockdown =>
    exact get_set_of_ne _ _ fun same => other (congrArg _ same)
  case region.region i n j k =>
    by_cases same : j = i
    · subst same
      exact (congrArg (fun row : Vector Word 8 => row.get k) (get_set_self _ _)).trans
        (get_set_of_ne _ _ fun same => other (congrArg _ same))
    · exact congrArg (fun row : Vector Word 8 => row.get k) (get_set_of_ne _ _ same)
  all_goals first
    | rfl
    | exact absurd rfl other

/-- A write to a name goes to the register of that name. -/
theorem store_eq_put {primary secondary opcode2 : Nat} {x : Stored}
    (named : ⟨0, primary, secondary, opcode2⟩ ∈ x.names) : s.store primary secondary opcode2 v = s.put v x := by
  cases x <;> simp only [Stored.names, List.mem_cons, List.not_mem_nil, or_false, ControlRegister.mk.injEq] at named
  case traceId => obtain ⟨-, rfl, rfl, rfl⟩ | ⟨-, rfl, rfl, rfl⟩ := named <;> rfl
  all_goals obtain ⟨-, rfl, rfl, rfl⟩ := named
  case cacheable i | permissions i | extendedPermissions i | lockdown i => fin_cases i <;> rfl
  case region i n =>
    have inside (row : Vector Word 8) : row.setIfInBounds n v = row.set n v := by grind
    match i with
    | 0 => exact congrArg (fun row => { s with regions := s.regions.set 0 row }) (inside _)
    | 1 => exact congrArg (fun row => { s with regions := s.regions.set 1 row }) (inside _)
  all_goals rfl

/-- A write to any other name is lost. -/
theorem store_eq_self {primary secondary opcode2 : Nat}
    (unknown : ∀ x : Stored, ⟨0, primary, secondary, opcode2⟩ ∉ x.names) :
    s.store primary secondary opcode2 v = s := by
  have none_named := Stored.unnamed unknown
  unfold store
  split
  case h_9 | h_10 =>
    have outside : 8 ≤ secondary := by simpa using none_named
    simp [setIfInBounds_ge _ _ outside]
  case h_17 => rfl
  all_goals simp at none_named

/-- A name reads as its register. -/
theorem value_eq_stored {primary secondary opcode2 : Nat} {x : Stored}
    (named : ⟨0, primary, secondary, opcode2⟩ ∈ x.names) : s.value primary secondary opcode2 = s.stored x := by
  cases x <;> simp only [Stored.names, List.mem_cons, List.not_mem_nil, or_false, ControlRegister.mk.injEq] at named
  case traceId => obtain ⟨-, rfl, rfl, rfl⟩ | ⟨-, rfl, rfl, rfl⟩ := named <;> rfl
  all_goals obtain ⟨-, rfl, rfl, rfl⟩ := named
  case cacheable i | permissions i | extendedPermissions i | lockdown i => fin_cases i <;> rfl
  case region i n =>
    have inside (row : Vector Word 8) : row[n.val]?.getD 0 = row.get n := by grind [Vector.get]
    fin_cases i <;> exact inside _
  all_goals rfl

/-- Any other name reads as what is fixed for it. -/
theorem value_eq_identification {r : ControlRegister} (known : r.opcode1 = 0) (unknown : ∀ x : Stored, r ∉ x.names) :
    s.value r.primary r.secondary r.opcode2 = identification r := by
  obtain ⟨opcode1, primary, secondary, opcode2⟩ := r
  obtain rfl : opcode1 = 0 := known
  have none_named := Stored.unnamed unknown
  unfold value
  dsimp only
  split
  case h_1 | h_2 => rfl
  case h_12 | h_13 =>
    have outside : 8 ≤ secondary := by simpa using none_named
    simp [identification, outside]
  case h_3 | h_20 => simp_all [identification]
  all_goals simp at none_named

variable (r : ControlRegister) (journal : Journal)

theorem read_of_opcode1 (h : r.opcode1 ≠ 0) : (s.read r journal).1 = 0 := by
  simp only [read, if_pos h]

theorem read_stored {x : Stored} (named : r ∈ x.names) : (s.read r journal).1 = s.stored x := by
  obtain ⟨opcode1, primary, secondary, opcode2⟩ := r
  obtain rfl : opcode1 = 0 := Stored.opcode1_eq named
  exact s.value_eq_stored named

theorem read_unnamed (unknown : ∀ x : Stored, r ∉ x.names) : (s.read r journal).1 = identification r := by
  by_cases h : r.opcode1 = 0
  · simp only [read, h, ne_eq, not_true_eq_false, if_false, s.value_eq_identification h unknown]
  · rw [s.read_of_opcode1 r journal h, identification, if_neg fun known => h known.1]

/-- What the registers hold after a write. -/
theorem stored_write (x : Stored) :
    (s.write r v journal).1.stored x = if r ∈ x.names then x.keep v else s.stored x := by
  obtain ⟨opcode1, primary, secondary, opcode2⟩ := r
  by_cases h : opcode1 = 0
  · subst h
    change (s.store primary secondary opcode2 v).stored x = _
    by_cases known : ∃ y : Stored, ⟨0, primary, secondary, opcode2⟩ ∈ y.names
    · obtain ⟨y, named⟩ := known
      rw [s.store_eq_put v named]
      by_cases same : x = y
      · subst same
        rw [stored_put_self, if_pos named]
      · rw [s.stored_put_of_ne v same, if_neg fun also => same (Stored.names_apart also named)]
    · rw [s.store_eq_self v (not_exists.mp known), if_neg (not_exists.mp known x)]
  · rw [write, if_pos h, if_neg fun named => h (Stored.opcode1_eq named)]

theorem stored_initial (x : Stored) : initial.stored x = x.atReset := by
  cases x with
  | cacheable i | permissions i | extendedPermissions i | lockdown i => fin_cases i <;> rfl
  | region i n => fin_cases i <;> fin_cases n <;> rfl
  | control | writeBuffer | dataPlacement | instructionPlacement | traceId => rfl

def writeAll (writes : List (ControlRegister × Word)) (journal : Journal) : SystemControl × Journal :=
  writes.foldl (fun now w => now.1.write w.1 w.2 now.2) (s, journal)

theorem stored_writeAll (writes : List (ControlRegister × Word)) (x : Stored) :
    (initial.writeAll writes journal).1.stored x = x.last writes := by
  induction writes using List.reverseRecOn with
  | nil => exact stored_initial x
  | append_singleton writes w ih =>
    rw [writeAll, List.foldl_append, List.foldl_cons, List.foldl_nil, stored_write, Stored.last_snoc,
      ← ih, writeAll]

theorem waits_iff : waits r = true ↔ r = ⟨0, 7, 0, 4⟩ ∨ r = ⟨0, 7, 8, 2⟩ := by
  obtain ⟨opcode1, primary, secondary, opcode2⟩ := r
  simp only [waits, Bool.and_eq_true, Bool.or_eq_true, beq_iff_eq, ControlRegister.mk.injEq]
  tauto

end SystemControl

/-- The coprocessor is a register file. After any writes since the reset, a name with a first opcode other than
zero reads as zero, a name of a register as what the last write to that register left there, and any other name
as what is fixed for it. A write changes nothing that other registers hold, and lets the processor wait for an
interrupt under two names alone. -/
theorem SystemControl.holds_last_write :
    (∀ (writes : List (ControlRegister × Word)) (noted : Journal) (r : ControlRegister) (journal : Journal),
      let s := (initial.writeAll writes noted).1
      (r.opcode1 ≠ 0 → (s.read r journal).1 = 0) ∧
      (∀ x : Stored, r ∈ x.names → (s.read r journal).1 = x.last writes) ∧
      ((∀ x : Stored, r ∉ x.names) → (s.read r journal).1 = identification r)) ∧
    (∀ (s : SystemControl) (r other : ControlRegister) (v : Word) (noted journal : Journal),
      (∀ x : Stored, r ∈ x.names → other ∉ x.names) →
        ((s.write r v noted).1.read other journal).1 = (s.read other journal).1) ∧
    ∀ r : ControlRegister, (waits r = true ↔ r = ⟨0, 7, 0, 4⟩ ∨ r = ⟨0, 7, 8, 2⟩) ∧
      ∀ {δ : Type} (v : Word) (m : Node δ), (writeControl r v m).2.cpu.halted = (m.cpu.halted || waits r) := by
  refine ⟨fun writes noted r journal => ⟨?_, ?_, ?_⟩, ?_, fun r => ⟨waits_iff r, fun v m => ?_⟩⟩
  · exact read_of_opcode1 _ r journal
  · intro x named
    rw [read_stored _ r journal named, stored_writeAll]
  · exact read_unnamed _ r journal
  · intro s r other v noted journal apart
    by_cases known : ∃ x : Stored, other ∈ x.names
    · obtain ⟨x, named⟩ := known
      rw [read_stored _ other journal named, read_stored _ other journal named, stored_write,
        if_neg fun also => apart x also named]
    · rw [read_unnamed _ other journal (not_exists.mp known), read_unnamed _ other journal (not_exists.mp known)]
  · by_cases h : waits r = true <;> simp [writeControl, h, Processor.halt]

/-- Two names, one register: what is written to the second name of the trace process reads back under the first,
whatever was written to a region in between. -/
theorem SystemControl.trace_holds_last_write :
    ((initial.writeAll [(⟨0, 13, 1, 1⟩, 7), (⟨0, 6, 3, 1⟩, 0x0200002B)] #[]).1.read ⟨0, 13, 0, 1⟩ #[]).1 = 7 ∧
    ((initial.write ⟨0, 6, 3, 1⟩ 0x0200002B #[]).1.read ⟨0, 0, 0, 5⟩ #[]).1 = 0x41059461 ∧
    ((initial.writeAll [] #[]).1.read ⟨1, 1, 0, 0⟩ #[]).1 = 0 := by
  obtain ⟨reading, apart, -⟩ := holds_last_write
  refine ⟨?_, ?_, ?_⟩
  · exact (reading _ #[] ⟨0, 13, 0, 1⟩ #[]).2.1 .traceId (.head _)
  · exact apart initial ⟨0, 6, 3, 1⟩ ⟨0, 0, 0, 5⟩ 0x0200002B #[] #[] (by intro x; cases x <;> simp [Stored.names])
  · exact (reading [] #[] ⟨1, 1, 0, 0⟩ #[]).1 (by decide)

end Lockstep.Console
