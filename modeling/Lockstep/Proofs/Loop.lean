import Lockstep.Proofs.StepMoves

/-!
Loops. A loop runs its body for as long as a condition holds, and ends when it no longer does or when the
body fails. A loop need not end, so its end is given by a relation; it ends in one way at most. Stepping
with fuel is such a loop if the fuel lasts: if each step uses up some of a measure, or changes nothing at all.
-/

namespace Lockstep

section
variable {ε σ : Type}

/-- Rounds of a loop in a row: each starts while the condition holds, and none fails. -/
abbrev Rounds (p : σ → Prop) (body : EStateM ε σ Unit) : σ → σ → Prop :=
  Relation.ReflTransGen fun s s' => p s ∧ body s = .ok () s'

inductive Ends (p : σ → Prop) (body : EStateM ε σ Unit) (s : σ) : EStateM.Result ε σ Unit → Prop where
  | done {s' : σ} (rounds : Rounds p body s s') (finished : ¬p s') : Ends p body s (.ok () s')
  | failed {e : ε} {s₁ s' : σ} (rounds : Rounds p body s s₁) (going : p s₁) (fails : body s₁ = .error e s') :
      Ends p body s (.error e s')

variable {p : σ → Prop} {body : EStateM ε σ Unit} {s s₁ s₂ : σ} {r r' : EStateM.Result ε σ Unit}

namespace Rounds

/-- No round starts once the condition no longer holds. -/
theorem finished (h : Rounds p body s s₁) (hp : ¬p s) : s₁ = s := by
  rcases h.cases_head with same | ⟨_, going, -⟩
  · exact same.symm
  · exact absurd going.1 hp

/-- No round starts where the body fails. -/
theorem halted {e : ε} (h : Rounds p body s s₁) (fails : body s = .error e s₂) : s₁ = s := by
  rcases h.cases_head with same | ⟨_, going, -⟩
  · exact same.symm
  · cases fails.symm.trans going.2

/-- Rounds that change nothing go on for ever. -/
theorem stuck (h : Rounds p body s s₁) (same : body s = .ok () s) : s₁ = s := by
  induction h with
  | refl => rfl
  | tail _ round ih =>
    rw [ih] at round
    cases same.symm.trans round.2
    rfl

/-- A round can go one way only. -/
theorem same : Relator.RightUnique fun s s' => p s ∧ body s = .ok () s' := by
  intro a b c hb hc
  cases hb.2.symm.trans hc.2
  rfl

/-- Rounds from one start that cannot go on end in one place. -/
theorem meet (h₁ : Rounds p body s s₁) (h₂ : Rounds p body s s₂)
    (last₁ : ∀ t, Rounds p body s₁ t → t = s₁) (last₂ : ∀ t, Rounds p body s₂ t → t = s₂) : s₁ = s₂ := by
  rcases Relation.ReflTransGen.total_of_right_unique same h₁ h₂ with more | more
  · exact (last₁ _ more).symm
  · exact last₂ _ more

end Rounds

namespace Ends

theorem unique (h : Ends p body s r) (h' : Ends p body s r') : r = r' := by
  cases h with
  | done rounds finished =>
    cases h' with
    | done rounds' finished' =>
      rw [rounds.meet rounds' (fun _ more => more.finished finished) fun _ more => more.finished finished']
    | failed rounds' going fails =>
      rw [rounds.meet rounds' (fun _ more => more.finished finished) fun _ more => more.halted fails] at finished
      exact absurd going finished
  | failed rounds going fails =>
    cases h' with
    | done rounds' finished =>
      rw [rounds.meet rounds' (fun _ more => more.halted fails) fun _ more => more.finished finished] at going
      exact absurd going finished
    | failed rounds' going' fails' =>
      rw [rounds.meet rounds' (fun _ more => more.halted fails) fun _ more => more.halted fails'] at fails
      exact fails.symm.trans fails'

/-- A loop that comes to a state that its body leaves as it is does not end. -/
theorem not_of_stuck (rounds : Rounds p body s s₁) (going : p s₁) (same : body s₁ = .ok () s₁) :
    ¬Ends p body s r := by
  rintro (⟨rounds', finished⟩ | ⟨rounds', going', fails⟩)
  · have met := rounds.meet rounds' (fun _ more => more.stuck same) fun _ more => more.finished finished
    exact finished (met ▸ going)
  · have met := rounds.meet rounds' (fun _ more => more.stuck same) fun _ more => more.halted fails
    cases same.symm.trans (met ▸ fails)

theorem head (going : p s) (round : body s = .ok () s₁) (h : Ends p body s₁ r) : Ends p body s r := by
  cases h with
  | done rounds finished => exact .done (.head ⟨going, round⟩ rounds) finished
  | failed rounds going' fails => exact .failed (.head ⟨going, round⟩ rounds) going' fails

end Ends

end

namespace Exec

variable {σ : Type} {bus : Bus σ} {p : Machine σ → Bool} {m : Machine σ}

theorem stepWhile_zero (m : Machine σ) : stepWhile bus p 0 m = .ok (!p m) m := rfl

theorem stepWhile_succ (fuel : Nat) (m : Machine σ) :
    stepWhile bus p (fuel + 1) m =
      if p m then
        match step bus m with
        | .ok _ m₁ => stepWhile bus p fuel m₁
        | .error e m₁ => .error e m₁
      else .ok true m := by
  show EStateM.bind get (fun m₀ => if p m₀ then (do step bus; stepWhile bus p fuel) else pure true) m = _
  simp only [EStateM.bind, get_eq]
  split_ifs
  · show EStateM.bind (step bus) _ m = _
    unfold EStateM.bind
    cases step bus m <;> rfl
  · rfl

variable (bus p) in
theorem stepWhile_run (fuel : Nat) (m : Machine σ) : Run bus m ((stepWhile bus p fuel).final m) := by
  induction fuel generalizing m with
  | zero => exact .refl
  | succ fuel ih =>
    unfold final at ih ⊢
    rw [stepWhile_succ]
    split_ifs
    · have stepped : Run bus m ((step bus).final m) := .single rfl
      unfold final at stepped
      cases hs : step bus m with
      | error e m₁ =>
        rw [hs] at stepped
        exact stepped
      | ok _ m₁ =>
        rw [hs] at stepped
        exact stepped.trans (ih m₁)
    · exact .refl

theorem stepWhile_stuck (going : p m = true) (same : step bus m = .ok () m) (fuel : Nat) :
    stepWhile bus p fuel m = .ok false m := by
  induction fuel with
  | zero => rw [stepWhile_zero, going, Bool.not_true]
  | succ fuel ih =>
    rw [stepWhile_succ, if_pos going, same]
    exact ih

/-- Stepping with enough fuel ends as the loop does, or comes to a machine on which a step has no effect. -/
inductive Stepped (bus : Bus σ) (p : Machine σ → Bool) (m : Machine σ) :
    EStateM.Result Fault (Machine σ) Bool → Prop where
  | done {m' : Machine σ} (ends : Ends (p · = true) (step bus) m (.ok () m')) : Stepped bus p m (.ok true m')
  | stuck {m' : Machine σ} (rounds : Rounds (p · = true) (step bus) m m') (going : p m' = true)
      (same : step bus m' = .ok () m') : Stepped bus p m (.ok false m')
  | failed {e : Fault} {m' : Machine σ} (ends : Ends (p · = true) (step bus) m (.error e m')) :
      Stepped bus p m (.error e m')

theorem Stepped.head {m₁ : Machine σ} {r : EStateM.Result Fault (Machine σ) Bool} (going : p m = true)
    (round : step bus m = .ok () m₁) (h : Stepped bus p m₁ r) : Stepped bus p m r := by
  cases h with
  | done ends => exact .done (ends.head going round)
  | stuck rounds going' same => exact .stuck (.head ⟨going, round⟩ rounds) going' same
  | failed ends => exact .failed (ends.head going round)

/-- Fuel lasts if a step uses up some of a measure that is left for as long as the condition holds. -/
theorem stepWhile_stepped (kept : Machine σ → Prop) (left : Machine σ → Nat)
    (some : ∀ m, p m = true → 0 < left m)
    (fewer : ∀ m m', kept m → p m = true → step bus m = .ok () m' → kept m' ∧ (left m' < left m ∨ m' = m))
    {fuel : Nat} (hm : kept m) (enough : left m ≤ fuel) : Stepped bus p m (stepWhile bus p fuel m) := by
  have finished : ∀ m : Machine σ, p m = false → Stepped bus p m (.ok true m) := fun m h =>
    .done (.done .refl (Bool.eq_false_iff.1 h))
  induction fuel generalizing m with
  | zero =>
    cases hp : p m with
    | true => exact absurd (some m hp) (Nat.not_lt.2 enough)
    | false =>
      rw [stepWhile_zero, hp]
      exact finished m hp
  | succ fuel ih =>
    cases hp : p m with
    | false =>
      rw [stepWhile_succ, hp]
      exact finished m hp
    | true =>
      cases hs : step bus m with
      | error e m₁ =>
        rw [stepWhile_succ, if_pos hp, hs]
        exact .failed (.failed .refl hp hs)
      | ok _ m₁ =>
        obtain ⟨kept', less | rfl⟩ := fewer m m₁ hm hp hs
        · rw [stepWhile_succ, if_pos hp, hs]
          exact (ih kept' (Nat.le_of_lt_succ (Nat.lt_of_lt_of_le less enough))).head hp hs
        · rw [stepWhile_stuck hp hs]
          exact .stuck .refl hp hs

end Exec

end Lockstep
