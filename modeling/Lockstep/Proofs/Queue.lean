import Lockstep.Schedule
import Mathlib.Algebra.BigOperators.Group.Multiset.Basic
import Mathlib.Data.Multiset.Filter
import Mathlib.Tactic.Abel

/-!
A queue of events by the book: a bag of tickets, each with its time, its number in the order of planning
and its kind. What comes out is the ticket that is first by time and then by number. The queue knows no
lists and no order of storage. What it does is given by rules, which leave no choice, and the history of a
queue accounts for every ticket.
-/

namespace Lockstep

inductive Schedule.Operation (κ : Type) where
  | planAt (kind : κ) (time : Nat)
  | planAfter (kind : κ) (delay : Nat)
  | advance (cycles : Nat)
  | takeDue
  | take
  | cancel (kind : κ)

structure Ticket (κ : Type) where
  time : Nat
  number : Nat
  kind : κ
deriving DecidableEq, Repr

variable {κ : Type}

/-- Earlier times come first, and of one time what was planned first. -/
def Ticket.Before (a b : Ticket κ) : Prop := a.time < b.time ∨ a.time = b.time ∧ a.number < b.number

namespace Ticket.Before

variable {a b c : Ticket κ}

theorem irrefl (a : Ticket κ) : ¬a.Before a := by
  unfold Before
  omega

theorem trans (h : a.Before b) (h' : b.Before c) : a.Before c := by
  unfold Before at *
  omega

theorem asymm (h : a.Before b) : ¬b.Before a := fun h' => irrefl a (h.trans h')

end Ticket.Before

structure Queue (κ : Type) where
  now : Nat := 0
  /-- How many tickets have been issued so far. -/
  issued : Nat := 0
  waiting : Multiset (Ticket κ) := 0

namespace Queue

inductive Outcome (κ : Type) where
  | accepted (e : Ticket κ)
  /-- An event for this time was dropped. -/
  | dropped (time : Nat)
  | passed
  | returned (e : Ticket κ) (lateBy : Nat)
  | nothing
  | cancelled (es : Multiset (Ticket κ))

namespace Outcome

def accepts : Outcome κ → List (Ticket κ)
  | accepted e => [e]
  | _ => []

def returns : Outcome κ → List (Ticket κ)
  | returned e _ => [e]
  | _ => []

def cancels : Outcome κ → Multiset (Ticket κ)
  | cancelled es => es
  | _ => 0

end Outcome

abbrev History (κ : Type) := List (Schedule.Operation κ × Outcome κ)

namespace History

def accepted (l : History κ) : List (Ticket κ) := l.flatMap (·.2.accepts)

def returned (l : History κ) : List (Ticket κ) := l.flatMap (·.2.returns)

def cancelled (l : History κ) : Multiset (Ticket κ) := (l.map (·.2.cancels)).sum

variable (l : History κ) (op : Schedule.Operation κ) (o : Outcome κ)

@[simp] theorem accepted_snoc : accepted (l ++ [(op, o)]) = accepted l ++ o.accepts := by
  simp [accepted]

@[simp] theorem returned_snoc : returned (l ++ [(op, o)]) = returned l ++ o.returns := by
  simp [returned]

@[simp] theorem cancelled_snoc : cancelled (l ++ [(op, o)]) = cancelled l + o.cancels := by
  simp [cancelled]

end History

/-- The waiting ticket that comes before all others. -/
def First (q : Queue κ) (e : Ticket κ) : Prop := e ∈ q.waiting ∧ ∀ f ∈ q.waiting, f ≠ e → e.Before f

theorem First.unique {q : Queue κ} {e f : Ticket κ} (he : q.First e) (hf : q.First f) : e = f := by
  by_contra hne
  exact (he.2 f hf.1 (Ne.symm hne)).asymm (hf.2 e he.1 hne)

def issue (q : Queue κ) (kind : κ) (time : Nat) : Ticket κ := ⟨time, q.issued, kind⟩

def accept (q : Queue κ) (kind : κ) (time : Nat) : Queue κ :=
  { q with issued := q.issued + 1, waiting := q.issue kind time ::ₘ q.waiting }

/-- No ticket waits twice, all have been issued, and there is room for them. -/
structure Sound (q : Queue κ) : Prop where
  nodup : q.waiting.Nodup
  number : ∀ e ∈ q.waiting, e.number < q.issued
  card : q.waiting.card ≤ Schedule.capacity

theorem Sound.initial : Sound ({} : Queue κ) where
  nodup := Multiset.nodup_zero
  number _ h := absurd h (Multiset.notMem_zero _)
  card := Nat.zero_le _

theorem Sound.fewer {q q' : Queue κ} (h : q.Sound) (hw : q'.waiting ≤ q.waiting) (hi : q'.issued = q.issued) :
    q'.Sound where
  nodup := Multiset.nodup_of_le hw h.nodup
  number e he := hi ▸ h.number e (Multiset.mem_of_le hw he)
  card := (Multiset.card_le_card hw).trans h.card

theorem Sound.accept {q : Queue κ} (h : q.Sound) (room : q.waiting.card < Schedule.capacity) (kind : κ)
    (time : Nat) : (q.accept kind time).Sound where
  nodup := Multiset.nodup_cons.2 ⟨fun he => Nat.lt_irrefl _ (h.number _ he), h.nodup⟩
  number e he := by
    rcases Multiset.mem_cons.1 he with rfl | he
    · exact Nat.lt_succ_self _
    · exact Nat.lt_succ_of_lt (h.number e he)
  card := by
    rw [Queue.accept, Multiset.card_cons]
    exact room

variable [DecidableEq κ]

def remove (q : Queue κ) (e : Ticket κ) : Queue κ := { q with waiting := q.waiting.erase e }

inductive Step : Schedule.Operation κ → Queue κ → Outcome κ → Queue κ → Prop where
  | accept {q : Queue κ} {kind : κ} {time : Nat} (room : q.waiting.card < Schedule.capacity) :
      Step (.planAt kind time) q (.accepted (q.issue kind time)) (q.accept kind time)
  | drop {q : Queue κ} {kind : κ} {time : Nat} (full : q.waiting.card = Schedule.capacity) :
      Step (.planAt kind time) q (.dropped time) q
  | after {q q' : Queue κ} {kind : κ} {delay : Nat} {o : Outcome κ}
      (h : Step (.planAt kind (min (q.now + delay) Schedule.lastTime)) q o q') :
      Step (.planAfter kind delay) q o q'
  | advance {q : Queue κ} {cycles : Nat} :
      Step (.advance cycles) q .passed { q with now := q.now + cycles }
  | due {q : Queue κ} {e : Ticket κ} (first : q.First e) (time : e.time ≤ q.now) :
      Step .takeDue q (.returned e (q.now - e.time)) (q.remove e)
  | early {q : Queue κ} (h : ∀ e ∈ q.waiting, q.now < e.time) : Step .takeDue q .nothing q
  | take {q : Queue κ} {e : Ticket κ} (first : q.First e) :
      Step .take q (.returned e (max q.now e.time - e.time))
        { q.remove e with now := max q.now e.time }
  | empty {q : Queue κ} (h : q.waiting = 0) : Step .take q .nothing q
  | cancel {q : Queue κ} {kind : κ} :
      Step (.cancel kind) q (.cancelled (q.waiting.filter (·.kind = kind)))
        { q with waiting := q.waiting.filter (·.kind ≠ kind) }

inductive Run (q : Queue κ) : History κ → Queue κ → Prop where
  | start : Run q [] q
  | step {l : History κ} {q₁ q₂ : Queue κ} {op : Schedule.Operation κ} {o : Outcome κ} :
      Run q l q₁ → Step op q₁ o q₂ → Run q (l ++ [(op, o)]) q₂

namespace Step

variable {op : Schedule.Operation κ} {q q' : Queue κ} {o : Outcome κ}

theorem deterministic {q₁ q₂ : Queue κ} {o₁ o₂ : Outcome κ} (h₁ : Step op q o₁ q₁)
    (h₂ : Step op q o₂ q₂) : o₁ = o₂ ∧ q₁ = q₂ := by
  have vacant : ∀ {q : Queue κ} {e : Ticket κ}, q.First e → q.waiting ≠ 0 := by
    rintro q e first empty
    exact Multiset.notMem_zero e (empty ▸ first.1)
  induction h₁ generalizing o₂ q₂ with
  | accept room =>
    cases h₂ with
    | accept => exact ⟨rfl, rfl⟩
    | drop full => omega
  | drop full =>
    cases h₂ with
    | accept room => omega
    | drop => exact ⟨rfl, rfl⟩
  | after _ ih =>
    cases h₂ with
    | after h₂ => exact ih h₂
  | advance =>
    cases h₂
    exact ⟨rfl, rfl⟩
  | due first time =>
    cases h₂ with
    | due first' =>
      cases first.unique first'
      exact ⟨rfl, rfl⟩
    | early h => exact absurd time (Nat.not_le.2 (h _ first.1))
  | early h =>
    cases h₂ with
    | due first time => exact absurd time (Nat.not_le.2 (h _ first.1))
    | early => exact ⟨rfl, rfl⟩
  | take first =>
    cases h₂ with
    | take first' =>
      cases first.unique first'
      exact ⟨rfl, rfl⟩
    | empty h => exact absurd h (vacant first)
  | empty h =>
    cases h₂ with
    | take first => exact absurd h (vacant first)
    | empty => exact ⟨rfl, rfl⟩
  | cancel =>
    cases h₂
    exact ⟨rfl, rfl⟩

theorem sound (h : Step op q o q') (hq : q.Sound) : q'.Sound := by
  induction h with
  | accept room => exact hq.accept room _ _
  | drop | early | empty => exact hq
  | after _ ih => exact ih hq
  | advance => exact ⟨hq.nodup, hq.number, hq.card⟩
  | due | take => exact hq.fewer (Multiset.erase_le _ _) rfl
  | cancel => exact hq.fewer (Multiset.filter_le _ _) rfl

theorem issued_le (h : Step op q o q') : q.issued ≤ q'.issued := by
  induction h with
  | accept => exact Nat.le_succ _
  | after _ ih => exact ih
  | drop | advance | due | early | take | empty | cancel => exact Nat.le_refl _

theorem numbers (h : Step op q o q') :
    o.accepts.map (·.number) = List.range' q.issued (q'.issued - q.issued) := by
  induction h with
  | accept => simp [Queue.accept, Outcome.accepts, Queue.issue]
  | after _ ih => exact ih
  | drop | advance | due | early | take | empty | cancel => simp [Outcome.accepts, Queue.remove]

/-- No ticket is lost, and none comes from nowhere. -/
theorem account (h : Step op q o q') :
    q.waiting + (o.accepts : Multiset (Ticket κ)) = o.returns + o.cancels + q'.waiting := by
  induction h with
  | @accept q kind time =>
    simp only [Outcome.accepts, Outcome.returns, Outcome.cancels, Queue.accept, Multiset.coe_singleton,
      Multiset.coe_nil, zero_add]
    rw [add_comm, Multiset.singleton_add]
  | after _ ih => exact ih
  | drop | advance | early | empty => simp [Outcome.accepts, Outcome.returns, Outcome.cancels]
  | due first | take first =>
    simp [Outcome.accepts, Outcome.returns, Outcome.cancels, Queue.remove, Multiset.cons_erase first.1]
  | cancel => simp [Outcome.accepts, Outcome.returns, Outcome.cancels, Multiset.filter_add_not]

end Step

namespace Run

variable {q q' : Queue κ} {l : History κ}

theorem deterministic {l' : History κ} {q₁ q₂ : Queue κ} (h₁ : Run q l q₁) (h₂ : Run q l' q₂)
    (h : l.map (·.1) = l'.map (·.1)) : l = l' ∧ q₁ = q₂ := by
  induction h₁ generalizing l' q₂ with
  | start =>
    cases h₂ with
    | start => exact ⟨rfl, rfl⟩
    | step => simp at h
  | step _ step ih =>
    cases h₂ with
    | start => simp at h
    | step run' step' =>
      rw [List.map_append, List.map_append] at h
      obtain ⟨h, same⟩ := List.append_inj' h rfl
      obtain ⟨rfl, rfl⟩ := ih run' h
      cases List.singleton_injective same
      obtain ⟨rfl, rfl⟩ := step.deterministic step'
      exact ⟨rfl, rfl⟩

theorem sound (h : Run q l q') (hq : q.Sound) : q'.Sound := by
  induction h with
  | start => exact hq
  | step _ step ih => exact step.sound ih

theorem issued_le (h : Run q l q') : q.issued ≤ q'.issued := by
  induction h with
  | start => exact Nat.le_refl _
  | step _ step ih => exact ih.trans step.issued_le

/-- Tickets are numbered in the order in which they are issued. -/
theorem numbers (h : Run q l q') :
    l.accepted.map (·.number) = List.range' q.issued (q'.issued - q.issued) := by
  induction h with
  | start => simp [History.accepted]
  | @step l q₁ q₂ op o run step ih =>
    have before := run.issued_le
    have grows := step.issued_le
    rw [History.accepted_snoc, List.map_append, ih, step.numbers]
    have split : q₂.issued - q.issued = (q₁.issued - q.issued) + (q₂.issued - q₁.issued) := by omega
    have reached : q.issued + (q₁.issued - q.issued) = q₁.issued := by omega
    rw [split, ← List.range'_append_1, reached]

/-- Every ticket that was issued has come out, or was cancelled, or still waits. -/
theorem account (h : Run q l q') :
    q.waiting + (l.accepted : Multiset (Ticket κ)) = l.returned + l.cancelled + q'.waiting := by
  induction h with
  | start => simp [History.accepted, History.returned, History.cancelled]
  | step _ step ih =>
    simp only [History.accepted_snoc, History.returned_snoc, History.cancelled_snoc, ← Multiset.coe_add]
    rw [← add_assoc, ih, add_assoc, step.account]
    abel

end Run

/-- Tickets of one time come out in the order of their numbers: those that are out, and those that wait
after them. -/
structure InTurn (out : List (Ticket κ)) (q : Queue κ) : Prop where
  sorted : out.Pairwise fun a b => a.time = b.time → a.number < b.number
  number : ∀ a ∈ out, a.number < q.issued
  waiting : ∀ a ∈ out, ∀ e ∈ q.waiting, a.time = e.time → a.number < e.number

namespace InTurn

variable {out : List (Ticket κ)} {q q' : Queue κ}

omit [DecidableEq κ] in
theorem fewer (h : InTurn out q) (hw : q'.waiting ≤ q.waiting) (hi : q'.issued = q.issued) : InTurn out q' where
  sorted := h.sorted
  number a ha := hi ▸ h.number a ha
  waiting a ha e he := h.waiting a ha e (Multiset.mem_of_le hw he)

theorem remove (h : InTurn out q) (hq : q.Sound) {e : Ticket κ} (first : q.First e) :
    InTurn (out ++ [e]) (q.remove e) where
  sorted := by
    refine List.pairwise_append.2 ⟨h.sorted, List.pairwise_singleton _ _, fun a ha b hb => ?_⟩
    rw [List.mem_singleton.1 hb]
    exact h.waiting a ha e first.1
  number a ha := by
    rcases List.mem_append.1 ha with ha | ha
    · exact h.number a ha
    · rw [List.mem_singleton.1 ha]
      exact hq.number e first.1
  waiting a ha f hf := by
    obtain ⟨hne, hf⟩ := hq.nodup.mem_erase_iff.1 hf
    rcases List.mem_append.1 ha with ha | ha
    · exact h.waiting a ha f hf
    · rw [List.mem_singleton.1 ha]
      intro same
      rcases first.2 f hf hne with earlier | ⟨-, lower⟩
      · omega
      · exact lower

theorem step {op : Schedule.Operation κ} {o : Outcome κ} (h : InTurn out q) (hq : q.Sound)
    (hs : Step op q o q') : InTurn (out ++ o.returns) q' := by
  induction hs with
  | accept =>
    simp only [Outcome.returns, List.append_nil]
    refine ⟨h.sorted, fun a ha => Nat.lt_succ_of_lt (h.number a ha), fun a ha e he => ?_⟩
    rcases Multiset.mem_cons.1 he with rfl | he
    · exact fun _ => h.number a ha
    · exact h.waiting a ha e he
  | after _ ih => exact ih h hq
  | due first =>
    exact h.remove hq first
  | take first =>
    have out := h.remove hq first
    exact ⟨out.sorted, out.number, out.waiting⟩
  | drop | early | empty =>
    simp only [Outcome.returns, List.append_nil]
    exact h
  | advance =>
    simp only [Outcome.returns, List.append_nil]
    exact ⟨h.sorted, h.number, h.waiting⟩
  | cancel =>
    simp only [Outcome.returns, List.append_nil]
    exact h.fewer (Multiset.filter_le _ _) rfl

end InTurn

theorem Run.inTurn {l : History κ} {q : Queue κ} (h : Run {} l q) : InTurn l.returned q := by
  induction h with
  | start => exact ⟨List.Pairwise.nil, fun _ ha => absurd ha List.not_mem_nil, fun _ ha => absurd ha List.not_mem_nil⟩
  | step run step ih =>
    rw [History.returned_snoc]
    exact ih.step (run.sound .initial) step

end Queue

end Lockstep
