import Lockstep.Proofs.Queue

/-!
A schedule is a queue by the book. It keeps its events in a list in which new ones are inserted behind all
that are not later; the list is at all times that of the waiting tickets, in the order in which they come
before each other. So a schedule answers every sequence of operations as the queue does.
-/

namespace Lockstep

variable {κ : Type}

def Ticket.planned (e : Ticket κ) : Planned κ := ⟨e.kind, e.time⟩

namespace Queue.Outcome

def due : Outcome κ → Option (Due κ)
  | returned e lateBy => some ⟨e.kind, lateBy⟩
  | _ => none

def noted (journal : Journal) : Outcome κ → Journal
  | dropped time =>
    journal.note .error ("Scheduler is full, dropping event scheduled at " ++ toString time)
  | _ => journal

end Queue.Outcome

theorem Queue.Run.cons [DecidableEq κ] {op : Schedule.Operation κ} {o : Outcome κ} {q q₁ q₂ : Queue κ}
    {l : History κ} (step : Step op q o q₁) (run : Run q₁ l q₂) : Run q ((op, o) :: l) q₂ := by
  induction run with
  | start => exact .step .start step
  | step _ last ih => exact .step ih last

namespace Schedule

/-- The schedule shows the same time and lists the tickets that wait, in the order in which they come
out. -/
structure Agrees (s : Schedule κ) (q : Queue κ) : Prop where
  now : s.now = q.now
  listed : ∃ l : List (Ticket κ),
    (l : Multiset (Ticket κ)) = q.waiting ∧ l.Pairwise Ticket.Before ∧ s.events = l.map Ticket.planned

theorem Agrees.initial : Agrees ({} : Schedule κ) {} := ⟨rfl, [], rfl, .nil, rfl⟩

/-- Inserting behind all that are not later is right for the ticket with the highest number. -/
theorem insert_listed (e : Ticket κ) {l : List (Ticket κ)} (sorted : l.Pairwise Ticket.Before)
    (newest : ∀ f ∈ l, f.number < e.number) :
    ∃ l' : List (Ticket κ), l'.Perm (e :: l) ∧ l'.Pairwise Ticket.Before ∧
      insert e.planned (l.map Ticket.planned) = l'.map Ticket.planned := by
  induction l with
  | nil => exact ⟨[e], .refl _, List.pairwise_singleton _ _, rfl⟩
  | cons x xs ih =>
    obtain ⟨first, rest⟩ := List.pairwise_cons.1 sorted
    by_cases h : x.time ≤ e.time
    · obtain ⟨l', perm, sorted', eq⟩ := ih rest fun f hf => newest f (List.mem_cons_of_mem _ hf)
      refine ⟨x :: l', (perm.cons x).trans (.swap e x xs), List.pairwise_cons.2 ⟨fun f hf => ?_, sorted'⟩, ?_⟩
      · rcases List.mem_cons.1 (perm.mem_iff.1 hf) with rfl | hf
        · have lower := newest x List.mem_cons_self
          unfold Ticket.Before
          omega
        · exact first f hf
      · rw [List.map_cons, List.map_cons, ← eq]
        exact if_pos h
    · refine ⟨e :: x :: xs, .refl _, List.pairwise_cons.2 ⟨fun f hf => ?_, sorted⟩, if_neg h⟩
      have sooner : e.Before x := .inl (Nat.lt_of_not_le h)
      rcases List.mem_cons.1 hf with rfl | hf
      · exact sooner
      · exact sooner.trans (first f hf)

namespace Agrees

variable {s : Schedule κ} {q : Queue κ}

theorem length (h : s.Agrees q) : s.events.length = q.waiting.card := by
  obtain ⟨l, hl, -, he⟩ := h.listed
  rw [he, List.length_map, ← hl, Multiset.coe_card]

/-- Either nothing waits, or the head of the list is the ticket that comes out first. -/
theorem head [DecidableEq κ] (h : s.Agrees q) :
    s.events = [] ∧ q.waiting = 0 ∨
    ∃ e rest, s.events = e.planned :: rest ∧ q.First e ∧
      ∀ now, Agrees ⟨now, rest⟩ { q.remove e with now } := by
  obtain ⟨l, hl, sorted, he⟩ := h.listed
  cases l with
  | nil => exact .inl ⟨he, hl.symm⟩
  | cons e l =>
    obtain ⟨first, rest⟩ := List.pairwise_cons.1 sorted
    refine .inr ⟨e, l.map Ticket.planned, he, ⟨?_, fun f hf hne => ?_⟩, fun now => ⟨rfl, l, ?_, rest, rfl⟩⟩
    · rw [← hl]
      exact List.mem_cons_self
    · rw [← hl] at hf
      exact first f ((List.mem_cons.1 hf).resolve_left hne)
    · show (l : Multiset (Ticket κ)) = q.waiting.erase e
      rw [← hl, ← Multiset.cons_coe, Multiset.erase_cons_head]

theorem accept (h : s.Agrees q) (sound : q.Sound) (kind : κ) (time : Nat) :
    Agrees { s with events := insert ⟨kind, time⟩ s.events } (q.accept kind time) := by
  obtain ⟨l, hl, sorted, he⟩ := h.listed
  obtain ⟨l', perm, sorted', eq⟩ := insert_listed (q.issue kind time) sorted fun f hf =>
    sound.number f (hl ▸ hf)
  refine ⟨h.now, l', ?_, sorted', ?_⟩
  · rw [Queue.accept, ← hl]
    exact Multiset.coe_eq_coe.2 perm
  · rw [he]
    exact eq

end Agrees

variable [DecidableEq κ]

def perform (s : Schedule κ) (journal : Journal) : Operation κ → Option (Due κ) × Schedule κ × Journal
  | .planAt kind time => (none, s.planAt kind time journal)
  | .planAfter kind delay => (none, s.planAfter kind delay journal)
  | .advance cycles => (none, s.advance cycles, journal)
  | .takeDue => (s.takeDue.1, s.takeDue.2, journal)
  | .take => (s.take.1, s.take.2, journal)
  | .cancel kind => (none, s.cancel kind, journal)

def performAll (s : Schedule κ) (journal : Journal) :
    List (Operation κ) → List (Option (Due κ)) × Schedule κ × Journal
  | [] => ([], s, journal)
  | op :: ops =>
    let done := s.perform journal op
    let rest := performAll done.2.1 done.2.2 ops
    (done.1 :: rest.1, rest.2)

variable {s : Schedule κ} {q : Queue κ}

theorem perform_agrees (h : s.Agrees q) (sound : q.Sound) (journal : Journal) (op : Operation κ) :
    ∃ o q', Queue.Step op q o q' ∧ (s.perform journal op).1 = o.due ∧
      (s.perform journal op).2.1.Agrees q' ∧ (s.perform journal op).2.2 = o.noted journal := by
  have planned : ∀ kind time, ∃ o q', Queue.Step (.planAt kind time) q o q' ∧ none = o.due ∧
      (s.planAt kind time journal).1.Agrees q' ∧ (s.planAt kind time journal).2 = o.noted journal := by
    intro kind time
    unfold planAt plan?
    rw [h.length]
    by_cases room : q.waiting.card < capacity
    · rw [if_pos room]
      exact ⟨_, _, .accept room, rfl, h.accept sound kind time, rfl⟩
    · rw [if_neg room]
      exact ⟨_, _, .drop (Nat.le_antisymm sound.card (Nat.not_lt.1 room)), rfl, h, rfl⟩
  cases op with
  | planAt kind time => exact planned kind time
  | planAfter kind delay =>
    obtain ⟨o, q', step, rest⟩ := planned kind (min (q.now + delay) lastTime)
    rw [← h.now] at step rest
    exact ⟨o, q', .after (h.now ▸ step), rest⟩
  | advance cycles =>
    exact ⟨_, _, .advance, rfl, ⟨congrArg (· + cycles) h.now, h.listed⟩, rfl⟩
  | takeDue =>
    rcases h.head with ⟨he, hw⟩ | ⟨e, rest, he, first, agrees⟩
    · unfold perform takeDue
      rw [he]
      exact ⟨_, _, .early fun e hm => absurd (hw ▸ hm) (Multiset.notMem_zero e), rfl, h, rfl⟩
    · have taken : s.takeDue =
          if e.time ≤ q.now then (some ⟨e.kind, q.now - e.time⟩, ⟨q.now, rest⟩) else (none, s) := by
        unfold takeDue
        rw [he, h.now]
        rfl
      unfold perform
      rw [taken]
      split_ifs with time
      · exact ⟨_, _, .due first time, rfl, agrees q.now, rfl⟩
      · refine ⟨_, _, .early fun f hf => ?_, rfl, h, rfl⟩
        by_cases hne : f = e
        · exact hne ▸ Nat.lt_of_not_le time
        · have before := first.2 f hf hne
          unfold Ticket.Before at before
          omega
  | take =>
    unfold perform take
    rcases h.head with ⟨he, hw⟩ | ⟨e, rest, he, first, agrees⟩
    · rw [he]
      exact ⟨_, _, .empty hw, rfl, h, rfl⟩
    · rw [he, h.now]
      exact ⟨_, _, .take first, rfl, agrees _, rfl⟩
  | cancel kind =>
    obtain ⟨l, hl, sorted, he⟩ := h.listed
    refine ⟨_, _, .cancel, rfl, ⟨h.now, l.filter (·.kind ≠ kind), ?_, sorted.filter _, ?_⟩, rfl⟩
    · rw [← hl]
      simp
    · show s.events.filter _ = _
      rw [he, List.filter_map]
      rfl

theorem performAll_agrees (h : s.Agrees q) (sound : q.Sound) (journal : Journal) (ops : List (Operation κ)) :
    ∃ (l : Queue.History κ) (q' : Queue κ), l.map (·.1) = ops ∧ Queue.Run q l q' ∧
      (s.performAll journal ops).1 = l.map (·.2.due) ∧ (s.performAll journal ops).2.1.Agrees q' ∧
      (s.performAll journal ops).2.2 = l.foldl (fun j x => x.2.noted j) journal := by
  induction ops generalizing s q journal with
  | nil => exact ⟨[], q, rfl, .start, rfl, h, rfl⟩
  | cons op ops ih =>
    obtain ⟨o, q₁, step, answer, agrees, noted⟩ := perform_agrees h sound journal op
    obtain ⟨l, q', listed, run, answers, agrees', noted'⟩ :=
      ih agrees (step.sound sound) (s.perform journal op).2.2
    refine ⟨(op, o) :: l, q', congrArg (op :: ·) listed, run.cons step, ?_, agrees', ?_⟩
    · exact congrArg₂ List.cons answer answers
    · rw [List.foldl_cons, ← noted]
      exact noted'

namespace Agrees

theorem nextTime_eq_some_iff (h : s.Agrees q) (t : Nat) :
    s.nextTime = some t ↔ ∃ e, q.First e ∧ e.time = t := by
  unfold nextTime
  rcases h.head with ⟨he, hw⟩ | ⟨e, rest, he, first, -⟩
  · rw [he]
    refine ⟨fun h => (Option.some_ne_none t h.symm).elim, fun ⟨e, first, _⟩ => ?_⟩
    exact absurd (hw ▸ first.1) (Multiset.notMem_zero e)
  · rw [he]
    show some e.time = some t ↔ _
    rw [Option.some_inj]
    refine ⟨fun same => ⟨e, first, same⟩, fun ⟨f, first', same⟩ => ?_⟩
    rwa [first.unique first']

theorem untilNext_eq_some_iff (h : s.Agrees q) (n : Nat) :
    s.untilNext = some n ↔ ∃ e, q.First e ∧ e.time - q.now = n := by
  unfold untilNext
  rw [Option.map_eq_some_iff]
  constructor
  · rintro ⟨t, ht, rfl⟩
    obtain ⟨e, first, rfl⟩ := (h.nextTime_eq_some_iff t).1 ht
    exact ⟨e, first, by rw [h.now]⟩
  · rintro ⟨e, first, rfl⟩
    exact ⟨e.time, (h.nextTime_eq_some_iff _).2 ⟨e, first, rfl⟩, by rw [h.now]⟩

theorem isDue_iff (h : s.Agrees q) : s.isDue = true ↔ ∃ e ∈ q.waiting, e.time ≤ q.now := by
  unfold isDue
  rcases h.head with ⟨he, hw⟩ | ⟨e, rest, he, first, -⟩
  · rw [he, hw]
    simp
  · rw [he, h.now]
    show decide (e.time ≤ q.now) = true ↔ _
    rw [decide_eq_true_iff]
    refine ⟨fun time => ⟨e, first.1, time⟩, fun ⟨f, hf, time⟩ => ?_⟩
    by_cases hne : f = e
    · exact hne ▸ time
    · have before := first.2 f hf hne
      unfold Ticket.Before at before
      omega

end Agrees

/-- Every sequence of operations, from an empty schedule, goes as the rules of the queue say, and no other
way is open to the queue. Every ticket issued comes out once, or is cancelled, or still waits. -/
theorem refines_queue (ops : List (Operation κ)) (journal : Journal) :
    ∃ (l : Queue.History κ) (q : Queue κ) (s : Schedule κ),
      l.map (·.1) = ops ∧ Queue.Run {} l q ∧
      (∀ l' q', l'.map (·.1) = ops → Queue.Run {} l' q' → l' = l ∧ q' = q) ∧
      performAll {} journal ops = (l.map (·.2.due), s, l.foldl (fun j x => x.2.noted j) journal) ∧
      s.Agrees q ∧ q.Sound ∧
      l.accepted.map (·.number) = List.range q.issued ∧
      (l.accepted : Multiset (Ticket κ)) = l.returned + l.cancelled + q.waiting ∧
      (l.returned.Pairwise fun a b => a.time = b.time → a.number < b.number) ∧
      (s.isDue = true ↔ ∃ e ∈ q.waiting, e.time ≤ q.now) ∧
      (∀ t, s.nextTime = some t ↔ ∃ e, q.First e ∧ e.time = t) ∧
      (∀ n, s.untilNext = some n ↔ ∃ e, q.First e ∧ e.time - q.now = n) ∧
      s.pending = q.waiting.card := by
  obtain ⟨l, q, listed, run, answers, agrees, noted⟩ :=
    performAll_agrees (κ := κ) .initial .initial journal ops
  refine ⟨l, q, _, listed, run, fun l' q' listed' run' => ?_, ?_, agrees, run.sound .initial, ?_, ?_,
    run.inTurn.sorted, agrees.isDue_iff, agrees.nextTime_eq_some_iff, agrees.untilNext_eq_some_iff,
    agrees.length⟩
  · exact run'.deterministic run (listed'.trans listed.symm)
  · rw [← answers, ← noted]
  · rw [run.numbers, List.range_eq_range']
    rfl
  · rw [← run.account]
    exact (zero_add _).symm

end Schedule

end Lockstep
