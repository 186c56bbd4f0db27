import Mathlib.Data.List.Basic
import Mathlib.Data.List.Induction

/- Runs of a deterministic machine over a finite list of events, and properties
   that hold at every step of a run. Nothing here knows what the states and the
   events are; an event that cannot happen in a state is excluded by a predicate
   along the run, not by a partial step function. -/
set_option autoImplicit false

namespace AppFit.Runs

variable {σ ε τ : Type}

def run (step : σ → ε → σ) (start : σ) (events : List ε) : σ := events.foldl step start

def Along (step : σ → ε → σ) (good : σ → ε → Prop) : σ → List ε → Prop
  | _, [] => True
  | state, event :: rest => good state event ∧ Along step good (step state event) rest

instance alongDecidable (step : σ → ε → σ) (good : σ → ε → Prop) [∀ state event, Decidable (good state event)] :
    ∀ (state : σ) (events : List ε), Decidable (Along step good state events)
  | _, [] => isTrue trivial
  | state, event :: rest =>
      have := alongDecidable step good (step state event) rest
      inferInstanceAs (Decidable (good state event ∧ Along step good (step state event) rest))

theorem run_nil (step : σ → ε → σ) (start : σ) : run step start [] = start := rfl

theorem run_cons (step : σ → ε → σ) (start : σ) (event : ε) (rest : List ε) :
    run step start (event :: rest) = run step (step start event) rest := rfl

theorem run_append (step : σ → ε → σ) (start : σ) (before after : List ε) :
    run step start (before ++ after) = run step (run step start before) after :=
  List.foldl_append

theorem along_append (step : σ → ε → σ) (good : σ → ε → Prop) (start : σ) (before after : List ε) :
    Along step good start (before ++ after) ↔
      Along step good start before ∧ Along step good (run step start before) after := by
  induction before generalizing start with
  | nil => simp [Along, run_nil]
  | cons event rest ih =>
      simp only [List.cons_append, Along, run_cons, ih, and_assoc]

-- The reading of Along that the statements about whole histories use: the
-- property holds of each event in the state the events before it lead to.
theorem along_iff_split (step : σ → ε → σ) (good : σ → ε → Prop) (start : σ) (events : List ε) :
    Along step good start events ↔
      ∀ before event after, events = before ++ event :: after → good (run step start before) event := by
  constructor
  · rintro all before event after rfl
    exact ((along_append step good start before (event :: after)).mp all).2.1
  · intro all
    induction events generalizing start with
    | nil => trivial
    | cons event rest ih =>
        refine ⟨all [] event rest rfl, ih (step start event) ?_⟩
        intro before next after split
        exact all (event :: before) next after (by rw [split]; rfl)

theorem exists_split_cons (mark event : ε) (rest : List ε) (good : List ε → Prop) :
    (∃ before after, event :: rest = before ++ mark :: after ∧ good after) ↔
      (event = mark ∧ good rest) ∨ ∃ before after, rest = before ++ mark :: after ∧ good after := by
  constructor
  · intro split
    obtain ⟨before, after, split, here⟩ := split
    cases before with
    | nil =>
        obtain ⟨rfl, rfl⟩ := List.cons.inj split
        exact .inl ⟨rfl, here⟩
    | cons head tail => exact .inr ⟨tail, after, (List.cons.inj split).2, here⟩
  · intro split
    rcases split with ⟨rfl, here⟩ | ⟨before, after, rfl, here⟩
    · exact ⟨[], rest, rfl, here⟩
    · exact ⟨event :: before, after, rfl, here⟩

theorem run_invariant (step : σ → ε → σ) (inv : σ → Prop) (start : σ) (events : List ε)
    (initially : inv start) (kept : ∀ state event, inv state → inv (step state event)) :
    inv (run step start events) := by
  induction events generalizing start with
  | nil => exact initially
  | cons event rest ih => exact ih (step start event) (kept start event initially)

theorem run_simulation (step : σ → ε → σ) (shadow : τ → ε → τ) (related : σ → τ → Prop)
    (kept : ∀ state ghost event, related state ghost → related (step state event) (shadow ghost event))
    (start : σ) (ghost : τ) (events : List ε) (initially : related start ghost) :
    related (run step start events) (run shadow ghost events) := by
  induction events generalizing start ghost with
  | nil => exact initially
  | cons event rest ih => exact ih _ _ (kept start ghost event initially)

theorem along_of_invariant (step : σ → ε → σ) (inv : σ → Prop) (condition good : σ → ε → Prop)
    (kept : ∀ state event, inv state → condition state event → good state event ∧ inv (step state event))
    (start : σ) (events : List ε) (initially : inv start) (all : Along step condition start events) :
    Along step good start events := by
  induction events generalizing start with
  | nil => trivial
  | cons event rest ih =>
      obtain ⟨here, next⟩ := kept start event initially all.1
      exact ⟨here, ih (step start event) next all.2⟩

-- The exact form: on legal steps related states agree on the property and the
-- condition, and stay related after a step at which the property holds.
theorem along_iff_of_legal_simulation (step : σ → ε → σ) (shadow : τ → ε → τ) (related : σ → τ → Prop)
    (legal good : σ → ε → Prop) (condition : τ → ε → Prop)
    (agree : ∀ state ghost event, related state ghost → legal state event →
      (good state event ↔ condition ghost event))
    (kept : ∀ state ghost event, related state ghost → legal state event → good state event →
      related (step state event) (shadow ghost event))
    (start : σ) (ghost : τ) (events : List ε) (initially : related start ghost)
    (allLegal : Along step legal start events) :
    Along step good start events ↔ Along shadow condition ghost events := by
  induction events generalizing start ghost with
  | nil => exact Iff.rfl
  | cons event rest ih =>
      have here := agree start ghost event initially allLegal.1
      constructor
      · intro all
        exact ⟨here.mp all.1, (ih _ _ (kept start ghost event initially allLegal.1 all.1) allLegal.2).mp all.2⟩
      · intro all
        have good := here.mpr all.1
        exact ⟨good, (ih _ _ (kept start ghost event initially allLegal.1 good) allLegal.2).mpr all.2⟩

theorem along_of_forall (step : σ → ε → σ) (good : σ → ε → Prop) (always : ∀ state event, good state event)
    (start : σ) (events : List ε) : Along step good start events := by
  induction events generalizing start with
  | nil => trivial
  | cons event rest ih => exact ⟨always start event, ih (step start event)⟩

theorem along_of_mem (step : σ → ε → σ) (good : ε → Prop) (start : σ) (events : List ε)
    (all : ∀ event ∈ events, good event) : Along step (fun _ event => good event) start events := by
  induction events generalizing start with
  | nil => trivial
  | cons event rest ih =>
      exact ⟨all event List.mem_cons_self, ih (step start event) fun later member => all later (List.mem_cons_of_mem _ member)⟩

theorem along_iff_of_simulation (step : σ → ε → σ) (shadow : τ → ε → τ) (related : σ → τ → Prop)
    (good : σ → ε → Prop) (condition : τ → ε → Prop)
    (agree : ∀ state ghost event, related state ghost → (good state event ↔ condition ghost event))
    (kept : ∀ state ghost event, related state ghost → good state event →
      related (step state event) (shadow ghost event))
    (start : σ) (ghost : τ) (events : List ε) (initially : related start ghost) :
    Along step good start events ↔ Along shadow condition ghost events :=
  along_iff_of_legal_simulation step shadow related (fun _ _ => True) good condition
    (fun state ghost event same _ => agree state ghost event same)
    (fun state ghost event same _ => kept state ghost event same) start ghost events initially
    (along_of_forall step (fun _ _ => True) (fun _ _ => trivial) start events)

theorem along_iff_of_invariant (step : σ → ε → σ) (inv : σ → Prop) (good condition : σ → ε → Prop)
    (agree : ∀ state event, inv state → (good state event ↔ condition state event))
    (kept : ∀ state event, inv state → good state event → inv (step state event))
    (start : σ) (events : List ε) (initially : inv start) :
    Along step good start events ↔ Along step condition start events := by
  refine along_iff_of_simulation step step (fun state ghost => state = ghost ∧ inv state) good condition
    ?_ ?_ start start events ⟨rfl, initially⟩
  · intro state ghost event both
    rw [← both.1]
    exact agree state event both.2
  · intro state ghost event both here
    rw [← both.1]
    exact ⟨rfl, kept state event both.2 here⟩

-- The last event of a run that is marked in the state it happens in.
structure Latest (step : σ → ε → σ) (marked : σ → ε → Prop) (start : σ) (events before : List ε) (event : ε)
    (after : List ε) : Prop where
  split : events = before ++ event :: after
  here : marked (run step start before) event
  last : Along step (fun state later => ¬ marked state later) (run step start (before ++ [event])) after

theorem latest_snoc (step : σ → ε → σ) (marked : σ → ε → Prop) (start : σ) (events before : List ε) (event next : ε)
    (after : List ε) :
    Latest step marked start (events ++ [next]) before event after ↔
      (marked (run step start events) next ∧ before = events ∧ event = next ∧ after = []) ∨
        ¬ marked (run step start events) next ∧
          ∃ earlier, after = earlier ++ [next] ∧ Latest step marked start events before event earlier := by
  constructor
  · intro latest
    obtain ⟨split, here, last⟩ := latest
    rcases List.eq_nil_or_concat after with rfl | ⟨earlier, final, rfl⟩
    · obtain ⟨rfl, same⟩ := List.append_inj' split rfl
      cases same
      exact .inl ⟨here, rfl, rfl, rfl⟩
    · rw [List.concat_eq_append] at split last ⊢
      rw [← List.cons_append, ← List.append_assoc] at split
      obtain ⟨rfl, same⟩ := List.append_inj' split rfl
      cases same
      rw [along_append, ← run_append, List.append_assoc] at last
      exact .inr ⟨last.2.1, earlier, rfl, rfl, here, last.1⟩
  · intro found
    rcases found with ⟨here, rfl, rfl, rfl⟩ | ⟨idle, earlier, rfl, split, here, last⟩
    · exact ⟨rfl, here, trivial⟩
    · refine ⟨by rw [split, List.append_assoc, List.cons_append], here, ?_⟩
      rw [along_append, ← run_append, List.append_assoc]
      rw [split] at idle
      exact ⟨last, idle, trivial⟩

-- What only marked events write is what the last of them wrote.
theorem latest_value {Stored : Type} (step : σ → ε → σ) (marked : σ → ε → Prop) (stored : σ → Option Stored)
    (written : σ → ε → Option Stored)
    (writes : ∀ state event, marked state event ∧ stored (step state event) = written state event ∨
      ¬ marked state event ∧ stored (step state event) = stored state)
    (start : σ) (events : List ε) (initially : stored start = none) (entry : Stored) :
    stored (run step start events) = some entry ↔
      ∃ before event after, Latest step marked start events before event after ∧
        written (run step start before) event = some entry := by
  induction events using List.reverseRecOn with
  | nil =>
      refine iff_of_false (by simp [run_nil, initially]) ?_
      intro found
      obtain ⟨before, event, after, latest, _⟩ := found
      exact absurd latest.split (by simp)
  | append_singleton events next ih =>
      rw [run_append, run_cons, run_nil]
      rcases writes (run step start events) next with ⟨here, value⟩ | ⟨idle, value⟩
      · simp only [latest_snoc, here, not_true, false_and, or_false, true_and, value]
        constructor
        · intro same
          exact ⟨events, next, [], ⟨rfl, rfl, rfl⟩, same⟩
        · intro found
          obtain ⟨before, event, after, ⟨rfl, rfl, rfl⟩, same⟩ := found
          exact same
      · simp only [latest_snoc, idle, false_and, false_or, not_false_eq_true, true_and, value, ih]
        constructor
        · intro found
          obtain ⟨before, event, after, latest, same⟩ := found
          exact ⟨before, event, after ++ [next], ⟨after, rfl, latest⟩, same⟩
        · intro found
          obtain ⟨before, event, _, ⟨after, rfl, latest⟩, same⟩ := found
          exact ⟨before, event, after, latest, same⟩

end AppFit.Runs
