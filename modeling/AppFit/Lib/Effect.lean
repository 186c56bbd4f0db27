import Mathlib.Data.List.Basic

/- Programs that change a state and may raise an exception, keeping what they had
   changed before it, and the rules for what they leave behind in both cases. -/
set_option autoImplicit false

namespace AppFit.Effect

variable {σ ε α β : Type}

def Program (σ ε α : Type) : Type := σ → Except ε α × σ

def Program.pure (value : α) : Program σ ε α := fun state => (.ok value, state)

def Program.bind (first : Program σ ε α) (next : α → Program σ ε β) : Program σ ε β := fun state =>
  match first state with
  | (.ok value, between) => next value between
  | (.error failure, between) => (.error failure, between)

instance : Monad (Program σ ε) where
  pure := Program.pure
  bind := Program.bind

def change (update : σ → σ) : Program σ ε Unit := fun state => (.ok (), update state)

def raise (failure : ε) : Program σ ε α := fun state => (.error failure, state)

def require (result : Option α) (failure : ε) : Program σ ε α :=
  match result with
  | some value => Program.pure value
  | none => raise failure

-- What holds after a normal end and what holds after an exception, of a run from
-- the given state.
def Ends (program : Program σ ε α) (state : σ) (normal : α → σ → Prop) (raised : ε → σ → Prop) : Prop :=
  match program state with
  | (.ok value, after) => normal value after
  | (.error failure, after) => raised failure after

theorem ends_pure (value : α) (state : σ) (normal : α → σ → Prop) (raised : ε → σ → Prop)
    (holds : normal value state) : Ends (Pure.pure value : Program σ ε α) state normal raised := holds

theorem ends_bind (first : Program σ ε α) (next : α → Program σ ε β) (state : σ) (between : α → σ → Prop)
    (normal : β → σ → Prop) (raised : ε → σ → Prop) (head : Ends first state between raised)
    (rest : ∀ value reached, between value reached → Ends (next value) reached normal raised) :
    Ends (first >>= next) state normal raised := by
  have step : (first >>= next) state = Program.bind first next state := rfl
  rw [Ends, step, Program.bind]
  rw [Ends] at head
  cases ended : first state with
  | mk result reached =>
      rw [ended] at head
      cases result with
      | ok value => exact rest value reached head
      | error failure => exact head

theorem ends_change (update : σ → σ) (state : σ) (normal : Unit → σ → Prop) (raised : ε → σ → Prop)
    (holds : normal () (update state)) : Ends (change update : Program σ ε Unit) state normal raised := holds

theorem ends_require (result : Option α) (failure : ε) (state : σ) (normal : α → σ → Prop) (raised : ε → σ → Prop)
    (present : ∀ value, result = some value → normal value state) (absent : result = none → raised failure state) :
    Ends (require result failure) state normal raised := by
  cases result with
  | none => exact absent rfl
  | some value => exact present value rfl

theorem ends_weaken (program : Program σ ε α) (state : σ) (normal other : α → σ → Prop) (raised lost : ε → σ → Prop)
    (holds : Ends program state normal raised) (keeps : ∀ value reached, normal value reached → other value reached)
    (fails : ∀ failure reached, raised failure reached → lost failure reached) : Ends program state other lost := by
  rw [Ends] at holds ⊢
  cases ended : program state with
  | mk result reached =>
      rw [ended] at holds
      cases result with
      | ok value => exact keeps value reached holds
      | error failure => exact fails failure reached holds

-- A loop that keeps an invariant of what it has gone through and of its result.
theorem ends_fold {ι : Type} (step : β → ι → Program σ ε β) (inv : List ι → β → σ → Prop) (raised : ε → σ → Prop)
    (items : List ι)
    (kept : ∀ done, ∀ item ∈ items, ∀ value state, inv done value state →
      Ends (step value item) state (fun next reached => inv (done ++ [item]) next reached) raised)
    (done : List ι) (value : β) (state : σ) (initially : inv done value state) :
    Ends (items.foldlM step value) state (fun result reached => inv (done ++ items) result reached) raised := by
  induction items generalizing done value state with
  | nil =>
      rw [List.foldlM_nil, List.append_nil]
      exact ends_pure value state _ raised initially
  | cons item rest ih =>
      rw [List.foldlM_cons]
      refine ends_bind _ _ state _ _ raised (kept done item List.mem_cons_self value state initially) ?_
      intro next reached here
      have later := ih (fun done item member => kept done item (List.mem_cons_of_mem _ member)) (done ++ [item]) next reached
        here
      rwa [List.append_assoc] at later

end AppFit.Effect
