import AppFit.Lib.Runs

/- A first-in first-out queue with consumers that block while it is empty and are
   served in the order in which they came. A consumer may leave while it is
   blocked. The ledger is the same queue as two lists: what was pushed, and who
   asked and did not leave. -/
set_option autoImplicit false

namespace AppFit.BlockingQueue

open AppFit.Runs

variable {Consumer Item : Type}

structure Queue (Consumer Item : Type) where
  items : List Item
  waiting : List Consumer
  delivered : List (Consumer × Item)

inductive Event (Consumer Item : Type) where
  | push (item : Item)
  | ask (consumer : Consumer)
  | leave (consumer : Consumer)

def emptyQueue : Queue Consumer Item := ⟨[], [], []⟩

def queueStep [DecidableEq Consumer] (queue : Queue Consumer Item) : Event Consumer Item → Queue Consumer Item
  | .push item =>
      match queue.waiting with
      | [] => { queue with items := queue.items ++ [item] }
      | first :: rest => { queue with waiting := rest, delivered := queue.delivered ++ [(first, item)] }
  | .ask consumer =>
      match queue.items with
      | [] => { queue with waiting := queue.waiting ++ [consumer] }
      | first :: rest => { queue with items := rest, delivered := queue.delivered ++ [(consumer, first)] }
  | .leave consumer => { queue with waiting := queue.waiting.filter (· ≠ consumer) }

structure Ledger (Consumer Item : Type) where
  pushed : List Item
  asked : List Consumer

def ledgerStep [DecidableEq Consumer] (ledger : Ledger Consumer Item) : Event Consumer Item → Ledger Consumer Item
  | .push item => { ledger with pushed := ledger.pushed ++ [item] }
  | .ask consumer => { ledger with asked := ledger.asked ++ [consumer] }
  | .leave consumer =>
      { ledger with
        asked := ledger.asked.take ledger.pushed.length ++
          (ledger.asked.drop ledger.pushed.length).filter (· ≠ consumer) }

def ledgerOf [DecidableEq Consumer] (events : List (Event Consumer Item)) : Ledger Consumer Item := run ledgerStep ⟨[], []⟩ events

structure Accounts (queue : Queue Consumer Item) (ledger : Ledger Consumer Item) : Prop where
  asked : ledger.asked = queue.delivered.map Prod.fst ++ queue.waiting
  pushed : ledger.pushed = queue.delivered.map Prod.snd ++ queue.items
  idle : queue.items = [] ∨ queue.waiting = []

section Steps

variable [DecidableEq Consumer]

theorem accounts_push (queue : Queue Consumer Item) (ledger : Ledger Consumer Item) (item : Item)
    (accounts : Accounts queue ledger) : Accounts (queueStep queue (.push item)) (ledgerStep ledger (.push item)) := by
  rw [queueStep, ledgerStep]
  cases waits : queue.waiting with
  | nil => exact ⟨by simp [accounts.asked, waits], by simp [accounts.pushed], .inr rfl⟩
  | cons first rest =>
      have nothing : queue.items = [] := accounts.idle.resolve_right (by simp [waits])
      exact ⟨by simp [accounts.asked, waits], by simp [accounts.pushed, nothing], .inl nothing⟩

theorem accounts_ask (queue : Queue Consumer Item) (ledger : Ledger Consumer Item) (consumer : Consumer)
    (accounts : Accounts queue ledger) : Accounts (queueStep queue (.ask consumer)) (ledgerStep ledger (.ask consumer)) := by
  rw [queueStep, ledgerStep]
  cases stored : queue.items with
  | nil => exact ⟨by simp [accounts.asked], by simp [accounts.pushed, stored], .inl rfl⟩
  | cons first rest =>
      have nobody : queue.waiting = [] := accounts.idle.resolve_left (by simp [stored])
      exact ⟨by simp [accounts.asked, nobody], by simp [accounts.pushed, stored], .inr nobody⟩

theorem accounts_leave (queue : Queue Consumer Item) (ledger : Ledger Consumer Item) (consumer : Consumer)
    (accounts : Accounts queue ledger) :
    Accounts (queueStep queue (.leave consumer)) (ledgerStep ledger (.leave consumer)) := by
  rw [queueStep, ledgerStep]
  refine ⟨?_, accounts.pushed, accounts.idle.imp_right fun nobody => by simp [nobody]⟩
  rcases accounts.idle with nothing | nobody
  · have served : ledger.pushed.length = (queue.delivered.map Prod.fst).length := by simp [accounts.pushed, nothing]
    simp only [served, accounts.asked, List.take_left, List.drop_left]
  · have enough : ledger.asked.length ≤ ledger.pushed.length := by simp [accounts.asked, accounts.pushed, nobody]
    simp only [List.take_of_length_le enough, List.drop_eq_nil_of_le enough, nobody, List.filter_nil, List.append_nil]
    rw [accounts.asked, nobody, List.append_nil]

theorem accounts_step (queue : Queue Consumer Item) (ledger : Ledger Consumer Item) (event : Event Consumer Item)
    (accounts : Accounts queue ledger) : Accounts (queueStep queue event) (ledgerStep ledger event) := by
  cases event with
  | push item => exact accounts_push queue ledger item accounts
  | ask consumer => exact accounts_ask queue ledger consumer accounts
  | leave consumer => exact accounts_leave queue ledger consumer accounts

theorem accounts_run (events : List (Event Consumer Item)) :
    Accounts (run queueStep emptyQueue events) (ledgerOf events) :=
  run_simulation queueStep ledgerStep Accounts accounts_step emptyQueue ⟨[], []⟩ events ⟨rfl, rfl, .inl rfl⟩

end Steps

theorem push_stored [DecidableEq Consumer] (items values : List Item) (delivered : List (Consumer × Item)) :
    run queueStep ⟨items, [], delivered⟩ (values.map .push) = ⟨items ++ values, [], delivered⟩ := by
  induction values generalizing items with
  | nil => rw [List.map_nil, run_nil, List.append_nil]
  | cons value rest ih =>
      rw [List.map_cons, run_cons, queueStep]
      exact (ih (items ++ [value])).trans (by rw [List.append_assoc, List.singleton_append])

theorem push_awaited [DecidableEq Consumer] (waiting : List Consumer) (values : List Item)
    (delivered : List (Consumer × Item)) :
    run queueStep ⟨[], waiting, delivered⟩ (values.map .push) =
      ⟨values.drop waiting.length, waiting.drop values.length, delivered ++ waiting.zip values⟩ := by
  induction values generalizing waiting delivered with
  | nil => simp [run_nil]
  | cons value rest ih =>
      cases waiting with
      | nil =>
          rw [push_stored]
          simp
      | cons first others =>
          rw [List.map_cons, run_cons, queueStep]
          exact (ih others _).trans (by simp)

theorem delivered_zip (queue : Queue Consumer Item) (ledger : Ledger Consumer Item) (accounts : Accounts queue ledger) :
    queue.delivered = ledger.asked.zip ledger.pushed := by
  rw [accounts.asked, accounts.pushed, List.zip_append (by simp), ← List.unzip_fst, ← List.unzip_snd,
    List.zip_unzip]
  rcases accounts.idle with nothing | nobody
  · rw [nothing, List.zip_nil_right, List.append_nil]
  · rw [nobody, List.zip_nil_left, List.append_nil]

theorem accounts_rest (queue : Queue Consumer Item) (ledger : Ledger Consumer Item) (accounts : Accounts queue ledger) :
    queue.items = ledger.pushed.drop ledger.asked.length ∧ queue.waiting = ledger.asked.drop ledger.pushed.length := by
  rw [accounts.asked, accounts.pushed]
  rcases accounts.idle with nothing | nobody
  · simp [nothing]
  · simp [nobody]

def pushes : List (Event Consumer Item) → List Item
  | [] => []
  | .push item :: rest => item :: pushes rest
  | _ :: rest => pushes rest

def asks : List (Event Consumer Item) → List Consumer
  | [] => []
  | .ask consumer :: rest => consumer :: asks rest
  | _ :: rest => asks rest

theorem ledger_pushed [DecidableEq Consumer] (ledger : Ledger Consumer Item) (events : List (Event Consumer Item)) :
    (run ledgerStep ledger events).pushed = ledger.pushed ++ pushes events := by
  induction events generalizing ledger with
  | nil => simp [run_nil, pushes]
  | cons event rest ih => cases event <;> simp [run_cons, ih, ledgerStep, pushes]

-- Leaving takes consumers out and never changes the order of the others.
theorem ledger_asked [DecidableEq Consumer] (ledger : Ledger Consumer Item) (events : List (Event Consumer Item)) :
    (run ledgerStep ledger events).asked.Sublist (ledger.asked ++ asks events) := by
  induction events generalizing ledger with
  | nil => simp [run_nil, asks]
  | cons event rest ih =>
      cases event with
      | push item => exact ih _
      | ask consumer =>
          have later := ih (ledgerStep ledger (.ask consumer))
          rwa [ledgerStep, List.append_assoc] at later
      | leave consumer =>
          have fewer : (ledgerStep ledger (.leave consumer)).asked.Sublist ledger.asked := by
            rw [ledgerStep]
            have kept := List.Sublist.append_left (List.filter_sublist (p := fun other => other ≠ consumer)
              (l := ledger.asked.drop ledger.pushed.length)) (ledger.asked.take ledger.pushed.length)
            rwa [List.take_append_drop] at kept
          exact (ih _).trans (fewer.append_right _)

theorem ledger_stays [DecidableEq Consumer] (ledger : Ledger Consumer Item) (events : List (Event Consumer Item))
    (consumer : Consumer) (stays : .leave consumer ∉ events) :
    (run ledgerStep ledger events).asked.count consumer = (ledger.asked ++ asks events).count consumer := by
  induction events generalizing ledger with
  | nil => simp [run_nil, asks]
  | cons event rest ih =>
      obtain ⟨here, later⟩ := not_or.mp (mt List.mem_cons.mpr stays)
      rw [run_cons, ih _ later, List.count_append]
      cases event with
      | push item => simp [ledgerStep, asks]
      | ask other => simp [ledgerStep, asks, Nat.add_assoc, List.count_cons, Nat.add_comm]
      | leave other =>
          have another : consumer ≠ other := fun same => here (by rw [same])
          have kept : ((ledger.asked.drop ledger.pushed.length).filter (· ≠ other)).count consumer =
              (ledger.asked.drop ledger.pushed.length).count consumer := List.count_filter (by simpa using another)
          have parts := congrArg (List.count consumer) (List.take_append_drop ledger.pushed.length ledger.asked)
          rw [List.count_append] at parts
          simp only [ledgerStep, asks, List.count_append, kept, parts]

end AppFit.BlockingQueue
