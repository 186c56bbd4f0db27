import AppFit.Agent.Message
import AppFit.Lib.BlockingQueue

/- The Redis list that client.py pushes to and agent.main pops from. Any number of
   clients and agents are started and stopped in any order. -/
set_option autoImplicit false

namespace AppFit.Agent

open AppFit.Encoding AppFit.PyLiteral AppFit.Runs AppFit.BlockingQueue

inductive NetworkEvent where
  | client (words : List Bytes)
  | agent (name : Nat)
  | stop (name : Nat)
deriving DecidableEq

-- A client without sys.argv[1] ends before it pushes. blpop without a timeout
-- blocks the agent, and Redis forgets it when its container is stopped.
def toQueue : NetworkEvent → Option (Event Nat Bytes)
  | .client words => (clientMessage words).map fun msg => .push (strDict msg)
  | .agent name => some (.ask name)
  | .stop name => some (.leave name)

def networkStep (queue : Queue Nat Bytes) (event : NetworkEvent) : Queue Nat Bytes :=
  match toQueue event with
  | none => queue
  | some happens => queueStep queue happens

-- msgdict = eval(msg[1]) of each agent that was served, in the order of serving.
def received (queue : Queue Nat Bytes) : List (Nat × Option (List Pair)) :=
  queue.delivered.map fun delivery => (delivery.1, evalDict delivery.2)

def sent : List NetworkEvent → List (List Pair)
  | [] => []
  | .client words :: rest => (clientMessage words).toList ++ sent rest
  | _ :: rest => sent rest

def started : List NetworkEvent → List Nat
  | [] => []
  | .agent name :: rest => name :: started rest
  | _ :: rest => started rest

theorem network_run (queue : Queue Nat Bytes) (events : List NetworkEvent) :
    run networkStep queue events = run queueStep queue (events.filterMap toQueue) := by
  induction events generalizing queue with
  | nil => rfl
  | cons event rest ih =>
      rw [run_cons, ih, networkStep]
      cases happens : toQueue event with
      | none => rw [List.filterMap_cons_none happens]
      | some translated => rw [List.filterMap_cons_some happens, run_cons]

theorem pushes_sent (events : List NetworkEvent) : pushes (events.filterMap toQueue) = (sent events).map strDict := by
  induction events with
  | nil => rfl
  | cons event rest ih =>
      cases event with
      | client words => cases message : clientMessage words <;> simp [toQueue, message, pushes, sent, ih]
      | agent name => simp [toQueue, pushes, sent, ih]
      | stop name => simp [toQueue, pushes, sent, ih]

theorem asks_started (events : List NetworkEvent) : asks (events.filterMap toQueue) = started events := by
  induction events with
  | nil => rfl
  | cons event rest ih =>
      cases event with
      | client words => cases message : clientMessage words <;> simp [toQueue, message, asks, started, ih]
      | agent name => simp [toQueue, asks, started, ih]
      | stop name => simp [toQueue, asks, started, ih]

theorem left_stops (events : List NetworkEvent) (name : Nat) (runs : .stop name ∉ events) :
    .leave name ∉ events.filterMap toQueue := by
  intro leaves
  obtain ⟨event, member, same⟩ := List.mem_filterMap.mp leaves
  cases event with
  | client words =>
      obtain ⟨msg, _, same⟩ := Option.map_eq_some_iff.mp same
      cases same
  | agent other => cases same
  | stop other =>
      cases same
      exact runs member

-- Who asked, in order, without those that were stopped while they waited.
def asked (events : List NetworkEvent) : List Nat := (ledgerOf (events.filterMap toQueue)).asked

-- What reached an agent, what is still on the list and who still waits are
-- determined by the messages and the agents in the order in which they came.
structure ServedInOrder (events : List NetworkEvent) : Prop where
  order : (asked events).Sublist (started events)
  stays : ∀ name, .stop name ∉ events → (asked events).count name = (started events).count name
  received : received (run networkStep emptyQueue events) =
    ((asked events).zip (sent events)).map fun pair => (pair.1, some pair.2)
  stored : (run networkStep emptyQueue events).items = ((sent events).drop (asked events).length).map strDict
  waiting : (run networkStep emptyQueue events).waiting = (asked events).drop (sent events).length

theorem messages_served_in_order (events : List NetworkEvent) : ServedInOrder events := by
  have accounts := accounts_run (events.filterMap toQueue)
  have order := ledger_asked (⟨[], []⟩ : Ledger Nat Bytes) (events.filterMap toQueue)
  have stays := fun name runs => ledger_stays (⟨[], []⟩ : Ledger Nat Bytes) (events.filterMap toQueue) name
    (left_stops events name runs)
  have pushed : (ledgerOf (events.filterMap toQueue)).pushed = (sent events).map strDict := by
    rw [ledgerOf, ledger_pushed, pushes_sent, List.nil_append]
  obtain ⟨items, waiting⟩ := accounts_rest _ _ accounts
  rw [asks_started, List.nil_append] at order
  simp only [asks_started, List.nil_append] at stays
  rw [← network_run] at accounts items waiting
  rw [pushed] at items waiting
  refine ⟨order, stays, ?_, ?_, ?_⟩
  · rw [received, delivered_zip _ _ accounts, pushed, List.zip_map_right, List.map_map]
    refine List.map_congr_left fun pair _ => ?_
    simp only [Function.comp_apply, Prod.map, id, eval_str_dict]
  · rw [items, List.map_drop, asked]
  · rw [waiting, List.length_map, asked]

-- Stopped before the message comes, an agent does not count; stopped after it, it does.
example : asked [.agent 1, .agent 2, .stop 1, .client [python, clientPath, ascii "serve"], .stop 2] = [2] := by decide

end AppFit.Agent
