import AppFit.Redis.Waiting
import AppFit.Lib.BlockingQueue

/- One key of the server as a queue: as long as it is used by RPUSH and by BLPOP
   alone, it is the first-in first-out queue with waiting consumers, whatever is
   done with the other keys meanwhile. -/
set_option autoImplicit false
set_option linter.unusedSectionVars false

namespace AppFit.Redis

open AppFit.Runs AppFit.BlockingQueue

variable {Client Key Value : Type} [DecidableEq Client] [DecidableEq Key]

def elementOf (key : Key) : Client × Reply Key Value → Option (Client × Value)
  | (client, .element other value) => if other = key then some (client, value) else none
  | _ => none

-- The replies that carry an element of the key, in the order they were sent.
def elements (key : Key) (server : Server Client Key Value) : List (Client × Value) :=
  server.replies.filterMap (elementOf key)

def queueView (key : Key) (server : Server Client Key Value) : Queue Client Value :=
  ⟨itemsOf server key, server.blockingKeys key, elements key server⟩

def UsesAsQueue (queue : Key) : Command Key Value → Prop
  | .push side key _ _ => key = queue → side = .tail
  | .pop _ key => key ≠ queue
  | .blockingPop side key more => queue ∈ key :: more → side = .head ∧ more = []
  | .rpoplpush source destination => source ≠ queue ∧ destination ≠ queue
  | .brpoplpush source destination => source ≠ queue ∧ destination ≠ queue
  | .set key => key ≠ queue
  | .del keys => queue ∉ keys

def KeepsQueue (queue : Key) : Event Client Key Value → Prop
  | .command _ command => UsesAsQueue queue command
  | _ => True

def queueEvents (queue : Key) : Event Client Key Value → List (BlockingQueue.Event Client Value)
  | .command _ (.push _ key value more) => if key = queue then (value :: more).map .push else []
  | .command client (.blockingPop _ key _) => if key = queue then [.ask client] else []
  | .command _ _ => []
  | .timeout client => [.leave client]
  | .disconnect client => [.leave client]

-- Who waits for the queue does nothing else, and nobody moves elements to it.
structure Apart (queue : Key) (server : Server Client Key Value) : Prop where
  consumers : ∀ entry ∈ server.blocked, queue ∈ entry.keys →
    entry.side = .head ∧ entry.keys = [queue] ∧ entry.target = none
  targets : ∀ entry ∈ server.blocked, entry.target ≠ some queue
  list : isOther server queue = false

structure Untouched (queue : Key) (server next : Server Client Key Value) : Prop where
  dict : next.dict queue = server.dict queue
  waiting : next.blockingKeys queue = server.blockingKeys queue
  elements : elements queue next = elements queue server
  blocked : next.blocked ⊆ server.blocked
  ready : queue ∉ server.readyKeys → queue ∉ next.readyKeys

theorem untouched_refl (queue : Key) (server : Server Client Key Value) : Untouched queue server server :=
  ⟨rfl, rfl, rfl, List.Subset.refl _, id⟩

theorem untouched_trans (queue : Key) (first second third : Server Client Key Value)
    (before : Untouched queue first second) (after : Untouched queue second third) : Untouched queue first third :=
  ⟨after.dict.trans before.dict, after.waiting.trans before.waiting, after.elements.trans before.elements,
    List.Subset.trans after.blocked before.blocked, fun absent => after.ready (before.ready absent)⟩

theorem untouched_view (queue : Key) (server next : Server Client Key Value) (untouched : Untouched queue server next) :
    queueView queue next = queueView queue server := by
  rw [queueView, queueView, itemsOf, itemsOf, untouched.dict, untouched.waiting, untouched.elements]

theorem untouched_apart (queue : Key) (server next : Server Client Key Value) (untouched : Untouched queue server next)
    (apart : Apart queue server) : Apart queue next := by
  refine ⟨fun entry member => apart.consumers entry (untouched.blocked member),
    fun entry member => apart.targets entry (untouched.blocked member), ?_⟩
  rw [isOther, untouched.dict]
  exact apart.list

theorem untouched_reply (queue : Key) (server : Server Client Key Value) (client : Client) (reply : Reply Key Value)
    (foreign : elementOf queue (client, reply) = none) : Untouched queue server (addReply server client reply) := by
  refine ⟨rfl, rfl, ?_, List.Subset.refl _, id⟩
  rw [elements, elements, addReply, List.filterMap_append, List.filterMap_cons_none foreign, List.filterMap_nil,
    List.append_nil]

theorem untouched_put (queue key : Key) (server : Server Client Key Value) (items : List Value) (other : key ≠ queue) :
    Untouched queue server (putItems server key items) :=
  ⟨by rw [put_dict, Function.update_of_ne other.symm], rfl, rfl, List.Subset.refl _, id⟩

theorem untouched_delete (queue key : Key) (server : Server Client Key Value) (other : key ≠ queue) :
    Untouched queue server (dbDelete server key) :=
  ⟨by rw [delete_dict, Function.update_of_ne other.symm], rfl, rfl, List.Subset.refl _, id⟩

theorem untouched_delete_empty (queue key : Key) (server : Server Client Key Value) (other : key ≠ queue) :
    Untouched queue server (deleteEmpty server key) := by
  rw [deleteEmpty]
  split
  · exact untouched_delete queue key server other
  · exact untouched_refl queue server

theorem untouched_push (queue key : Key) (side : Side) (server : Server Client Key Value) (value : Value)
    (other : key ≠ queue) (pushes : isOther server key = false) :
    Untouched queue server (pushValue side key server value) := by
  have pushed := push_value_pushed side key server value pushes
  refine ⟨?_, by rw [pushed.blockingKeys], ?_, ?_, ?_⟩
  · rw [pushed.dict, Function.update_of_ne other.symm]
  · rw [elements, elements, pushed.replies]
  · rw [pushed.blocked]
    exact List.Subset.refl _
  · intro absent member
    rw [pushed.readyKeys] at member
    rcases List.mem_append.mp member with old | new
    · exact absent old
    · exact other (signals_key server key queue new).symm

theorem untouched_unblock (queue : Key) (server : Server Client Key Value) (client : Client)
    (registered : Registered server) (elsewhere : client ∉ server.blockingKeys queue) :
    Untouched queue server (unblockClient server client) := by
  obtain ⟨dict, readyKeys, _, replies⟩ := unblock_dict server client
  refine ⟨by rw [dict], ?_, ?_, ?_, ?_⟩
  · rw [unblock_keys server registered, List.erase_of_not_mem elsewhere]
  · rw [elements, elements, replies]
  · rw [unblock_blocked]
    exact List.filter_subset_self _
  · rw [readyKeys]
    exact id

section Elsewhere

variable (queue : Key)

theorem served_elsewhere (key : Key) (server : Server Client Key Value) (todo : List Key) (receiver : Client)
    (rest : List Client) (side : Side) (popped : Value × List Value) (other : key ≠ queue) (apart : Apart queue server)
    (serving : Serving server todo key) (waiting : server.blockingKeys key = receiver :: rest) :
    Untouched queue server (serveReceiver server key receiver side (targetOf server receiver) popped) := by
  have waits : receiver ∈ server.blockingKeys key := waiting ▸ List.mem_cons_self
  obtain ⟨entry, inside, found, _, keyed⟩ := waiting_entry server serving.registered key receiver waits
  have elsewhere : receiver ∉ server.blockingKeys queue := by
    intro consumer
    obtain ⟨same, _, again, _, queued⟩ := waiting_entry server serving.registered queue receiver consumer
    rw [found, Option.some.injEq] at again
    rw [(apart.consumers entry inside (again ▸ queued)).2.1] at keyed
    exact other (List.mem_singleton.mp keyed)
  have target : targetOf server receiver ≠ some queue := by
    rw [targetOf, found]
    exact apart.targets entry inside
  have put := put_serving server todo key popped.2 serving.registered serving.ready serving.well
  have unblocked := unblock_serving _ todo key receiver put
  have first := untouched_trans queue _ _ _ (untouched_put queue key server popped.2 other)
    (untouched_unblock queue _ receiver put.registered elsewhere)
  have served : Untouched queue (unblockClient (putItems server key popped.2) receiver)
      (serveClientBlockedOnList (unblockClient (putItems server key popped.2) receiver) receiver key
        (targetOf server receiver) popped.1).1 := by
    unfold serveClientBlockedOnList
    cases destination : targetOf server receiver with
    | none => exact untouched_reply queue _ receiver _ (if_neg other)
    | some dstkey =>
        have different : dstkey ≠ queue := fun same => target (by rw [destination, same])
        cases noList : isOther (unblockClient (putItems server key popped.2) receiver) dstkey with
        | true =>
            simp only [noList, if_true]
            exact untouched_reply queue _ receiver _ rfl
        | false =>
            simp only [noList, Bool.false_eq_true, if_false]
            exact untouched_trans queue _ _ _ (untouched_push queue dstkey .head _ popped.1 different noList)
              (untouched_reply queue _ receiver _ rfl)
  obtain ⟨kept, _, _⟩ := serve_client_spec _ todo key receiver (targetOf server receiver) popped.1 unblocked
  rw [serveReceiver]
  split
  · exact untouched_trans queue _ _ _ first served
  · obtain ⟨items, held⟩ := kept.held
    exact untouched_trans queue _ _ _ (untouched_trans queue _ _ _ first served)
      (untouched_push queue key side _ popped.1 other (is_other_list _ key items held))

theorem clients_elsewhere (numclients : Nat) (key : Key) (server : Server Client Key Value) (todo : List Key)
    (other : key ≠ queue) (apart : Apart queue server) (serving : Serving server todo key) :
    Untouched queue server (serveClients numclients server key) := by
  induction numclients generalizing server with
  | zero => exact untouched_refl queue server
  | succ numclients ih =>
      rw [serveClients]
      cases serves : serveFirst server key with
      | none => exact untouched_refl queue server
      | some served =>
          obtain ⟨receiver, rest, _, popped, waiting, _, _, rfl⟩ := serve_first_cases server served key serves
          have step := served_elsewhere queue key server todo receiver rest (sideOf server receiver) popped other apart
            serving waiting
          have kept := (serve_first_spec server _ todo key serving serves).1
          exact untouched_trans queue _ _ _ step (ih _ (untouched_apart queue server _ step apart) kept)

theorem ready_elsewhere (key : Key) (server : Server Client Key Value) (todo : List Key) (other : key ≠ queue)
    (apart : Apart queue server) (pending : Pending server (key :: todo)) :
    Untouched queue server (serveReady server key) := by
  have same : Untouched queue server (unmarkReady server key) := ⟨rfl, rfl, rfl, List.Subset.refl _, id⟩
  rw [serveReady]
  split
  · rename_i items held
    have serving := taken_serving server todo key items pending held
    exact untouched_trans queue _ _ _ (untouched_trans queue _ _ _ same (clients_elsewhere queue _ key _ todo other
      (untouched_apart queue server _ same apart) serving)) (untouched_delete_empty queue key _ other)
  · exact same

theorem all_elsewhere (todo : List Key) (server : Server Client Key Value) (others : queue ∉ todo)
    (apart : Apart queue server) (pending : Pending server todo) :
    Untouched queue server (todo.foldl serveReady server) := by
  induction todo generalizing server with
  | nil => exact untouched_refl queue server
  | cons key rest ih =>
      have other : key ≠ queue := fun same => others (same ▸ List.mem_cons_self)
      have step := ready_elsewhere queue key server rest other apart pending
      exact untouched_trans queue _ _ _ step (ih _ (fun member => others (List.mem_cons_of_mem _ member))
        (untouched_apart queue server _ step apart) (serve_ready_spec server rest key pending).1)

theorem handle_elsewhere (passes : Nat) (server : Server Client Key Value) (others : queue ∉ server.readyKeys)
    (apart : Apart queue server) (pending : Pending server []) :
    Untouched queue server (handleClientsBlockedOnLists passes server) := by
  induction passes generalizing server with
  | zero => exact untouched_refl queue server
  | succ passes ih =>
      rw [handleClientsBlockedOnLists]
      split
      · exact untouched_refl queue server
      · have started := pending_started server pending
        have same : Untouched queue server (freshReadyKeys server) :=
          ⟨rfl, rfl, rfl, List.Subset.refl _, fun _ => List.not_mem_nil⟩
        have pass := all_elsewhere queue server.readyKeys (freshReadyKeys server) others
          (untouched_apart queue server _ same apart) started
        have both := untouched_trans queue _ _ _ same pass
        exact untouched_trans queue _ _ _ both (ih _ (pass.ready List.not_mem_nil)
          (untouched_apart queue server _ both apart) (serve_all_spec server.readyKeys _ started).1)

end Elsewhere

section Queue

variable (queue : Key)

-- What the key holds, who waits for it and what was sent of it, with the clients
-- that are still blocked and the ready keys.
structure Holds (server next : Server Client Key Value) (items : List Value) (waiting : List Client)
    (sent : List (Client × Value)) : Prop where
  items : itemsOf next queue = items
  waiting : next.blockingKeys queue = waiting
  elements : elements queue next = elements queue server ++ sent
  blocked : next.blocked ⊆ server.blocked
  list : isOther next queue = false
  ready : next.readyKeys = server.readyKeys

theorem elements_reply (server : Server Client Key Value) (client : Client) (value : Value) :
    elements queue (addReply server client (.element queue value)) = elements queue server ++ [(client, value)] := by
  have here : elementOf queue (client, Reply.element queue value) = some (client, value) := if_pos rfl
  rw [elements, elements, addReply, List.filterMap_append, List.filterMap_cons_some here, List.filterMap_nil]

theorem consumer_sides (server : Server Client Key Value) (registered : Registered server) (apart : Apart queue server)
    (client : Client) (waits : client ∈ server.blockingKeys queue) :
    sideOf server client = .head ∧ targetOf server client = none := by
  obtain ⟨entry, inside, found, _, keyed⟩ := waiting_entry server registered queue client waits
  obtain ⟨side, _, target⟩ := apart.consumers entry inside keyed
  rw [sideOf, targetOf, found]
  exact ⟨side, target⟩

theorem apart_fewer (server next : Server Client Key Value) (apart : Apart queue server)
    (blocked : next.blocked ⊆ server.blocked) (list : isOther next queue = false) : Apart queue next :=
  ⟨fun entry member => apart.consumers entry (blocked member), fun entry member => apart.targets entry (blocked member),
    list⟩

theorem receiver_holds (server : Server Client Key Value) (todo : List Key) (receiver : Client) (rest : List Client)
    (value : Value) (left : List Value) (serving : Serving server todo queue)
    (waiting : server.blockingKeys queue = receiver :: rest) :
    Holds queue server (serveReceiver server queue receiver .head none (value, left)) left rest [(receiver, value)] ∧
      (serveReceiver server queue receiver .head none (value, left)).dict queue = some (.list left) := by
  have received : serveReceiver server queue receiver .head none (value, left) =
      addReply (unblockClient (putItems server queue left) receiver) receiver (.element queue value) := rfl
  obtain ⟨dict, readyKeys, _, replies⟩ := unblock_dict (putItems server queue left) receiver
  have held : (serveReceiver server queue receiver .head none (value, left)).dict queue = some (.list left) := by
    rw [received, addReply, dict, put_dict, Function.update_self]
  have blocked := unblock_blocked (putItems server queue left) receiver
  refine ⟨⟨by rw [itemsOf, held], ?_, ?_, ?_, is_other_list _ queue left held, ?_⟩, held⟩
  · exact (serve_receiver_spec server todo queue receiver rest .head none (value, left) serving waiting).2.1
  · rw [received, elements_reply, elements, replies]
    rfl
  · rw [received, addReply, blocked]
    exact List.filter_subset_self _
  · rw [received, addReply, readyKeys]
    rfl

theorem serve_consumers (numclients : Nat) (server : Server Client Key Value) (todo : List Key) (items : List Value)
    (apart : Apart queue server) (serving : Serving server todo queue) (held : server.dict queue = some (.list items))
    (all : (server.blockingKeys queue).length = numclients) :
    Holds queue server (serveClients numclients server queue) (items.drop (server.blockingKeys queue).length)
      ((server.blockingKeys queue).drop items.length) ((server.blockingKeys queue).zip items) := by
  induction numclients generalizing server items with
  | zero =>
      have nobody := List.length_eq_zero_iff.mp all
      rw [nobody]
      refine ⟨by rw [serveClients, itemsOf, held]; rfl, ?_, by simp [serveClients], List.Subset.refl _, ?_, rfl⟩
      · rw [serveClients, nobody, List.drop_nil]
      · exact is_other_list server queue items held
  | succ numclients ih =>
      cases waiting : server.blockingKeys queue with
      | nil =>
          rw [waiting] at all
          cases all
      | cons receiver rest =>
          obtain ⟨side, target⟩ := consumer_sides queue server serving.registered apart receiver
            (waiting ▸ List.mem_cons_self)
          have first : serveFirst server queue = (listTypePop .head items).map
              (serveReceiver server queue receiver .head none) := by
            rw [serveFirst, waiting, held]
            simp only [side, target]
          rw [serveClients, first]
          cases items with
          | nil =>
              refine ⟨by rw [itemsOf]; simp [listTypePop, held], ?_, ?_, ?_, ?_, rfl⟩
              · simpa [listTypePop] using waiting
              · simp [listTypePop]
              · exact List.Subset.refl _
              · exact is_other_list server queue [] held
          | cons value left =>
              have served : (listTypePop .head (value :: left)).map (serveReceiver server queue receiver .head none) =
                  some (serveReceiver server queue receiver .head none (value, left)) := rfl
              rw [served]
              obtain ⟨holds, next⟩ := receiver_holds queue server todo receiver rest value left serving waiting
              have kept := (serve_receiver_spec server todo queue receiver rest .head none (value, left) serving
                waiting).1
              have count : ((serveReceiver server queue receiver .head none (value, left)).blockingKeys queue).length =
                  numclients := by
                rw [waiting, List.length_cons] at all
                rw [holds.waiting]
                exact Nat.succ.inj all
              have later := ih _ left (apart_fewer queue server _ apart holds.blocked holds.list) kept next count
              rw [holds.waiting] at later
              refine ⟨later.items, later.waiting, ?_, ?_, later.list, later.ready.trans holds.ready⟩
              · rw [later.elements, holds.elements, List.append_assoc]
                rfl
              · exact List.Subset.trans later.blocked holds.blocked

theorem items_delete_empty (server : Server Client Key Value) :
    itemsOf (deleteEmpty server queue) queue = itemsOf server queue ∧
      (isOther server queue = false → isOther (deleteEmpty server queue) queue = false) := by
  rw [deleteEmpty]
  split
  · rename_i held
    rw [itemsOf, itemsOf, isOther, isOther, delete_dict, Function.update_self, held]
    exact ⟨rfl, id⟩
  · exact ⟨rfl, id⟩

theorem ready_consumers (server : Server Client Key Value) (todo : List Key) (items : List Value)
    (apart : Apart queue server) (pending : Pending server (queue :: todo))
    (held : server.dict queue = some (.list items)) :
    Holds queue server (serveReady server queue) (items.drop (server.blockingKeys queue).length)
      ((server.blockingKeys queue).drop items.length) ((server.blockingKeys queue).zip items) := by
  have serving := taken_serving server todo queue items pending held
  have unmarked : Apart queue (unmarkReady server queue) := apart_fewer queue server _ apart (List.Subset.refl _) apart.list
  have holds := serve_consumers queue (server.blockingKeys queue).length _ todo items unmarked serving held rfl
  have ready : serveReady server queue =
      deleteEmpty (serveClients (server.blockingKeys queue).length (unmarkReady server queue) queue) queue := by
    rw [serveReady, held]
  obtain ⟨blocked, readyKeys, blockingKeys, replies⟩ :=
    delete_empty_frame (serveClients (server.blockingKeys queue).length (unmarkReady server queue) queue) queue
  obtain ⟨same, list⟩ :=
    items_delete_empty queue (serveClients (server.blockingKeys queue).length (unmarkReady server queue) queue)
  rw [ready]
  refine ⟨same.trans holds.items, by rw [blockingKeys]; exact holds.waiting, ?_, ?_, list holds.list, ?_⟩
  · rw [elements, replies]
    exact holds.elements
  · rw [blocked]
    exact holds.blocked
  · rw [readyKeys]
    exact holds.ready

-- Several values are pushed as one: only the first push can signal the key.
theorem push_values_pushed (key : Key) (value : Value) (more : List Value) (server : Server Client Key Value)
    (pushes : isOther server key = false) :
    Pushed server ((value :: more).foldl (pushValue .tail key) server) key (itemsOf server key ++ value :: more) := by
  induction more generalizing server value with
  | nil => exact push_value_pushed .tail key server value pushes
  | cons next rest ih =>
      have first := push_value_pushed .tail key server value pushes
      have held : (pushValue .tail key server value).dict key = some (.list (itemsOf server key ++ [value])) := by
        rw [first.dict, Function.update_self]
        rfl
      have later := ih next (pushValue .tail key server value) (is_other_list _ key _ held)
      have nothing : signals (pushValue .tail key server value) key = [] := by
        rw [signals, held]
        rfl
      have items : itemsOf (pushValue .tail key server value) key = itemsOf server key ++ [value] := by
        rw [itemsOf, held]
      rw [items, List.append_assoc, List.singleton_append] at later
      rw [List.foldl_cons]
      refine ⟨?_, later.blocked.trans first.blocked, later.blockingKeys.trans first.blockingKeys, ?_, ?_,
        later.replies.trans first.replies⟩
      · rw [later.dict, first.dict, Function.update_idem]
      · rw [later.readyKeys, nothing, List.append_nil, first.readyKeys]
      · rw [later.dbReadyKeys, nothing, List.append_nil, first.dbReadyKeys]

theorem queue_missing (server : Server Client Key Value) (settled : Settled server) (apart : Apart queue server)
    (waits : server.blockingKeys queue ≠ []) : server.dict queue = none := by
  cases held : server.dict queue with
  | none => rfl
  | some object =>
      cases object with
      | list items => exact absurd ((settled_handled server settled).served queue items held).2 waits
      | other =>
          have noList := apart.list
          rw [isOther, held] at noList
          cases noList

-- The server between the push itself and the waiting clients.
structure PushCalled (server called : Server Client Key Value) (values : List Value) : Prop where
  held : called.dict queue = some (.list (itemsOf server queue ++ values))
  waiting : called.blockingKeys queue = server.blockingKeys queue
  elements : elements queue called = elements queue server
  apart : Apart queue called
  ready : called.readyKeys = signals server queue

theorem push_called (server : Server Client Key Value) (client : Client) (value : Value) (more : List Value)
    (settled : Settled server) (apart : Apart queue server) :
    PushCalled queue server (pushGenericCommand server client .tail queue (value :: more)) (value :: more) := by
  have pushed := push_values_pushed queue value more server apart.list
  let values := (value :: more).foldl (pushValue .tail queue) server
  have calls : pushGenericCommand server client .tail queue (value :: more) =
      addReply values client (.integer (listLength values queue)) := by
    rw [pushGenericCommand]
    split
    · rename_i other
      have noList := apart.list
      rw [isOther, other] at noList
      cases noList
    · rfl
  have held : values.dict queue = some (.list (itemsOf server queue ++ value :: more)) := by
    rw [pushed.dict, Function.update_self]
  have blocked : values.blocked ⊆ server.blocked := by
    rw [pushed.blocked]
    exact List.Subset.refl _
  have reply := untouched_reply queue values client (.integer (listLength values queue)) rfl
  rw [calls]
  refine ⟨reply.dict.trans held, reply.waiting.trans (by rw [pushed.blockingKeys]), ?_, ?_, ?_⟩
  · rw [reply.elements, elements, elements, pushed.replies]
  · exact untouched_apart queue values _ reply (apart_fewer queue server values apart blocked
      (is_other_list values queue _ held))
  · rw [addReply, pushed.readyKeys, settled.idle, List.nil_append]

theorem push_step (server : Server Client Key Value) (client : Client) (value : Value) (more : List Value) (passes : Nat)
    (settled : Settled server) (apart : Apart queue server) (free : findBlocked server client = none) :
    let next := handleClientsBlockedOnLists (passes + 1) (pushGenericCommand server client .tail queue (value :: more))
    queueView queue next = run queueStep (queueView queue server) ((value :: more).map .push) ∧ Apart queue next := by
  intro next
  have called := push_called queue server client value more settled apart
  have pending := call_pending server client (.push .tail queue value more) settled.pending free
  by_cases nobody : server.blockingKeys queue = []
  · have quiet : signals server queue = [] := by
      rw [signals, nobody]
      simp
    have idle : next = pushGenericCommand server client .tail queue (value :: more) :=
      handle_idle _ _ (called.ready.trans quiet)
    rw [idle]
    refine ⟨?_, called.apart⟩
    rw [queueView, queueView, nobody, push_stored, itemsOf, called.held, called.waiting, nobody, called.elements]
  · have missing := queue_missing queue server settled apart nobody
    have nothing : itemsOf server queue = [] := by rw [itemsOf, missing]
    have signal : signals server queue = [queue] := by
      rw [signals, missing, (settled_handled server settled).handled.2]
      simp [nobody]
    have ready := called.ready.trans signal
    have started := pending_started _ pending
    rw [call, ready] at started
    have fresh : Apart queue (freshReadyKeys (pushGenericCommand server client .tail queue (value :: more))) :=
      apart_fewer queue _ _ called.apart (List.Subset.refl _) called.apart.list
    have holds := ready_consumers queue _ [] _ fresh started called.held
    have idle : next = serveReady (freshReadyKeys (pushGenericCommand server client .tail queue (value :: more)))
        queue := by
      change handleClientsBlockedOnLists (passes + 1) _ = _
      rw [handleClientsBlockedOnLists, ready, List.isEmpty_cons, if_neg Bool.false_ne_true]
      exact handle_idle passes _ holds.ready
    rw [idle]
    refine ⟨?_, apart_fewer queue _ _ called.apart holds.blocked holds.list⟩
    have waiting : (freshReadyKeys (pushGenericCommand server client .tail queue (value :: more))).blockingKeys queue =
        server.blockingKeys queue := called.waiting
    have sent : elements queue (freshReadyKeys (pushGenericCommand server client .tail queue (value :: more))) =
        elements queue server := called.elements
    rw [queueView, queueView, nothing, push_awaited, holds.items, holds.waiting, holds.elements, waiting, sent, nothing,
      List.nil_append]

theorem block_apart (server : Server Client Key Value) (client : Client) (side : Side) (keys : List Key)
    (target : Option Key) (apart : Apart queue server)
    (consumer : queue ∈ keys → side = .head ∧ keys = [queue] ∧ target = none) (aim : target ≠ some queue) :
    Apart queue (blockForKeys server client side keys target) := by
  obtain ⟨_, members, _⟩ := block_keys client keys ([], server.blockingKeys) List.nodup_nil
  refine ⟨?_, ?_, apart.list⟩
  · intro entry inside queued
    rcases List.mem_append.mp inside with old | new
    · exact apart.consumers entry old queued
    · rw [List.mem_singleton.mp new] at queued ⊢
      obtain ⟨head, alone, nowhere⟩ := consumer (((members queue).mp queued).resolve_left List.not_mem_nil)
      refine ⟨head, ?_, nowhere⟩
      rw [alone, List.foldl_cons, List.foldl_nil, blockForKey, if_neg List.not_mem_nil, List.nil_append]
  · intro entry inside
    rcases List.mem_append.mp inside with old | new
    · exact apart.targets entry old
    · rw [List.mem_singleton.mp new]
      exact aim

theorem ask_step (server : Server Client Key Value) (client : Client) (passes : Nat) (settled : Settled server)
    (apart : Apart queue server) :
    let next := handleClientsBlockedOnLists passes (blockingPopGenericCommand server client .head [queue] [queue])
    queueView queue next = queueStep (queueView queue server) (.ask client) ∧ Apart queue next := by
  intro next
  cases held : server.dict queue with
  | none =>
      have called : blockingPopGenericCommand server client .head [queue] [queue] =
          blockForKeys server client .head [queue] none := by
        rw [blockingPopGenericCommand, held]
        rfl
      have idle : next = blockForKeys server client .head [queue] none := by
        change handleClientsBlockedOnLists passes _ = _
        rw [called, handle_idle]
        exact settled.idle
      have waiting := block_blocking server client .head [queue] none queue
      rw [if_pos (List.mem_singleton_self queue)] at waiting
      have nothing : itemsOf server queue = [] := by rw [itemsOf, held]
      rw [idle]
      refine ⟨?_, block_apart queue server client .head [queue] none apart (fun _ => ⟨rfl, rfl, rfl⟩)
        (Option.some_ne_none queue).symm⟩
      rw [queueView, waiting, queueView, queueStep, nothing]
      exact congrArg (fun items => Queue.mk items (server.blockingKeys queue ++ [client]) (elements queue server)) nothing
  | some object =>
      cases object with
      | other =>
          have noList := apart.list
          rw [isOther, held] at noList
          cases noList
      | list items =>
          obtain ⟨nonempty, nobody⟩ := (settled_handled server settled).served queue items held
          obtain ⟨value, rest, rfl⟩ := List.exists_cons_of_ne_nil nonempty
          let taken := putItems (addReply server client (.element queue value)) queue rest
          have called : blockingPopGenericCommand server client .head [queue] [queue] = deleteEmpty taken queue := by
            rw [blockingPopGenericCommand, held]
            rfl
          have frame := delete_empty_frame taken queue
          have idle : next = deleteEmpty taken queue := by
            change handleClientsBlockedOnLists passes _ = _
            rw [called, handle_idle]
            rw [frame.2.1]
            exact settled.idle
          have left : taken.dict queue = some (.list rest) := by rw [put_dict, Function.update_self]
          obtain ⟨same, list⟩ := items_delete_empty queue taken
          rw [idle]
          refine ⟨?_, ?_⟩
          · have items : itemsOf taken queue = rest := by rw [itemsOf, left]
            have stored : itemsOf server queue = value :: rest := by rw [itemsOf, held]
            have sent : elements queue (deleteEmpty taken queue) = elements queue server ++ [(client, value)] := by
              rw [← elements_reply, elements, frame.2.2.2]
              rfl
            rw [queueView, queueView, queueStep, same, items, stored, frame.2.2.1, sent]
            rfl
          · refine apart_fewer queue server _ apart ?_ (list (is_other_list taken queue rest left))
            rw [frame.1]
            exact List.Subset.refl _

theorem leave_step (server : Server Client Key Value) (client : Client) (registered : Registered server)
    (apart : Apart queue server) :
    queueView queue (unblockClient server client) = queueStep (queueView queue server) (.leave client) ∧
      Apart queue (unblockClient server client) := by
  obtain ⟨dict, _, _, replies⟩ := unblock_dict server client
  refine ⟨?_, apart_fewer queue server _ apart ?_ ?_⟩
  · have gone : (unblockClient server client).blockingKeys queue =
        (server.blockingKeys queue).filter (· ≠ client) := by
      rw [unblock_keys server registered, (registered.single queue).erase_eq_filter]
      exact List.filter_congr fun other _ => by simp [bne, beq_eq_decide]
    rw [queueView, queueView, queueStep, itemsOf, dict, gone, elements, replies]
    rfl
  · rw [unblock_blocked]
    exact List.filter_subset_self _
  · rw [isOther, dict]
    exact apart.list

-- What a command on other keys does: nothing to the queue, or it blocks its
-- client for other keys.
def Elsewhere (server : Server Client Key Value) (client : Client) (called : Server Client Key Value) : Prop :=
  Untouched queue server called ∨
    ∃ side keys target, called = blockForKeys server client side keys target ∧ queue ∉ keys ∧ target ≠ some queue

theorem push_elsewhere (server : Server Client Key Value) (side : Side) (key : Key) (values : List Value)
    (other : key ≠ queue) (pushes : isOther server key = false) :
    Untouched queue server (values.foldl (pushValue side key) server) := by
  induction values generalizing server with
  | nil => exact untouched_refl queue server
  | cons value rest ih =>
      have first := untouched_push queue key side server value other pushes
      have pushed := push_value_pushed side key server value pushes
      have list := is_other_list (pushValue side key server value) key _ (by rw [pushed.dict, Function.update_self])
      exact untouched_trans queue _ _ _ first (ih _ list)

theorem take_elsewhere (server : Server Client Key Value) (client : Client) (reply : Reply Key Value) (key : Key)
    (rest : List Value) (other : key ≠ queue) (foreign : elementOf queue (client, reply) = none) :
    Untouched queue server (deleteEmpty (putItems (addReply server client reply) key rest) key) := by
  have replied := untouched_reply queue server client reply foreign
  have put := untouched_put queue key (addReply server client reply) rest other
  exact untouched_trans queue _ _ _ (untouched_trans queue _ _ _ replied put) (untouched_delete_empty queue key _ other)

theorem rpoplpush_elsewhere (server : Server Client Key Value) (client : Client) (source dstkey : Key)
    (taken : source ≠ queue) (moved : dstkey ≠ queue) :
    Untouched queue server (rpoplpushCommand server client source dstkey) := by
  rw [rpoplpushCommand]
  split
  · exact untouched_reply queue server client _ rfl
  · exact untouched_reply queue server client _ rfl
  · split
    · exact untouched_reply queue server client _ rfl
    · rename_i value rest _
      split
      · exact untouched_reply queue server client _ rfl
      · rename_i noOther
        have pushes : isOther (putItems server source rest) dstkey = false := by
          by_cases same : dstkey = source
          · exact is_other_list _ dstkey rest (by rw [put_dict, same, Function.update_self])
          · rw [isOther, put_dict, Function.update_of_ne same]
            simpa [isOther] using noOther
        have put := untouched_put queue source server rest taken
        have pushed := untouched_push queue dstkey .head _ value moved pushes
        have replied := untouched_reply queue (pushValue .head dstkey (putItems server source rest) value) client
          (.bulk value) rfl
        exact untouched_trans queue _ _ _ (untouched_trans queue _ _ _ (untouched_trans queue _ _ _ put pushed) replied)
          (untouched_delete_empty queue source _ taken)

theorem blocking_pop_elsewhere (server : Server Client Key Value) (client : Client) (side : Side) (keys tried : List Key)
    (others : queue ∉ keys) (untried : queue ∉ tried) :
    Elsewhere queue server client (blockingPopGenericCommand server client side keys tried) := by
  induction tried with
  | nil => exact .inr ⟨side, keys, none, rfl, others, (Option.some_ne_none queue).symm⟩
  | cons key rest ih =>
      have other : key ≠ queue := fun same => untried (same ▸ List.mem_cons_self)
      have later := ih fun member => untried (List.mem_cons_of_mem _ member)
      rw [blockingPopGenericCommand]
      split
      · exact later
      · exact .inl (untouched_reply queue server client _ rfl)
      · split
        · exact later
        · exact .inl (take_elsewhere queue server client _ key _ other (if_neg other))

theorem set_elsewhere (server : Server Client Key Value) (key : Key) (other : key ≠ queue) :
    Untouched queue server (setKey server key) := by
  rw [setKey]
  split
  · exact ⟨Function.update_of_ne other.symm _ _, rfl, rfl, List.Subset.refl _, id⟩
  · exact ⟨Function.update_of_ne other.symm _ _, rfl, rfl, List.Subset.refl _, id⟩

theorem delete_elsewhere (keys : List Key) (server : Server Client Key Value) (others : queue ∉ keys) :
    Untouched queue server (keys.foldl dbDelete server) := by
  induction keys generalizing server with
  | nil => exact untouched_refl queue server
  | cons key rest ih =>
      have other : key ≠ queue := fun same => others (same ▸ List.mem_cons_self)
      exact untouched_trans queue _ _ _ (untouched_delete queue key server other)
        (ih _ fun member => others (List.mem_cons_of_mem _ member))

theorem call_elsewhere (server : Server Client Key Value) (client : Client) (command : Command Key Value)
    (uses : UsesAsQueue queue command) (nothing : queueEvents queue (.command client command) = []) :
    Elsewhere queue server client (call server client command) := by
  cases command with
  | push side key value more =>
      have other : key ≠ queue := by
        intro same
        rw [queueEvents, if_pos same] at nothing
        cases nothing
      refine .inl ?_
      rw [call, pushGenericCommand]
      split
      · exact untouched_reply queue server client _ rfl
      · rename_i noOther
        have pushes : isOther server key = false := by
          rw [isOther]
          split
          · rename_i other
            exact absurd other noOther
          · rfl
        exact untouched_trans queue _ _ _ (push_elsewhere queue server side key _ other pushes)
          (untouched_reply queue _ client _ rfl)
  | pop side key =>
      refine .inl ?_
      rw [call, popGenericCommand]
      split
      · exact untouched_reply queue server client _ rfl
      · exact untouched_reply queue server client _ rfl
      · split
        · exact untouched_reply queue server client _ rfl
        · exact take_elsewhere queue server client _ key _ uses rfl
  | blockingPop side key more =>
      have others : queue ∉ key :: more := by
        intro member
        obtain ⟨_, rfl⟩ := uses member
        rw [queueEvents, if_pos (List.mem_singleton.mp member).symm] at nothing
        cases nothing
      exact blocking_pop_elsewhere queue server client side _ _ others others
  | rpoplpush source destination => exact .inl (rpoplpush_elsewhere queue server client source destination uses.1 uses.2)
  | brpoplpush source destination =>
      rw [call, brpoplpushCommand]
      split
      · exact .inr ⟨.tail, [source], some destination, rfl, fun member => uses.1 (List.mem_singleton.mp member).symm,
          fun same => uses.2 (Option.some.inj same)⟩
      · exact .inl (untouched_reply queue server client _ rfl)
      · exact .inl (rpoplpush_elsewhere queue server client source destination uses.1 uses.2)
  | set key => exact .inl (untouched_trans queue _ _ _ (set_elsewhere queue server key uses)
      (untouched_reply queue _ client _ rfl))
  | del keys => exact .inl (untouched_trans queue _ _ _ (delete_elsewhere queue keys server uses)
      (untouched_reply queue _ client _ rfl))

theorem elsewhere_step (server : Server Client Key Value) (client : Client) (command : Command Key Value) (passes : Nat)
    (settled : Settled server) (apart : Apart queue server) (free : findBlocked server client = none)
    (elsewhere : Elsewhere queue server client (call server client command)) :
    let next := handleClientsBlockedOnLists passes (call server client command)
    queueView queue next = queueView queue server ∧ Apart queue next := by
  intro next
  rcases elsewhere with untouched | ⟨side, keys, target, blocks, others, aim⟩
  · have quiet : queue ∉ (call server client command).readyKeys :=
      untouched.ready (by rw [settled.idle]; exact List.not_mem_nil)
    have pending := call_pending server client command settled.pending free
    have served := handle_elsewhere queue passes _ quiet (untouched_apart queue server _ untouched apart) pending
    have both := untouched_trans queue _ _ _ untouched served
    exact ⟨untouched_view queue server next both, untouched_apart queue server next both apart⟩
  · have idle : next = blockForKeys server client side keys target := by
      change handleClientsBlockedOnLists passes _ = _
      rw [blocks, handle_idle]
      exact settled.idle
    have waiting := block_blocking server client side keys target queue
    rw [if_neg others] at waiting
    rw [idle]
    refine ⟨?_, block_apart queue server client side keys target apart (fun member => absurd member others) aim⟩
    rw [queueView, waiting]
    rfl

theorem command_step (server : Server Client Key Value) (client : Client) (command : Command Key Value) (passes : Nat)
    (settled : Settled server) (apart : Apart queue server) (free : findBlocked server client = none)
    (uses : UsesAsQueue queue command) :
    let next := handleClientsBlockedOnLists (passes + 1) (call server client command)
    queueView queue next = run queueStep (queueView queue server) (queueEvents queue (.command client command)) ∧
      Apart queue next := by
  intro next
  have elsewhere (nothing : queueEvents queue (.command client command) = []) :
      queueView queue next = run queueStep (queueView queue server) (queueEvents queue (.command client command)) ∧
        Apart queue next := by
    rw [nothing, run_nil]
    exact elsewhere_step queue server client command (passes + 1) settled apart free
      (call_elsewhere queue server client command uses nothing)
  cases command with
  | push side key value more =>
      by_cases same : key = queue
      · subst same
        cases uses rfl
        rw [queueEvents, if_pos rfl]
        exact push_step key server client value more passes settled apart free
      · exact elsewhere (if_neg same)
  | blockingPop side key more =>
      by_cases same : key = queue
      · subst same
        obtain ⟨rfl, rfl⟩ := uses List.mem_cons_self
        rw [queueEvents, if_pos rfl]
        exact ask_step key server client (passes + 1) settled apart
      · exact elsewhere (if_neg same)
  | pop side key => exact elsewhere rfl
  | rpoplpush source destination => exact elsewhere rfl
  | brpoplpush source destination => exact elsewhere rfl
  | set key => exact elsewhere rfl
  | del keys => exact elsewhere rfl

theorem execute_step (server next : Server Client Key Value) (event : Event Client Key Value) (settled : Settled server)
    (apart : Apart queue server) (keeps : KeepsQueue queue event) (executes : execute server event = some next) :
    queueView queue next = run queueStep (queueView queue server) (queueEvents queue event) ∧ Apart queue next := by
  cases event with
  | command client command =>
      rw [execute] at executes
      split at executes
      · cases executes
      · rename_i free
        cases executes
        exact command_step queue server client command _ settled apart (Option.not_isSome_iff_eq_none.mp free) keeps
  | timeout client =>
      rw [execute] at executes
      split at executes
      · cases executes
        have replied := untouched_reply queue server client .null rfl
        have registered := (pending_reply server [] client .null settled.pending).registered
        have left := leave_step queue (addReply server client .null) client registered
          (untouched_apart queue server _ replied apart)
        rw [untouched_view queue server _ replied] at left
        exact left
      · cases executes
  | disconnect client =>
      cases executes
      exact leave_step queue server client settled.pending.registered apart

theorem run_view (events : List (Event Client Key Value)) (start server : Server Client Key Value)
    (settled : Settled start) (apart : Apart queue start) (keeps : ∀ event ∈ events, KeepsQueue queue event)
    (ran : events.foldlM execute start = some server) :
    queueView queue server = run queueStep (queueView queue start) (events.flatMap (queueEvents queue)) := by
  induction events generalizing start with
  | nil =>
      cases ran
      rfl
  | cons event rest ih =>
      rw [List.foldlM_cons] at ran
      obtain ⟨next, executed, later⟩ := Option.bind_eq_some_iff.mp ran
      obtain ⟨view, kept⟩ := execute_step queue start next event settled apart (keeps event List.mem_cons_self) executed
      have rest := ih next (execute_settled start next event settled executed) kept
        (fun other member => keeps other (List.mem_cons_of_mem _ member)) later
      rw [List.flatMap_cons, run_append, ← view]
      exact rest

theorem empty_apart : Apart queue (emptyServer : Server Client Key Value) :=
  ⟨fun _ member => absurd member List.not_mem_nil, fun _ member => absurd member List.not_mem_nil, rfl⟩

-- The elements of the key go to the clients that asked for them in the order of
-- both, and what is left of the two is what the key holds and who waits for it.
theorem key_is_queue (events : List (Event Client Key Value)) (server : Server Client Key Value)
    (keeps : ∀ event ∈ events, KeepsQueue queue event) (ran : events.foldlM execute emptyServer = some server) :
    queueView queue server = run queueStep emptyQueue (events.flatMap (queueEvents queue)) ∧
      elements queue server = (ledgerOf (events.flatMap (queueEvents queue))).asked.zip
        (ledgerOf (events.flatMap (queueEvents queue))).pushed := by
  have view := run_view queue events emptyServer server empty_settled (empty_apart queue) keeps ran
  have accounts := accounts_run (events.flatMap (queueEvents queue))
  refine ⟨view, ?_⟩
  rw [← delivered_zip _ _ accounts]
  exact congrArg Queue.delivered view

end Queue

-- Two consumers of key 10 and a producer, with a BRPOPLPUSH on other keys between.
def sharedServer : List (Event Nat Nat Nat) :=
  [.command 1 (.blockingPop .head 10 []), .command 2 (.brpoplpush 20 30), .command 3 (.blockingPop .head 10 []),
    .command 4 (.push .head 20 8 []), .command 4 (.push .tail 10 5 [6, 7]), .command 2 (.del [30]), .disconnect 3]

theorem shared_key_is_queue : ∃ server, sharedServer.foldlM execute emptyServer = some server ∧
    queueView 10 server = ⟨[7], [], [(1, 5), (3, 6)]⟩ ∧
    elements 10 server = (ledgerOf (sharedServer.flatMap (queueEvents 10))).asked.zip
      (ledgerOf (sharedServer.flatMap (queueEvents 10))).pushed := by
  have keeps : ∀ event ∈ sharedServer, KeepsQueue 10 event := by
    simp [sharedServer, KeepsQueue, UsesAsQueue]
  exact ⟨_, rfl, rfl, (key_is_queue 10 sharedServer _ keeps rfl).2⟩

end AppFit.Redis
