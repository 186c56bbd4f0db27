import AppFit.Redis.Lists
import Mathlib.Data.List.Induction

/- No lost wake-up: whatever the clients do, no client is left waiting for a key
   that holds a list. The two registers of blocked clients agree all the time,
   and a list that clients wait for is in ready_keys until they are served. -/
set_option autoImplicit false
set_option linter.unusedSectionVars false

namespace AppFit.Redis

variable {Client Key Value : Type}

-- bpop.keys of the clients and blocking_keys of the database say the same.
structure Registered (server : Server Client Key Value) : Prop where
  once : (server.blocked.map Blocked.client).Nodup
  keyed : ∀ entry ∈ server.blocked, entry.keys ≠ [] ∧ entry.keys.Nodup
  listed : ∀ key client, client ∈ server.blockingKeys key ↔
    ∃ entry ∈ server.blocked, entry.client = client ∧ key ∈ entry.keys
  single : ∀ key, (server.blockingKeys key).Nodup

theorem registered_same (server next : Server Client Key Value) (registered : Registered server)
    (blocked : next.blocked = server.blocked) (keys : next.blockingKeys = server.blockingKeys) : Registered next := by
  refine ⟨?_, ?_, ?_, ?_⟩
  · rw [blocked]
    exact registered.once
  · rw [blocked]
    exact registered.keyed
  · rw [blocked, keys]
    exact registered.listed
  · rw [keys]
    exact registered.single

section Serving

variable [DecidableEq Client] [DecidableEq Key]

theorem erase_keys (client : Client) (keys : List Key) (waiting : Key → List Client) (distinct : keys.Nodup) (key : Key) :
    keys.foldl (fun waiting key => Function.update waiting key ((waiting key).erase client)) waiting key =
      if key ∈ keys then (waiting key).erase client else waiting key := by
  induction keys generalizing waiting with
  | nil => simp
  | cons first rest ih =>
      obtain ⟨absent, distinct⟩ := List.nodup_cons.mp distinct
      rw [List.foldl_cons, ih _ distinct]
      by_cases same : key = first
      · subst same
        rw [if_neg absent, if_pos List.mem_cons_self, Function.update_self]
      · rw [Function.update_of_ne same]
        simp only [List.mem_cons, same, false_or]

theorem unblock_keys (server : Server Client Key Value) (registered : Registered server) (client : Client) (key : Key) :
    (unblockClient server client).blockingKeys key = (server.blockingKeys key).erase client := by
  rw [unblockClient]
  cases found : findBlocked server client with
  | none =>
      have nobody : client ∉ server.blockingKeys key := by
        intro member
        obtain ⟨entry, inside, same, _⟩ := (registered.listed key client).mp member
        have missing := List.find?_eq_none.mp found entry inside
        exact missing (by simpa using same)
      exact (List.erase_of_not_mem nobody).symm
  | some entry =>
      have inside := List.mem_of_find?_eq_some found
      have named : entry.client = client := by simpa using List.find?_some found
      simp only
      rw [erase_keys client entry.keys _ (registered.keyed entry inside).2 key]
      by_cases member : key ∈ entry.keys
      · rw [if_pos member]
      · rw [if_neg member]
        refine (List.erase_of_not_mem ?_).symm
        intro waits
        obtain ⟨other, otherInside, same, otherKey⟩ := (registered.listed key client).mp waits
        have equal : other = entry := List.inj_on_of_nodup_map registered.once otherInside inside (same.trans named.symm)
        exact member (equal ▸ otherKey)

theorem unblock_blocked (server : Server Client Key Value) (client : Client) :
    (unblockClient server client).blocked = server.blocked.filter fun other => other.client ≠ client := by
  rw [unblockClient]
  cases found : findBlocked server client with
  | none =>
      refine (List.filter_eq_self.mpr fun entry inside => ?_).symm
      have missing := List.find?_eq_none.mp found entry inside
      simpa using missing
  | some entry => rfl

theorem unblock_registered (server : Server Client Key Value) (registered : Registered server) (client : Client) :
    Registered (unblockClient server client) := by
  have kept := unblock_blocked server client
  refine ⟨?_, ?_, ?_, ?_⟩
  · rw [kept]
    exact registered.once.sublist (List.filter_sublist.map _)
  · rw [kept]
    exact fun entry member => registered.keyed entry (List.mem_filter.mp member).1
  · intro key other
    rw [unblock_keys server registered, (registered.single key).mem_erase_iff, registered.listed, kept]
    simp only [List.mem_filter, ne_eq, decide_not, Bool.not_eq_eq_eq_not, Bool.not_true, decide_eq_false_iff_not]
    constructor
    · intro both
      obtain ⟨different, entry, inside, rfl, member⟩ := both
      exact ⟨entry, ⟨inside, different⟩, rfl, member⟩
    · intro found
      obtain ⟨entry, ⟨inside, different⟩, rfl, member⟩ := found
      exact ⟨different, entry, inside, rfl, member⟩
  · intro key
    rw [unblock_keys server registered]
    exact (registered.single key).erase client

theorem waiting_entry (server : Server Client Key Value) (registered : Registered server) (key : Key) (client : Client)
    (waits : client ∈ server.blockingKeys key) :
    ∃ entry ∈ server.blocked, findBlocked server client = some entry ∧ entry.client = client ∧ key ∈ entry.keys := by
  obtain ⟨entry, inside, same, member⟩ := (registered.listed key client).mp waits
  cases found : findBlocked server client with
  | none => exact absurd (by simpa using same) (List.find?_eq_none.mp found entry inside)
  | some other =>
      have otherInside := List.mem_of_find?_eq_some found
      have named : other.client = client := by simpa using List.find?_some found
      have equal : other = entry := List.inj_on_of_nodup_map registered.once otherInside inside (named.trans same.symm)
      exact ⟨entry, inside, by rw [equal], same, member⟩

theorem unblock_fewer (server : Server Client Key Value) (registered : Registered server) (key : Key) (client : Client)
    (waits : client ∈ server.blockingKeys key) :
    (unblockClient server client).blocked.length < server.blocked.length := by
  obtain ⟨entry, inside, _, same, _⟩ := waiting_entry server registered key client waits
  rw [unblock_blocked]
  exact List.length_filter_lt_length_iff_exists.mpr ⟨entry, inside, by simpa using same⟩

theorem unblock_dict (server : Server Client Key Value) (client : Client) :
    (unblockClient server client).dict = server.dict ∧ (unblockClient server client).readyKeys = server.readyKeys ∧
      (unblockClient server client).dbReadyKeys = server.dbReadyKeys ∧
      (unblockClient server client).replies = server.replies := by
  rw [unblockClient]
  cases findBlocked server client with
  | none => exact ⟨rfl, rfl, rfl, rfl⟩
  | some entry => exact ⟨rfl, rfl, rfl, rfl⟩

-- A list is never empty, and the clients that wait for one will be served.
def ListWell (server : Server Client Key Value) (key : Key) : Prop :=
  ∀ items, server.dict key = some (.list items) →
    items ≠ [] ∧ (server.blockingKeys key = [] ∨ key ∈ server.dbReadyKeys)

-- todo holds the keys of the list that is gone through.
structure Pending (server : Server Client Key Value) (todo : List Key) : Prop where
  registered : Registered server
  ready : ∀ key ∈ server.dbReadyKeys, key ∈ todo ∨ key ∈ server.readyKeys
  well : ∀ key, ListWell server key

structure Settled (server : Server Client Key Value) : Prop where
  pending : Pending server []
  idle : server.readyKeys = []

-- The same for the time in which the clients of one key are served; its list may
-- be empty then.
structure Serving (server : Server Client Key Value) (todo : List Key) (current : Key) : Prop where
  registered : Registered server
  ready : ∀ key ∈ server.dbReadyKeys, key ∈ todo ∨ key ∈ server.readyKeys
  well : ∀ key ≠ current, ListWell server key
  held : ∃ items, server.dict current = some (.list items)

def itemsOf (server : Server Client Key Value) (key : Key) : List Value :=
  match server.dict key with
  | some (.list items) => items
  | _ => []

-- The key that a push adds to both ready_keys, if it does.
def signals (server : Server Client Key Value) (key : Key) : List Key :=
  if (server.dict key).isSome || (server.blockingKeys key).isEmpty || decide (key ∈ server.dbReadyKeys) then [] else [key]

structure Pushed (server next : Server Client Key Value) (key : Key) (items : List Value) : Prop where
  dict : next.dict = Function.update server.dict key (some (.list items))
  blocked : next.blocked = server.blocked
  blockingKeys : next.blockingKeys = server.blockingKeys
  readyKeys : next.readyKeys = server.readyKeys ++ signals server key
  dbReadyKeys : next.dbReadyKeys = server.dbReadyKeys ++ signals server key
  replies : next.replies = server.replies

theorem push_value_pushed (side : Side) (key : Key) (server : Server Client Key Value) (value : Value)
    (pushes : isOther server key = false) :
    Pushed server (pushValue side key server value) key (listTypePush side (itemsOf server key) value) := by
  rw [pushValue, itemsOf]
  cases held : server.dict key with
  | none =>
      by_cases nobody : (server.blockingKeys key).isEmpty = true
      · constructor <;> simp [dbAdd, signalListAsReady, putItems, signals, held, nobody]
      · by_cases already : key ∈ server.dbReadyKeys
        · constructor <;> simp [dbAdd, signalListAsReady, putItems, signals, held, nobody, already]
        · constructor <;> simp [dbAdd, signalListAsReady, putItems, signals, held, nobody, already]
  | some object =>
      cases object with
      | list items => constructor <;> simp [putItems, signals, held]
      | other =>
          rw [isOther, held] at pushes
          cases pushes

theorem signals_key (server : Server Client Key Value) (key other : Key) (member : other ∈ signals server key) :
    other = key := by
  rw [signals] at member
  split at member
  · cases member
  · exact List.mem_singleton.mp member

theorem signalled_well (server : Server Client Key Value) (key : Key) (well : ListWell server key)
    (pushes : isOther server key = false) :
    server.blockingKeys key = [] ∨ key ∈ server.dbReadyKeys ++ signals server key := by
  cases held : server.dict key with
  | none =>
      by_cases nobody : server.blockingKeys key = []
      · exact .inl nobody
      · apply Or.inr
        by_cases already : key ∈ server.dbReadyKeys
        · exact List.mem_append_left _ already
        · rw [signals]
          simp [held, nobody, already]
  | some object =>
      cases object with
      | list items => exact (well items held).2.imp id (List.mem_append_left _)
      | other =>
          rw [isOther, held] at pushes
          cases pushes

theorem pushed_here (server next : Server Client Key Value) (key : Key) (items : List Value)
    (pushed : Pushed server next key items) (some : items ≠ []) (pushes : isOther server key = false)
    (well : ListWell server key) : ListWell next key := by
  intro held same
  rw [pushed.dict, Function.update_self, Option.some.injEq, Object.list.injEq] at same
  rw [pushed.blockingKeys, pushed.dbReadyKeys]
  exact ⟨same ▸ some, signalled_well server key well pushes⟩

theorem pushed_elsewhere (server next : Server Client Key Value) (key other : Key) (items : List Value)
    (pushed : Pushed server next key items) (different : other ≠ key) (well : ListWell server other) :
    ListWell next other := by
  intro held same
  rw [pushed.dict, Function.update_of_ne different] at same
  rw [pushed.blockingKeys, pushed.dbReadyKeys]
  obtain ⟨nonempty, served⟩ := well held same
  exact ⟨nonempty, served.imp id (List.mem_append_left _)⟩

theorem pushed_ready (server next : Server Client Key Value) (key : Key) (items : List Value) (todo : List Key)
    (pushed : Pushed server next key items)
    (ready : ∀ other ∈ server.dbReadyKeys, other ∈ todo ∨ other ∈ server.readyKeys) :
    ∀ other ∈ next.dbReadyKeys, other ∈ todo ∨ other ∈ next.readyKeys := by
  intro other member
  rw [pushed.dbReadyKeys] at member
  rw [pushed.readyKeys]
  rcases List.mem_append.mp member with old | new
  · exact (ready other old).imp id (List.mem_append_left _)
  · exact .inr (List.mem_append_right _ new)

theorem push_some (side : Side) (items : List Value) (value : Value) : listTypePush side items value ≠ [] := by
  cases side with
  | head => exact List.cons_ne_nil _ _
  | tail => simp [listTypePush]

theorem pending_pushed (server next : Server Client Key Value) (key : Key) (items : List Value) (todo : List Key)
    (pending : Pending server todo) (pushed : Pushed server next key items) (some : items ≠ [])
    (pushes : isOther server key = false) : Pending next todo := by
  refine ⟨?_, pushed_ready server next key items todo pushed pending.ready, ?_⟩
  · exact registered_same server next pending.registered pushed.blocked pushed.blockingKeys
  · intro other
    by_cases same : other = key
    · rw [same]
      exact pushed_here server next key items pushed some pushes (pending.well key)
    · exact pushed_elsewhere server next key other items pushed same (pending.well other)

theorem serving_pushed (server next : Server Client Key Value) (current key : Key) (items : List Value) (todo : List Key)
    (serving : Serving server todo current) (pushed : Pushed server next key items) (some : items ≠ [])
    (pushes : isOther server key = false) : Serving next todo current := by
  refine ⟨?_, pushed_ready server next key items todo pushed serving.ready, ?_, ?_⟩
  · exact registered_same server next serving.registered pushed.blocked pushed.blockingKeys
  · intro other different
    by_cases same : other = key
    · rw [same] at different ⊢
      exact pushed_here server next key items pushed some pushes (serving.well key different)
    · exact pushed_elsewhere server next key other items pushed same (serving.well other different)
  · obtain ⟨held, same⟩ := serving.held
    by_cases here : current = key
    · exact ⟨items, by rw [pushed.dict, here, Function.update_self]⟩
    · exact ⟨held, by rw [pushed.dict, Function.update_of_ne here, same]⟩

theorem serving_reply (server : Server Client Key Value) (todo : List Key) (current : Key) (client : Client)
    (reply : Reply Key Value) (serving : Serving server todo current) :
    Serving (addReply server client reply) todo current :=
  ⟨registered_same server _ serving.registered rfl rfl, serving.ready, serving.well, serving.held⟩

theorem pending_reply (server : Server Client Key Value) (todo : List Key) (client : Client) (reply : Reply Key Value)
    (pending : Pending server todo) : Pending (addReply server client reply) todo :=
  ⟨registered_same server _ pending.registered rfl rfl, pending.ready, pending.well⟩

theorem put_dict (server : Server Client Key Value) (key : Key) (items : List Value) :
    (putItems server key items).dict = Function.update server.dict key (some (.list items)) := rfl

theorem delete_dict (server : Server Client Key Value) (key : Key) :
    (dbDelete server key).dict = Function.update server.dict key none := rfl

theorem put_serving (server : Server Client Key Value) (todo : List Key) (key : Key) (items : List Value)
    (registered : Registered server) (ready : ∀ other ∈ server.dbReadyKeys, other ∈ todo ∨ other ∈ server.readyKeys)
    (well : ∀ other ≠ key, ListWell server other) : Serving (putItems server key items) todo key := by
  refine ⟨registered_same server _ registered rfl rfl, ready, ?_, items, Function.update_self key _ _⟩
  intro other different held same
  rw [put_dict, Function.update_of_ne different] at same
  exact well other different held same

theorem delete_empty_pending (server : Server Client Key Value) (todo : List Key) (key : Key)
    (serving : Serving server todo key)
    (served : server.blockingKeys key = [] ∨ key ∈ server.dbReadyKeys ∨ server.dict key = some (.list [])) :
    Pending (deleteEmpty server key) todo := by
  obtain ⟨items, held⟩ := serving.held
  cases items with
  | nil =>
      have deleted : deleteEmpty server key = dbDelete server key := by rw [deleteEmpty, held]
      rw [deleted]
      refine ⟨registered_same server _ serving.registered rfl rfl, serving.ready, ?_⟩
      intro other items same
      rw [delete_dict] at same
      by_cases here : other = key
      · rw [here, Function.update_self] at same
        cases same
      · rw [Function.update_of_ne here] at same
        exact serving.well other here items same
  | cons first rest =>
      have kept : deleteEmpty server key = server := by rw [deleteEmpty, held]
      rw [kept]
      refine ⟨serving.registered, serving.ready, ?_⟩
      intro other items same
      by_cases here : other = key
      · rw [here] at same ⊢
        rw [held, Option.some.injEq, Object.list.injEq] at same
        refine ⟨same ▸ List.cons_ne_nil first rest, ?_⟩
        rcases served with nobody | ready | empty
        · exact .inl nobody
        · exact .inr ready
        · rw [held] at empty
          cases empty
      · exact serving.well other here items same

theorem pop_none (side : Side) (items : List Value) (none : listTypePop side items = none) : items = [] := by
  cases side with
  | head => simpa [listTypePop] using none
  | tail => simpa [listTypePop] using none

theorem unblock_serving (server : Server Client Key Value) (todo : List Key) (current : Key) (client : Client)
    (serving : Serving server todo current) : Serving (unblockClient server client) todo current := by
  obtain ⟨dict, readyKeys, dbReadyKeys, _⟩ := unblock_dict server client
  refine ⟨unblock_registered server serving.registered client, ?_, ?_, ?_⟩
  · rw [dbReadyKeys, readyKeys]
    exact serving.ready
  · intro other different items held
    rw [dict] at held
    rw [unblock_keys server serving.registered, dbReadyKeys]
    obtain ⟨nonempty, served⟩ := serving.well other different items held
    exact ⟨nonempty, served.imp (fun nobody => by rw [nobody, List.erase_nil]) id⟩
  · rw [dict]
    exact serving.held

theorem is_other_list (server : Server Client Key Value) (key : Key) (items : List Value)
    (held : server.dict key = some (.list items)) : isOther server key = false := by
  rw [isOther, held]

-- Serving a client changes who waits only by what unblockClient has done.
theorem serve_client_spec (server : Server Client Key Value) (todo : List Key) (current : Key) (receiver : Client)
    (dstkey : Option Key) (value : Value) (serving : Serving server todo current) :
    Serving (serveClientBlockedOnList server receiver current dstkey value).1 todo current ∧
      (serveClientBlockedOnList server receiver current dstkey value).1.blockingKeys = server.blockingKeys ∧
      (serveClientBlockedOnList server receiver current dstkey value).1.blocked = server.blocked := by
  unfold serveClientBlockedOnList
  cases dstkey with
  | none => exact ⟨serving_reply server todo current receiver _ serving, rfl, rfl⟩
  | some destination =>
      cases other : isOther server destination with
      | true =>
          simp only [other, if_true]
          exact ⟨serving_reply server todo current receiver _ serving, rfl, rfl⟩
      | false =>
          have pushed := push_value_pushed .head destination server value other
          have kept := serving_pushed server _ current destination _ todo serving pushed (push_some _ _ _) other
          simp only [other, Bool.false_eq_true, if_false]
          exact ⟨serving_reply _ todo current receiver _ kept, pushed.blockingKeys, pushed.blocked⟩

theorem serve_receiver_spec (server : Server Client Key Value) (todo : List Key) (key : Key) (receiver : Client)
    (rest : List Client) (side : Side) (dstkey : Option Key) (popped : Value × List Value)
    (serving : Serving server todo key) (waiting : server.blockingKeys key = receiver :: rest) :
    Serving (serveReceiver server key receiver side dstkey popped) todo key ∧
      (serveReceiver server key receiver side dstkey popped).blockingKeys key = rest ∧
      (serveReceiver server key receiver side dstkey popped).blocked.length < server.blocked.length := by
  have put := put_serving server todo key popped.2 serving.registered serving.ready serving.well
  have unblocked := unblock_serving _ todo key receiver put
  have front : receiver ∈ (putItems server key popped.2).blockingKeys key := by
    change receiver ∈ server.blockingKeys key
    rw [waiting]
    exact List.mem_cons_self
  have fewer := unblock_fewer _ put.registered key receiver front
  have left : (unblockClient (putItems server key popped.2) receiver).blockingKeys key = rest := by
    rw [unblock_keys _ put.registered]
    change (server.blockingKeys key).erase receiver = rest
    rw [waiting, List.erase_cons_head]
  obtain ⟨kept, keys, blocked⟩ := serve_client_spec _ todo key receiver dstkey popped.1 unblocked
  rw [serveReceiver]
  split
  · exact ⟨kept, by rw [keys, left], by rw [blocked]; exact fewer⟩
  · obtain ⟨items, held⟩ := kept.held
    have pushed := push_value_pushed side key _ popped.1 (is_other_list _ key items held)
    refine ⟨serving_pushed _ _ key key _ todo kept pushed (push_some _ _ _) (is_other_list _ key items held), ?_, ?_⟩
    · rw [pushed.blockingKeys, keys, left]
    · rw [pushed.blocked, blocked]
      exact fewer

theorem serve_first_cases (server served : Server Client Key Value) (key : Key)
    (serves : serveFirst server key = some served) :
    ∃ receiver rest items popped, server.blockingKeys key = receiver :: rest ∧ server.dict key = some (.list items) ∧
      listTypePop (sideOf server receiver) items = some popped ∧
      served = serveReceiver server key receiver (sideOf server receiver) (targetOf server receiver) popped := by
  rw [serveFirst] at serves
  split at serves
  · rename_i receiver rest items waiting held
    obtain ⟨popped, taken, rfl⟩ := Option.map_eq_some_iff.mp serves
    exact ⟨receiver, rest, items, popped, waiting, held, taken, rfl⟩
  · cases serves

theorem serve_first_spec (server served : Server Client Key Value) (todo : List Key) (key : Key)
    (serving : Serving server todo key) (serves : serveFirst server key = some served) :
    Serving served todo key ∧ served.blockingKeys key = (server.blockingKeys key).tail ∧
      served.blocked.length < server.blocked.length := by
  obtain ⟨receiver, rest, _, popped, waiting, _, _, rfl⟩ := serve_first_cases server served key serves
  rw [waiting]
  exact serve_receiver_spec server todo key receiver rest _ _ popped serving waiting

theorem serve_first_stops (server : Server Client Key Value) (todo : List Key) (key : Key)
    (serving : Serving server todo key) (stops : serveFirst server key = none) :
    server.blockingKeys key = [] ∨ server.dict key = some (.list []) := by
  obtain ⟨items, held⟩ := serving.held
  rw [serveFirst, held] at stops
  cases waiting : server.blockingKeys key with
  | nil => exact .inl rfl
  | cons receiver rest =>
      simp only [waiting, Option.map_eq_none_iff] at stops
      rw [held, pop_none _ items stops]
      exact .inr rfl

-- A key becomes ready again only through a client that was served.
structure Progress (server next : Server Client Key Value) : Prop where
  fewer : next.blocked.length ≤ server.blocked.length
  ready : next.readyKeys = server.readyKeys ∨ next.blocked.length < server.blocked.length

theorem progress_trans (first second third : Server Client Key Value) (before : Progress first second)
    (after : Progress second third) : Progress first third := by
  refine ⟨Nat.le_trans after.fewer before.fewer, ?_⟩
  rcases after.ready with same | less
  · rcases before.ready with equal | less
    · exact .inl (same.trans equal)
    · exact .inr (Nat.lt_of_le_of_lt after.fewer less)
  · exact .inr (Nat.lt_of_lt_of_le less before.fewer)

theorem serve_clients_spec (numclients : Nat) (server : Server Client Key Value) (todo : List Key) (key : Key)
    (serving : Serving server todo key) (all : (server.blockingKeys key).length = numclients) :
    Serving (serveClients numclients server key) todo key ∧ Progress server (serveClients numclients server key) ∧
      ((serveClients numclients server key).blockingKeys key = [] ∨
        (serveClients numclients server key).dict key = some (.list [])) := by
  induction numclients generalizing server with
  | zero => exact ⟨serving, ⟨Nat.le_refl _, .inl rfl⟩, .inl (List.length_eq_zero_iff.mp all)⟩
  | succ numclients ih =>
      rw [serveClients]
      cases serves : serveFirst server key with
      | none => exact ⟨serving, ⟨Nat.le_refl _, .inl rfl⟩, serve_first_stops server todo key serving serves⟩
      | some served =>
          obtain ⟨kept, left, fewer⟩ := serve_first_spec server served todo key serving serves
          obtain ⟨last, progress, done⟩ := ih served kept (by rw [left, List.length_tail, all, Nat.add_sub_cancel])
          exact ⟨last, progress_trans server served _ ⟨Nat.le_of_lt fewer, .inr fewer⟩ progress, done⟩

theorem delete_empty_frame (server : Server Client Key Value) (key : Key) :
    (deleteEmpty server key).blocked = server.blocked ∧ (deleteEmpty server key).readyKeys = server.readyKeys ∧
      (deleteEmpty server key).blockingKeys = server.blockingKeys ∧
      (deleteEmpty server key).replies = server.replies := by
  rw [deleteEmpty]
  split <;> exact ⟨rfl, rfl, rfl, rfl⟩

theorem taken_ready (server : Server Client Key Value) (todo : List Key) (key : Key)
    (pending : Pending server (key :: todo)) :
    ∀ other ∈ server.dbReadyKeys.filter (· ≠ key), other ∈ todo ∨ other ∈ server.readyKeys := by
  intro other member
  obtain ⟨inside, different⟩ := List.mem_filter.mp member
  exact (pending.ready other inside).imp_left fun either =>
    (List.mem_cons.mp either).resolve_left (by simpa using different)

theorem taken_well (server : Server Client Key Value) (todo : List Key) (key other : Key)
    (pending : Pending server (key :: todo)) (different : other ≠ key) :
    ListWell (unmarkReady server key) other := by
  intro items held
  obtain ⟨nonempty, served⟩ := pending.well other items held
  exact ⟨nonempty, served.imp_right fun member => List.mem_filter.mpr ⟨member, by simpa using different⟩⟩

theorem taken_serving (server : Server Client Key Value) (todo : List Key) (key : Key) (items : List Value)
    (pending : Pending server (key :: todo)) (held : server.dict key = some (.list items)) :
    Serving (unmarkReady server key) todo key :=
  ⟨registered_same server _ pending.registered rfl rfl, taken_ready server todo key pending,
    fun other different => taken_well server todo key other pending different, items, held⟩

theorem serve_ready_spec (server : Server Client Key Value) (todo : List Key) (key : Key)
    (pending : Pending server (key :: todo)) :
    Pending (serveReady server key) todo ∧ Progress server (serveReady server key) := by
  rw [serveReady]
  split
  · rename_i items held
    obtain ⟨kept, progress, done⟩ := serve_clients_spec _ (unmarkReady server key) todo key
      (taken_serving server todo key items pending held) rfl
    obtain ⟨blocked, readyKeys, _⟩ :=
      delete_empty_frame (serveClients (server.blockingKeys key).length (unmarkReady server key) key) key
    refine ⟨delete_empty_pending _ todo key kept (done.imp_right .inr), ?_, ?_⟩
    · rw [blocked]
      exact progress.fewer
    · rw [blocked, readyKeys]
      exact progress.ready
  · rename_i noList
    refine ⟨⟨registered_same server _ pending.registered rfl rfl, taken_ready server todo key pending, ?_⟩,
      Nat.le_refl _, .inl rfl⟩
    intro other
    by_cases same : other = key
    · rw [same]
      exact fun items held => absurd held (noList items)
    · exact taken_well server todo key other pending same

theorem serve_all_spec (todo : List Key) (server : Server Client Key Value) (pending : Pending server todo) :
    Pending (todo.foldl serveReady server) [] ∧ Progress server (todo.foldl serveReady server) := by
  induction todo generalizing server with
  | nil => exact ⟨pending, Nat.le_refl _, .inl rfl⟩
  | cons key rest ih =>
      obtain ⟨kept, progress⟩ := serve_ready_spec server rest key pending
      obtain ⟨last, later⟩ := ih (serveReady server key) kept
      exact ⟨last, progress_trans server _ _ progress later⟩

theorem handle_idle (passes : Nat) (server : Server Client Key Value) (idle : server.readyKeys = []) :
    handleClientsBlockedOnLists passes server = server := by
  cases passes with
  | zero => rfl
  | succ passes => rw [handleClientsBlockedOnLists, idle, List.isEmpty_nil, if_pos rfl]

theorem pending_started (server : Server Client Key Value) (pending : Pending server []) :
    Pending (freshReadyKeys server) server.readyKeys := by
  refine ⟨registered_same server _ pending.registered rfl rfl, ?_, pending.well⟩
  exact fun key member => .inl ((pending.ready key member).resolve_left List.not_mem_nil)

-- The passes that are allowed are enough: all but the last unblock a client.
theorem handle_settled (passes : Nat) (server : Server Client Key Value) (pending : Pending server [])
    (enough : server.blocked.length < passes) : Settled (handleClientsBlockedOnLists passes server) := by
  induction passes generalizing server with
  | zero => exact absurd enough (Nat.not_lt_zero _)
  | succ passes ih =>
      rw [handleClientsBlockedOnLists]
      split
      · rename_i idle
        exact ⟨pending, List.isEmpty_iff.mp idle⟩
      · obtain ⟨done, progress⟩ := serve_all_spec server.readyKeys _ (pending_started server pending)
        rcases progress.ready with idle | fewer
        · rw [handle_idle passes _ idle]
          exact ⟨done, idle⟩
        · exact ih _ done (Nat.lt_of_lt_of_le fewer (Nat.le_of_lt_succ enough))

theorem push_values_pending (side : Side) (key : Key) (values : List Value) (server : Server Client Key Value)
    (todo : List Key) (pending : Pending server todo) (pushes : isOther server key = false) :
    Pending (values.foldl (pushValue side key) server) todo := by
  induction values generalizing server with
  | nil => exact pending
  | cons value rest ih =>
      have pushed := push_value_pushed side key server value pushes
      have list := is_other_list (pushValue side key server value) key _ (by rw [pushed.dict, Function.update_self])
      exact ih _ (pending_pushed server _ key _ todo pending pushed (push_some _ _ _) pushes) list

theorem take_pending (server : Server Client Key Value) (todo : List Key) (client : Client) (reply : Reply Key Value)
    (key : Key) (items rest : List Value) (pending : Pending server todo) (held : server.dict key = some (.list items)) :
    Pending (deleteEmpty (putItems (addReply server client reply) key rest) key) todo := by
  have replied := pending_reply server todo client reply pending
  have put := put_serving _ todo key rest replied.registered replied.ready fun other _ => replied.well other
  exact delete_empty_pending _ todo key put ((pending.well key items held).2.imp_right .inl)

theorem rpoplpush_pending (server : Server Client Key Value) (client : Client) (source dstkey : Key)
    (pending : Pending server []) : Pending (rpoplpushCommand server client source dstkey) [] := by
  rw [rpoplpushCommand]
  split
  · exact pending_reply server [] client _ pending
  · exact pending_reply server [] client _ pending
  · rename_i items held
    split
    · exact pending_reply server [] client _ pending
    · rename_i value rest _
      split
      · exact pending_reply server [] client _ pending
      · rename_i noOther
        have put := put_serving server [] source rest pending.registered pending.ready fun other _ => pending.well other
        have pushes : isOther (putItems server source rest) dstkey = false := by
          by_cases same : dstkey = source
          · exact is_other_list _ dstkey rest (by rw [put_dict, same, Function.update_self])
          · rw [isOther, put_dict, Function.update_of_ne same]
            simpa [isOther] using noOther
        have pushed := push_value_pushed .head dstkey _ value pushes
        have moved := serving_pushed _ _ source dstkey _ [] put pushed (push_some _ _ _) pushes
        refine delete_empty_pending _ [] source (serving_reply _ [] source client _ moved) ?_
        rcases (pending.well source items held).2 with nobody | ready
        · exact .inl (by rw [rpoplpushHandlePush, addReply, pushed.blockingKeys]; exact nobody)
        · exact .inr (.inl (by rw [rpoplpushHandlePush, addReply, pushed.dbReadyKeys]; exact List.mem_append_left _ ready))

-- What registering a client for its keys adds.
theorem block_keys (client : Client) (keys : List Key) (registered : List Key × (Key → List Client))
    (distinct : registered.1.Nodup) :
    (keys.foldl (blockForKey client) registered).1.Nodup ∧
      (∀ key, key ∈ (keys.foldl (blockForKey client) registered).1 ↔ key ∈ registered.1 ∨ key ∈ keys) ∧
      ∀ key, (keys.foldl (blockForKey client) registered).2 key =
        if key ∈ keys ∧ key ∉ registered.1 then registered.2 key ++ [client] else registered.2 key := by
  induction keys generalizing registered with
  | nil => simp [distinct]
  | cons first rest ih =>
      rw [List.foldl_cons, blockForKey]
      split
      · rename_i already
        obtain ⟨nodup, members, waiting⟩ := ih registered distinct
        refine ⟨nodup, ?_, ?_⟩
        · intro key
          rw [members, List.mem_cons]
          constructor
          · exact fun either => either.imp id .inr
          · rintro (old | rfl | later)
            · exact .inl old
            · exact .inl already
            · exact .inr later
        · intro key
          rw [waiting]
          by_cases same : key = first
          · rw [if_neg fun both => both.2 (same ▸ already), if_neg fun both => both.2 (same ▸ already)]
          · simp only [List.mem_cons, same, false_or]
      · rename_i fresh
        obtain ⟨nodup, members, waiting⟩ := ih (registered.1 ++ [first], Function.update registered.2 first
          (registered.2 first ++ [client])) (List.nodup_append.mpr ⟨distinct, List.nodup_singleton _, by
            intro old inside new single same
            rw [List.mem_singleton.mp single] at same
            exact fresh (same ▸ inside)⟩)
        refine ⟨nodup, ?_, ?_⟩
        · intro key
          rw [members]
          simp only [List.mem_append, List.mem_cons]
          tauto
        · intro key
          rw [waiting]
          by_cases same : key = first
          · subst same
            simp [fresh]
          · simp only [List.mem_append, List.mem_cons, List.not_mem_nil, or_false, same, false_or,
              Function.update_of_ne same]

theorem not_waiting (server : Server Client Key Value) (registered : Registered server) (client : Client)
    (free : findBlocked server client = none) (key : Key) : client ∉ server.blockingKeys key := by
  intro waits
  obtain ⟨entry, _, found, _⟩ := waiting_entry server registered key client waits
  rw [free] at found
  cases found

theorem block_blocking (server : Server Client Key Value) (client : Client) (side : Side) (keys : List Key)
    (target : Option Key) (key : Key) :
    (blockForKeys server client side keys target).blockingKeys key =
      if key ∈ keys then server.blockingKeys key ++ [client] else server.blockingKeys key := by
  have waiting := (block_keys client keys ([], server.blockingKeys) List.nodup_nil).2.2 key
  simpa [blockForKeys] using waiting

theorem block_pending (server : Server Client Key Value) (client : Client) (side : Side) (keys : List Key)
    (target : Option Key) (pending : Pending server []) (free : findBlocked server client = none) (some : keys ≠ [])
    (empty : ∀ key ∈ keys, ∀ items, server.dict key ≠ .some (.list items)) :
    Pending (blockForKeys server client side keys target) [] := by
  obtain ⟨nodup, members, _⟩ := block_keys client keys ([], server.blockingKeys) List.nodup_nil
  have waiting := block_blocking server client side keys target
  have registered := pending.registered
  refine ⟨⟨?_, ?_, ?_, ?_⟩, pending.ready, ?_⟩
  · rw [blockForKeys, List.map_append, List.nodup_append]
    refine ⟨registered.once, List.nodup_singleton _, ?_⟩
    intro old inside new single same
    rw [List.map_singleton, List.mem_singleton] at single
    obtain ⟨entry, member, named⟩ := List.mem_map.mp inside
    have missing := List.find?_eq_none.mp free entry member
    exact missing (by simpa using named.trans (same.trans single))
  · intro entry member
    rcases List.mem_append.mp member with old | new
    · exact registered.keyed entry old
    · rw [List.mem_singleton.mp new]
      refine ⟨?_, nodup⟩
      obtain ⟨first, rest, rfl⟩ := List.exists_cons_of_ne_nil some
      exact List.ne_nil_of_mem ((members first).mpr (.inr List.mem_cons_self))
  · intro key other
    have old := registered.listed key other
    have new := members key
    rw [waiting]
    constructor
    · intro waits
      split at waits
      · rename_i member
        rcases List.mem_append.mp waits with before | added
        · obtain ⟨entry, inside, named, keyed⟩ := old.mp before
          exact ⟨entry, List.mem_append_left _ inside, named, keyed⟩
        · exact ⟨_, List.mem_append_right _ (List.mem_singleton_self _), (List.mem_singleton.mp added).symm,
            new.mpr (.inr member)⟩
      · obtain ⟨entry, inside, named, keyed⟩ := old.mp waits
        exact ⟨entry, List.mem_append_left _ inside, named, keyed⟩
    · intro found
      obtain ⟨entry, inside, named, keyed⟩ := found
      rcases List.mem_append.mp inside with before | added
      · have waits := old.mpr ⟨entry, before, named, keyed⟩
        split
        · exact List.mem_append_left _ waits
        · exact waits
      · rw [List.mem_singleton.mp added] at named keyed
        rw [if_pos ((new.mp keyed).resolve_left List.not_mem_nil)]
        exact List.mem_append_right _ (List.mem_singleton.mpr named.symm)
  · intro key
    rw [waiting]
    split
    · refine List.nodup_append.mpr ⟨registered.single key, List.nodup_singleton _, ?_⟩
      intro old inside new single same
      rw [List.mem_singleton.mp single] at same
      exact not_waiting server registered client free key (same ▸ inside)
    · exact registered.single key
  · intro key items held
    have absent : key ∉ keys := fun member => empty key member items held
    rw [waiting, if_neg absent]
    exact pending.well key items held

theorem blocking_pop_pending (server : Server Client Key Value) (client : Client) (side : Side) (keys tried : List Key)
    (pending : Pending server []) (free : findBlocked server client = none) (some : keys ≠ [])
    (empty : ∀ key ∈ keys, key ∈ tried ∨ ∀ items, server.dict key ≠ .some (.list items)) :
    Pending (blockingPopGenericCommand server client side keys tried) [] := by
  induction tried with
  | nil =>
      rw [blockingPopGenericCommand]
      refine block_pending server client side keys none pending free some fun key member => ?_
      exact (empty key member).resolve_left List.not_mem_nil
  | cons key rest ih =>
      have later (noList : ∀ items, server.dict key ≠ .some (.list items)) :
          Pending (blockingPopGenericCommand server client side keys rest) [] := by
        refine ih fun other member => ?_
        rcases empty other member with inside | free
        · rcases List.mem_cons.mp inside with same | inRest
          · exact .inr (same ▸ noList)
          · exact .inl inRest
        · exact .inr free
      rw [blockingPopGenericCommand]
      split
      · rename_i missing
        exact later fun items held => by rw [missing] at held; cases held
      · exact pending_reply server [] client _ pending
      · rename_i items held
        split
        · rename_i stops
          exact absurd (pop_none side items stops) (pending.well key items held).1
        · exact take_pending server [] client _ key items _ pending held

theorem set_pending (server : Server Client Key Value) (key : Key) (pending : Pending server []) :
    Pending (setKey server key) [] := by
  have well : ∀ other items, Function.update server.dict key (some .other) other = some (.list items) →
      items ≠ [] ∧ (server.blockingKeys other = [] ∨ other ∈ server.dbReadyKeys) := by
    intro other items held
    by_cases same : other = key
    · rw [same, Function.update_self] at held
      cases held
    · rw [Function.update_of_ne same] at held
      exact pending.well other items held
  rw [setKey]
  split
  · exact ⟨registered_same server _ pending.registered rfl rfl, pending.ready, well⟩
  · exact ⟨registered_same server _ pending.registered rfl rfl, pending.ready, well⟩

theorem delete_pending (server : Server Client Key Value) (key : Key) (pending : Pending server []) :
    Pending (dbDelete server key) [] := by
  refine ⟨registered_same server _ pending.registered rfl rfl, pending.ready, ?_⟩
  intro other items held
  by_cases same : other = key
  · rw [delete_dict, same, Function.update_self] at held
    cases held
  · rw [delete_dict, Function.update_of_ne same] at held
    exact pending.well other items held

theorem delete_all_pending (keys : List Key) (server : Server Client Key Value) (pending : Pending server []) :
    Pending (keys.foldl dbDelete server) [] := by
  induction keys generalizing server with
  | nil => exact pending
  | cons key rest ih => exact ih _ (delete_pending server key pending)

theorem call_pending (server : Server Client Key Value) (client : Client) (command : Command Key Value)
    (pending : Pending server []) (free : findBlocked server client = none) : Pending (call server client command) [] := by
  cases command with
  | push side key value more =>
      rw [call, pushGenericCommand]
      split
      · exact pending_reply server [] client _ pending
      · rename_i noOther
        refine pending_reply _ [] client _ (push_values_pending side key _ server [] pending ?_)
        rw [isOther]
        split
        · rename_i other
          exact absurd other noOther
        · rfl
  | pop side key =>
      rw [call, popGenericCommand]
      split
      · exact pending_reply server [] client _ pending
      · exact pending_reply server [] client _ pending
      · rename_i items held
        split
        · exact pending_reply server [] client _ pending
        · exact take_pending server [] client _ key items _ pending held
  | blockingPop side key more =>
      exact blocking_pop_pending server client side _ _ pending free (List.cons_ne_nil key more) fun _ member => .inl member
  | rpoplpush source destination => exact rpoplpush_pending server client source destination pending
  | brpoplpush source destination =>
      rw [call, brpoplpushCommand]
      split
      · rename_i missing
        refine block_pending server client .tail [source] _ pending free (List.cons_ne_nil _ _) ?_
        intro key member items held
        rw [List.mem_singleton.mp member, missing] at held
        cases held
      · exact pending_reply server [] client _ pending
      · exact rpoplpush_pending server client source destination pending
  | set key => exact pending_reply _ [] client _ (set_pending server key pending)
  | del keys => exact pending_reply _ [] client _ (delete_all_pending keys server pending)

theorem unblock_pending (server : Server Client Key Value) (client : Client) (pending : Pending server []) :
    Pending (unblockClient server client) [] := by
  obtain ⟨dict, readyKeys, dbReadyKeys, _⟩ := unblock_dict server client
  refine ⟨unblock_registered server pending.registered client, ?_, ?_⟩
  · rw [dbReadyKeys, readyKeys]
    exact pending.ready
  · intro key items held
    rw [dict] at held
    rw [unblock_keys server pending.registered, dbReadyKeys]
    obtain ⟨nonempty, served⟩ := pending.well key items held
    exact ⟨nonempty, served.imp_left fun nobody => by rw [nobody, List.erase_nil]⟩

theorem execute_settled (server next : Server Client Key Value) (event : Event Client Key Value) (settled : Settled server)
    (executes : execute server event = some next) : Settled next := by
  have unblocked (other : Server Client Key Value) (pending : Pending other []) (idle : other.readyKeys = [])
      (client : Client) : Settled (unblockClient other client) :=
    ⟨unblock_pending other client pending, by rw [(unblock_dict other client).2.1, idle]⟩
  cases event with
  | command client command =>
      rw [execute] at executes
      split at executes
      · cases executes
      · rename_i free
        cases executes
        refine handle_settled _ _ (call_pending server client command settled.pending ?_) (Nat.lt_succ_self _)
        exact Option.not_isSome_iff_eq_none.mp free
  | timeout client =>
      rw [execute] at executes
      split at executes
      · cases executes
        exact unblocked _ (pending_reply server [] client _ settled.pending) settled.idle client
      · cases executes
  | disconnect client =>
      cases executes
      exact unblocked server settled.pending settled.idle client

theorem empty_settled : Settled (emptyServer : Server Client Key Value) := by
  refine ⟨⟨⟨List.nodup_nil, ?_, ?_, fun _ => List.nodup_nil⟩, ?_, ?_⟩, rfl⟩
  · exact fun entry member => absurd member List.not_mem_nil
  · intro key client
    constructor
    · exact fun member => absurd member List.not_mem_nil
    · intro found
      obtain ⟨entry, member, _⟩ := found
      exact absurd member List.not_mem_nil
  · exact fun key member => absurd member List.not_mem_nil
  · intro key items held
    cases held

theorem run_settled (events : List (Event Client Key Value)) (start server : Server Client Key Value)
    (settled : Settled start) (ran : events.foldlM execute start = some server) : Settled server := by
  induction events generalizing start with
  | nil =>
      cases ran
      exact settled
  | cons event rest ih =>
      rw [List.foldlM_cons] at ran
      obtain ⟨next, executed, later⟩ := Option.bind_eq_some_iff.mp ran
      exact ih next (execute_settled start next event settled executed) later

-- After every event: nobody waits for a key that holds a list, no list is empty,
-- and the two registers of waiting clients agree.
structure NobodyForgotten (server : Server Client Key Value) : Prop where
  served : ∀ key items, server.dict key = some (.list items) → items ≠ [] ∧ server.blockingKeys key = []
  registered : Registered server
  handled : server.readyKeys = [] ∧ server.dbReadyKeys = []

theorem settled_handled (server : Server Client Key Value) (settled : Settled server) :
    NobodyForgotten server := by
  have none : server.dbReadyKeys = [] := by
    refine List.eq_nil_iff_forall_not_mem.mpr fun key member => ?_
    rcases settled.pending.ready key member with never | ready
    · exact List.not_mem_nil never
    · rw [settled.idle] at ready
      exact List.not_mem_nil ready
  refine ⟨?_, settled.pending.registered, settled.idle, none⟩
  intro key items held
  obtain ⟨nonempty, served⟩ := settled.pending.well key items held
  refine ⟨nonempty, served.resolve_right ?_⟩
  rw [none]
  exact List.not_mem_nil

theorem nobody_forgotten (events : List (Event Client Key Value)) (server : Server Client Key Value)
    (ran : events.foldlM execute emptyServer = some server) : NobodyForgotten server :=
  settled_handled server (run_settled events emptyServer server empty_settled ran)

-- One push serves a BRPOPLPUSH, whose own push serves the client behind it.
def relayedPush : List (Event Nat Nat Nat) :=
  [.command 1 (.brpoplpush 10 20), .command 2 (.blockingPop .head 20 [30]), .command 3 (.push .tail 10 5 [])]

theorem relayed_push_served : ∃ server, relayedPush.foldlM execute emptyServer = some server ∧
    server.blocked.length = 0 ∧ server.dict 20 = none ∧ NobodyForgotten server :=
  ⟨_, rfl, rfl, rfl, nobody_forgotten relayedPush _ rfl⟩

end Serving

end AppFit.Redis
