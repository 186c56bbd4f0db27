import AppFit.Redis.ListEncoding
import AppFit.Redis.Waiting

/- The list commands on encoded lists (t_list.c), with the reallocations, conversions
   and numbers that Lists leaves out, and with limits that CONFIG SET may change
   between two commands: they give the replies of the commands on plain lists. The
   blocking commands are left to Lists. -/
set_option autoImplicit false

namespace AppFit.Redis.Encoded

open AppFit.Memory AppFit.Redis

variable {Client Key : Type}

inductive Stored where
  | list (object : ListObject)
  | other

structure Store (Client Key : Type) where
  dict : Key → Option Stored
  replies : List (Client × Reply Key Bytes)

def emptyStore : Store Client Key := ⟨fun _ => none, []⟩

inductive ListCommand (Key : Type) where
  | push (side : Side) (key : Key) (value : Bytes) (more : List Bytes)
  | pop (side : Side) (key : Key)
  | rpoplpush (source destination : Key)
  | set (key : Key)
  | del (keys : List Key)

structure Request (Client Key : Type) where
  client : Client
  limits : Limits
  command : ListCommand Key

def addReply (store : Store Client Key) (client : Client) (reply : Reply Key Bytes) : Store Client Key :=
  { store with replies := store.replies ++ [(client, reply)] }

def addReplyBulk (store : Store Client Key) (client : Client) (value : StringObject) : Option (Store Client Key) := do
  let bytes ← getDecodedObject value
  some (addReply store client (.bulk bytes))

def isOther (store : Store Client Key) (key : Key) : Bool :=
  match store.dict key with
  | some .other => true
  | _ => false

section Commands

variable [DecidableEq Key]

def putObject (store : Store Client Key) (key : Key) (object : ListObject) : Store Client Key :=
  { store with dict := Function.update store.dict key (some (.list object)) }

def dbDelete (store : Store Client Key) (key : Key) : Store Client Key :=
  { store with dict := Function.update store.dict key none }

def setKey (store : Store Client Key) (key : Key) : Store Client Key :=
  { store with dict := Function.update store.dict key (some .other) }

def deleteEmpty (store : Store Client Key) (key : Key) : Option (Store Client Key) :=
  match store.dict key with
  | some (.list object) => do
      let (length, counted) ← listTypeLength object
      some (if length = 0 then dbDelete store key else putObject store key counted)
  | _ => some store

def replyLength (store : Store Client Key) (client : Client) (key : Key) : Option (Store Client Key) :=
  match store.dict key with
  | some (.list object) => do
      let (length, counted) ← listTypeLength object
      some (addReply (putObject store key counted) client (.integer length))
  | _ => some (addReply store client (.integer 0))

variable (junk : Bytes → Nat → UInt8)

def pushValue (limits : Limits) (side : Side) (key : Key) (store : Store Client Key) (value : StringObject) :
    Option (Store Client Key) :=
  match store.dict key with
  | none => do
      let pushed ← listTypePush junk limits createZiplistObject value side
      some (putObject store key pushed)
  | some (.list object) => do
      let pushed ← listTypePush junk limits object value side
      some (putObject store key pushed)
  | some .other => some store

def pushGenericCommand (store : Store Client Key) (client : Client) (limits : Limits) (side : Side) (key : Key)
    (values : List Bytes) : Option (Store Client Key) :=
  if isOther store key then some (addReply store client .wrongType)
  else do
    let pushed ← values.foldlM (fun store bytes => pushValue junk limits side key store (tryObjectEncoding bytes)) store
    replyLength pushed client key

def popGenericCommand (store : Store Client Key) (client : Client) (side : Side) (key : Key) :
    Option (Store Client Key) :=
  match store.dict key with
  | none => some (addReply store client .null)
  | some .other => some (addReply store client .wrongType)
  | some (.list object) => do
      let (popped, left) ← listTypePop junk object side
      match popped with
      | none => some (addReply store client .null)
      | some value => do
          let replied ← addReplyBulk store client value
          deleteEmpty (putObject replied key left) key

def rpoplpushHandlePush (store : Store Client Key) (client : Client) (limits : Limits) (dstkey : Key)
    (value : StringObject) : Option (Store Client Key) := do
  let pushed ← pushValue junk limits .head dstkey store value
  addReplyBulk pushed client value

-- A pop that gives no value would be used as a null pointer.
def rpoplpushCommand (store : Store Client Key) (client : Client) (limits : Limits) (source dstkey : Key) :
    Option (Store Client Key) :=
  match store.dict source with
  | none => some (addReply store client .null)
  | some .other => some (addReply store client .wrongType)
  | some (.list object) => do
      let (length, counted) ← listTypeLength object
      let measured := putObject store source counted
      if length = 0 then some (addReply measured client .null)
      else if isOther measured dstkey then some (addReply measured client .wrongType)
      else
        let (popped, left) ← listTypePop junk counted .tail
        let value ← popped
        let handled ← rpoplpushHandlePush junk (putObject measured source left) client limits dstkey value
        deleteEmpty handled source

def delCommand (store : Store Client Key) (client : Client) (keys : List Key) : Store Client Key :=
  addReply (keys.foldl dbDelete store) client
    (.integer (keys.dedup.filter fun key => (store.dict key).isSome).length)

def serve (store : Store Client Key) (request : Request Client Key) : Option (Store Client Key) :=
  match request.command with
  | .push side key value more => pushGenericCommand junk store request.client request.limits side key (value :: more)
  | .pop side key => popGenericCommand junk store request.client side key
  | .rpoplpush source destination => rpoplpushCommand junk store request.client request.limits source destination
  | .set key => some (addReply (setKey store key) request.client .ok)
  | .del keys => some (delCommand store request.client keys)

end Commands

-- The same command on plain lists.
def ListCommand.plain : ListCommand Key → Command Key Bytes
  | .push side key value more => .push side key value more
  | .pop side key => .pop side key
  | .rpoplpush source destination => .rpoplpush source destination
  | .set key => .set key
  | .del keys => .del keys

def EncodesStored (entries size : Nat) : Option Stored → Option (Object Bytes) → Prop
  | none, none => True
  | some (.list object), some (.list texts) => Encodes entries size object texts
  | some .other, some .other => True
  | _, _ => False

structure Refines (entries size : Nat) (store : Store Client Key) (server : Server Client Key Bytes) : Prop where
  dict : ∀ key, EncodesStored entries size (store.dict key) (server.dict key)
  replies : store.replies = server.replies

section Refinement

variable (entries size : Nat) (store : Store Client Key) (server : Server Client Key Bytes)

theorem stored_cases (stored : Option Stored) (plain : Option (Object Bytes))
    (encodes : EncodesStored entries size stored plain) :
    (stored = none ∧ plain = none) ∨ (stored = some .other ∧ plain = some .other) ∨
      ∃ object texts, stored = some (.list object) ∧ plain = some (.list texts) ∧ Encodes entries size object texts := by
  cases stored with
  | none =>
      cases plain with
      | none => exact .inl ⟨rfl, rfl⟩
      | some object => cases encodes
  | some object =>
      cases object with
      | other =>
          cases plain with
          | none => cases encodes
          | some object =>
              cases object with
              | other => exact .inr (.inl ⟨rfl, rfl⟩)
              | list texts => cases encodes
      | list object =>
          cases plain with
          | none => cases encodes
          | some plain =>
              cases plain with
              | other => cases encodes
              | list texts => exact .inr (.inr ⟨object, texts, rfl, rfl, encodes⟩)

theorem empty_refines : Refines entries size (emptyStore : Store Client Key) emptyServer := ⟨fun _ => trivial, rfl⟩

variable (refines : Refines entries size store server)

include refines in
theorem reply_refines (client : Client) (reply : Reply Key Bytes) :
    Refines entries size (addReply store client reply) (Redis.addReply server client reply) := by
  refine ⟨refines.dict, ?_⟩
  rw [addReply, Redis.addReply, refines.replies]

include refines in
theorem bulk_refines (client : Client) (value : StringObject) (text : Bytes) (decodes : getDecodedObject value = some text) :
    ∃ next, addReplyBulk store client value = some next ∧
      Refines entries size next (Redis.addReply server client (.bulk text)) := by
  refine ⟨addReply store client (.bulk text), ?_, reply_refines entries size store server refines client _⟩
  rw [addReplyBulk, decodes]
  rfl

include refines in
theorem other_refines (key : Key) : isOther store key = Redis.isOther server key := by
  rw [isOther, Redis.isOther]
  obtain ⟨stored, plain⟩ | ⟨stored, plain⟩ | ⟨object, texts, stored, plain, _⟩ :=
    stored_cases entries size _ _ (refines.dict key)
  · rw [stored, plain]
  · rw [stored, plain]
  · rw [stored, plain]

include refines in
theorem present_refines (key : Key) : (store.dict key).isSome = (server.dict key).isSome := by
  obtain ⟨stored, plain⟩ | ⟨stored, plain⟩ | ⟨object, texts, stored, plain, _⟩ :=
    stored_cases entries size _ _ (refines.dict key)
  · rw [stored, plain]
    rfl
  · rw [stored, plain]
    rfl
  · rw [stored, plain]
    rfl

variable [DecidableEq Key]

include refines in
theorem update_refines (key : Key) (stored : Option Stored) (plain : Option (Object Bytes))
    (encodes : EncodesStored entries size stored plain) (next : Server Client Key Bytes)
    (dict : next.dict = Function.update server.dict key plain) (replies : next.replies = server.replies) :
    Refines entries size { store with dict := Function.update store.dict key stored } next := by
  refine ⟨?_, by rw [replies, refines.replies]⟩
  intro other
  change EncodesStored entries size (Function.update store.dict key stored other) (next.dict other)
  rw [dict]
  by_cases same : other = key
  · rw [same, Function.update_self, Function.update_self]
    exact encodes
  · rw [Function.update_of_ne same, Function.update_of_ne same]
    exact refines.dict other

include refines in
theorem put_refines (key : Key) (object : ListObject) (texts : List Bytes) (encodes : Encodes entries size object texts) :
    Refines entries size (putObject store key object) (putItems server key texts) :=
  update_refines entries size store server refines key (some (.list object)) (some (.list texts)) encodes _ rfl rfl

include refines in
theorem delete_refines (key : Key) : Refines entries size (dbDelete store key) (Redis.dbDelete server key) :=
  update_refines entries size store server refines key none none trivial _ rfl rfl

include refines in
theorem set_refines (key : Key) : Refines entries size (setKey store key) (Redis.setKey server key) := by
  refine update_refines entries size store server refines key (some .other) (some .other) trivial _ ?_ ?_
  · rw [Redis.setKey]
    split <;> rfl
  · rw [Redis.setKey]
    split <;> rfl

include refines in
-- A list may be stored anew in another block.
theorem again_refines (key : Key) (object : ListObject) (texts : List Bytes)
    (plain : server.dict key = some (.list texts)) (encodes : Encodes entries size object texts) :
    Refines entries size (putObject store key object) server := by
  have same : putItems server key texts = server := by
    rw [putItems, ← plain, Function.update_eq_self]
  have put := put_refines entries size store server refines key object texts encodes
  rw [same] at put
  exact put

include refines in
theorem delete_empty_refines (key : Key) :
    ∃ next, deleteEmpty store key = some next ∧ Refines entries size next (Redis.deleteEmpty server key) := by
  rw [deleteEmpty, Redis.deleteEmpty]
  obtain ⟨stored, plain⟩ | ⟨stored, plain⟩ | ⟨object, texts, stored, plain, encodes⟩ :=
    stored_cases entries size _ _ (refines.dict key)
  · rw [stored, plain]
    exact ⟨store, rfl, refines⟩
  · rw [stored, plain]
    exact ⟨store, rfl, refines⟩
  · obtain ⟨counted, measured, kept⟩ := length_encodes entries size object texts encodes
    rw [stored, plain]
    simp only [measured, Option.bind_eq_bind, Option.bind_some]
    cases texts with
    | nil => exact ⟨_, rfl, delete_refines entries size store server refines key⟩
    | cons text rest =>
        rw [if_neg (List.length_pos_of_ne_nil (List.cons_ne_nil _ _)).ne']
        exact ⟨_, rfl, again_refines entries size store server refines key counted _ plain kept⟩

include refines in
theorem reply_length_refines (client : Client) (key : Key) :
    ∃ next, replyLength store client key = some next ∧
      Refines entries size next (Redis.addReply server client (.integer (listLength server key))) := by
  rw [replyLength, listLength]
  obtain ⟨stored, plain⟩ | ⟨stored, plain⟩ | ⟨object, texts, stored, plain, encodes⟩ :=
    stored_cases entries size _ _ (refines.dict key)
  · rw [stored, plain]
    exact ⟨_, rfl, reply_refines entries size store server refines client _⟩
  · rw [stored, plain]
    exact ⟨_, rfl, reply_refines entries size store server refines client _⟩
  · obtain ⟨counted, measured, kept⟩ := length_encodes entries size object texts encodes
    have again := again_refines entries size store server refines key counted texts plain kept
    rw [stored, plain]
    simp only [measured, Option.bind_eq_bind, Option.bind_some]
    exact ⟨_, rfl, reply_refines entries size _ server again client _⟩

end Refinement

section Bounded

variable [DecidableEq Key] (junk : Bytes → Nat → UInt8) (entries size : Nat) (wide : 21 ≤ size)
  (fits : entries * (14 + size) + 11 < 2 ^ 32)

def Limited (limits : Limits) : Prop := limits.listMaxZiplistEntries ≤ entries ∧ limits.listMaxZiplistValue ≤ size

section Pushes

variable [DecidableEq Client] (limits : Limits) (limited : Limited entries size limits)

include wide fits limited in
theorem push_value_refines (side : Side) (key : Key) (store : Store Client Key) (server : Server Client Key Bytes)
    (value : StringObject) (text : Bytes) (decodes : getDecodedObject value = some text)
    (refines : Refines entries size store server) :
    ∃ next, pushValue junk limits side key store value = some next ∧
      Refines entries size next (Redis.pushValue side key server text) := by
  rw [pushValue]
  obtain ⟨stored, plain⟩ | ⟨stored, plain⟩ | ⟨object, texts, stored, plain, encodes⟩ :=
    stored_cases entries size _ _ (refines.dict key)
  · obtain ⟨pushed, done, kept⟩ := push_encodes junk entries size wide fits limits value text side createZiplistObject []
      decodes limited (new_encodes entries size)
    have added := push_value_pushed side key server text (by rw [Redis.isOther, plain])
    rw [itemsOf, plain] at added
    rw [stored]
    simp only [done, Option.bind_eq_bind, Option.bind_some]
    exact ⟨_, rfl, update_refines entries size store server refines key (some (.list pushed)) (some (.list _)) kept _
      added.dict added.replies⟩
  · rw [stored, Redis.pushValue, plain]
    exact ⟨store, rfl, refines⟩
  · obtain ⟨pushed, done, kept⟩ := push_encodes junk entries size wide fits limits value text side object texts decodes
      limited encodes
    rw [stored, Redis.pushValue, plain]
    simp only [done, Option.bind_eq_bind, Option.bind_some]
    exact ⟨_, rfl, put_refines entries size store server refines key pushed _ kept⟩

include wide fits limited in
theorem push_values_refine (side : Side) (key : Key) (values : List Bytes) (store : Store Client Key)
    (server : Server Client Key Bytes) (refines : Refines entries size store server) :
    ∃ next, values.foldlM (fun store bytes => pushValue junk limits side key store (tryObjectEncoding bytes)) store =
        some next ∧ Refines entries size next (values.foldl (Redis.pushValue side key) server) := by
  induction values generalizing store server with
  | nil => exact ⟨store, rfl, refines⟩
  | cons value rest ih =>
      obtain ⟨pushed, done, kept⟩ := push_value_refines junk entries size wide fits limits limited side key store server
        (tryObjectEncoding value) value (decoded_argument value) refines
      obtain ⟨next, later, last⟩ := ih pushed _ kept
      refine ⟨next, ?_, last⟩
      rw [List.foldlM_cons, done]
      exact later

include wide fits limited in
theorem push_refines (store : Store Client Key) (server : Server Client Key Bytes) (client : Client) (side : Side)
    (key : Key) (values : List Bytes) (refines : Refines entries size store server) :
    ∃ next, pushGenericCommand junk store client limits side key values = some next ∧
      Refines entries size next (Redis.pushGenericCommand server client side key values) := by
  have other := other_refines entries size store server refines key
  rw [pushGenericCommand, other, Redis.isOther, Redis.pushGenericCommand]
  split
  · exact ⟨_, rfl, reply_refines entries size store server refines client _⟩
  · obtain ⟨pushed, done, kept⟩ :=
      push_values_refine junk entries size wide fits limits limited side key values store server refines
    obtain ⟨next, replied, last⟩ := reply_length_refines entries size pushed _ kept client key
    rw [if_neg Bool.false_ne_true, done]
    exact ⟨next, replied, last⟩

include wide fits limited in
theorem handle_push_refines (store : Store Client Key) (server : Server Client Key Bytes) (client : Client) (dstkey : Key)
    (value : StringObject) (text : Bytes) (decodes : getDecodedObject value = some text)
    (refines : Refines entries size store server) :
    ∃ next, rpoplpushHandlePush junk store client limits dstkey value = some next ∧
      Refines entries size next (Redis.rpoplpushHandlePush server client dstkey text) := by
  obtain ⟨pushed, done, kept⟩ := push_value_refines junk entries size wide fits limits limited .head dstkey store server
    value text decodes refines
  obtain ⟨next, replied, last⟩ := bulk_refines entries size pushed _ kept client value text decodes
  refine ⟨next, ?_, last⟩
  rw [rpoplpushHandlePush, done]
  exact replied

end Pushes

theorem pop_none (object : ListObject) (side : Side) (encodes : Encodes entries size object []) :
    listTypePop junk object side = some (none, object) := by
  cases encodes with
  | ziplist zl texts holds few short =>
      rw [listTypePop, pop_empty zl side holds]
      rfl
  | linkedlist nodes texts decoded =>
      cases List.map_eq_nil_iff.mp decoded
      cases side <;> rfl

theorem pop_nothing (side : Side) (texts : List Bytes) (nothing : Redis.listTypePop side texts = none) : texts = [] := by
  cases side with
  | head => exact List.head?_eq_none_iff.mp (Option.map_eq_none_iff.mp nothing)
  | tail => exact List.getLast?_eq_none_iff.mp (Option.map_eq_none_iff.mp nothing)

theorem pop_refines (store : Store Client Key) (server : Server Client Key Bytes) (client : Client) (side : Side)
    (key : Key) (refines : Refines entries size store server) :
    ∃ next, popGenericCommand junk store client side key = some next ∧
      Refines entries size next (Redis.popGenericCommand server client side key) := by
  rw [popGenericCommand, Redis.popGenericCommand]
  obtain ⟨stored, plain⟩ | ⟨stored, plain⟩ | ⟨object, texts, stored, plain, encodes⟩ :=
    stored_cases entries size _ _ (refines.dict key)
  · rw [stored, plain]
    exact ⟨_, rfl, reply_refines entries size store server refines client _⟩
  · rw [stored, plain]
    exact ⟨_, rfl, reply_refines entries size store server refines client _⟩
  · rw [stored, plain]
    cases pops : Redis.listTypePop side texts with
    | none =>
        cases pop_nothing side texts pops
        simp only [pop_none junk entries size object side encodes, Option.bind_eq_bind, Option.bind_some, pops]
        exact ⟨_, rfl, reply_refines entries size store server refines client _⟩
    | some popped =>
        obtain ⟨text, left⟩ := popped
        obtain ⟨value, next, taken, decodes, kept⟩ := pop_encodes junk entries size side object texts left text encodes pops
        obtain ⟨replied, reply, last⟩ := bulk_refines entries size store server refines client value text decodes
        have put := put_refines entries size replied _ last key next left kept
        simp only [taken, Option.bind_eq_bind, Option.bind_some, reply, pops]
        exact delete_empty_refines entries size _ _ put key

include wide fits in
theorem rpoplpush_refines [DecidableEq Client] (limits : Limits) (limited : Limited entries size limits) (store : Store Client Key)
    (server : Server Client Key Bytes) (client : Client) (source dstkey : Key)
    (refines : Refines entries size store server) :
    ∃ next, rpoplpushCommand junk store client limits source dstkey = some next ∧
      Refines entries size next (Redis.rpoplpushCommand server client source dstkey) := by
  rw [rpoplpushCommand, Redis.rpoplpushCommand]
  obtain ⟨stored, plain⟩ | ⟨stored, plain⟩ | ⟨object, texts, stored, plain, encodes⟩ :=
    stored_cases entries size _ _ (refines.dict source)
  · rw [stored, plain]
    exact ⟨_, rfl, reply_refines entries size store server refines client _⟩
  · rw [stored, plain]
    exact ⟨_, rfl, reply_refines entries size store server refines client _⟩
  · obtain ⟨counted, measured, encodes⟩ := length_encodes entries size object texts encodes
    have again := again_refines entries size store server refines source counted texts plain encodes
    rw [stored, plain]
    simp only [measured, Option.bind_eq_bind, Option.bind_some]
    cases pops : Redis.listTypePop .tail texts with
    | none =>
        cases pop_nothing .tail texts pops
        exact ⟨_, rfl, reply_refines entries size _ server again client _⟩
    | some popped =>
        obtain ⟨text, left⟩ := popped
        have some : texts ≠ [] := by
          rintro rfl
          cases pops
        rw [if_neg (List.length_pos_of_ne_nil some).ne', other_refines entries size _ server again dstkey]
        obtain ⟨value, next, taken, decodes, kept⟩ :=
          pop_encodes junk entries size .tail counted texts left text encodes pops
        have put := put_refines entries size _ server again source next left kept
        obtain ⟨handled, handles, last⟩ := handle_push_refines junk entries size wide fits limits limited _ _ client dstkey
          value text decodes put
        simp only [taken, Option.bind_some, handles]
        split
        · exact ⟨_, rfl, reply_refines entries size _ server again client _⟩
        · exact delete_empty_refines entries size _ _ last source

theorem deletes_refine (keys : List Key) (store : Store Client Key) (server : Server Client Key Bytes)
    (refines : Refines entries size store server) :
    Refines entries size (keys.foldl dbDelete store) (keys.foldl Redis.dbDelete server) := by
  induction keys generalizing store server with
  | nil => exact refines
  | cons key rest ih => exact ih _ _ (delete_refines entries size store server refines key)

theorem del_refines (store : Store Client Key) (server : Server Client Key Bytes) (client : Client) (keys : List Key)
    (refines : Refines entries size store server) :
    Refines entries size (delCommand store client keys) (Redis.delCommand server client keys) := by
  have present : (fun key => (store.dict key).isSome) = fun key => (server.dict key).isSome :=
    funext fun key => present_refines entries size store server refines key
  rw [delCommand, Redis.delCommand, present]
  exact reply_refines entries size _ _ (deletes_refine entries size keys store server refines) client _

include wide fits in
theorem serve_refines [DecidableEq Client] (store : Store Client Key) (server : Server Client Key Bytes) (request : Request Client Key)
    (limited : Limited entries size request.limits) (refines : Refines entries size store server) :
    ∃ next, serve junk store request = some next ∧
      Refines entries size next (call server request.client request.command.plain) := by
  rw [serve]
  cases request.command with
  | push side key value more =>
      exact push_refines junk entries size wide fits request.limits limited store server _ side key _ refines
  | pop side key => exact pop_refines junk entries size store server _ side key refines
  | rpoplpush source destination =>
      exact rpoplpush_refines junk entries size wide fits request.limits limited store server _ source destination refines
  | set key =>
      exact ⟨_, rfl, reply_refines entries size _ _ (set_refines entries size store server refines key) _ _⟩
  | del keys => exact ⟨_, rfl, del_refines entries size store server _ keys refines⟩

end Bounded

section Runs

variable [DecidableEq Client] [DecidableEq Key] (junk : Bytes → Nat → UInt8) (entries size : Nat) (wide : 21 ≤ size)
  (fits : entries * (14 + size) + 11 < 2 ^ 32)

include wide fits in
theorem run_refines (requests : List (Request Client Key)) (store : Store Client Key) (server : Server Client Key Bytes)
    (limited : ∀ request ∈ requests, Limited entries size request.limits) (refines : Refines entries size store server) :
    ∃ next, requests.foldlM (serve junk) store = some next ∧
      Refines entries size next
        (requests.foldl (fun server request => call server request.client request.command.plain) server) := by
  induction requests generalizing store server with
  | nil => exact ⟨store, rfl, refines⟩
  | cons request rest ih =>
      obtain ⟨served, done, kept⟩ := serve_refines junk entries size wide fits store server request
        (limited request List.mem_cons_self) refines
      obtain ⟨next, later, last⟩ := ih served _ (fun other member => limited other (List.mem_cons_of_mem _ member)) kept
      refine ⟨next, ?_, last⟩
      rw [List.foldlM_cons, done]
      exact later

include wide fits in
-- No access leaves a block, every reply is that of the plain lists, and every list
-- can be read back from its bytes or nodes.
theorem encodings_refined (requests : List (Request Client Key))
    (limited : ∀ request ∈ requests, Limited entries size request.limits) :
    ∃ store, requests.foldlM (serve junk) emptyStore = some store ∧
      Refines entries size store
        (requests.foldl (fun server request => call server request.client request.command.plain) emptyServer) :=
  run_refines junk entries size wide fits requests emptyStore emptyServer limited (empty_refines entries size)

end Runs

-- The third push finds two entries and converts the list.
def convertedRequests : List (Request Nat Nat) :=
  [⟨0, ⟨2, 64⟩, .push .tail 5 [49, 50] [[97], [45, 55]]⟩, ⟨1, ⟨512, 64⟩, .rpoplpush 5 6⟩, ⟨1, ⟨512, 64⟩, .pop .head 5⟩,
    ⟨0, ⟨512, 64⟩, .push .head 6 [98] []⟩, ⟨1, ⟨512, 64⟩, .pop .tail 6⟩]

theorem converted_requests_replied : ∃ store, convertedRequests.foldlM (serve fun _ _ => 0) emptyStore = some store ∧
    store.replies = [(0, .integer 3), (1, .bulk [45, 55]), (1, .bulk [49, 50]), (0, .integer 2), (1, .bulk [45, 55])] := by
  have limited : ∀ request ∈ convertedRequests, Limited 512 64 request.limits := by
    simp [convertedRequests, Limited]
  obtain ⟨store, served, refines⟩ := encodings_refined (fun _ _ => 0) 512 64 (by decide) (by decide) convertedRequests limited
  exact ⟨store, served, refines.replies⟩

end AppFit.Redis.Encoded
