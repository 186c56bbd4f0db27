import Mathlib.Data.List.Nodup
import Mathlib.Logic.Function.Basic

/- The list commands of the Redis server in sampleapps/redis-stable (t_list.c, db.c
   and blocked.c): pushes, pops, the blocking pops and the clients that wait for
   them, in one database. Encodings, expiry, transactions, scripts, replication
   and the timeouts' clock are left out. -/
set_option autoImplicit false

namespace AppFit.Redis

variable {Client Key Value : Type}

inductive Side where
  | head
  | tail
deriving DecidableEq

inductive Object (Value : Type) where
  | list (items : List Value)
  | other

inductive Reply (Key Value : Type) where
  | wrongType
  | ok
  | null
  | integer (value : Nat)
  | bulk (value : Value)
  | element (key : Key) (value : Value)

-- c->bpop of a blocked client, with the end of the list its last command pops from.
structure Blocked (Client Key : Type) where
  client : Client
  side : Side
  keys : List Key
  target : Option Key

-- An empty list of clients is a key without an entry in blocking_keys. readyKeys
-- is server.ready_keys and dbReadyKeys the dict db->ready_keys.
structure Server (Client Key Value : Type) where
  dict : Key → Option (Object Value)
  blocked : List (Blocked Client Key)
  blockingKeys : Key → List Client
  readyKeys : List Key
  dbReadyKeys : List Key
  replies : List (Client × Reply Key Value)

def emptyServer : Server Client Key Value := ⟨fun _ => none, [], fun _ => [], [], [], []⟩

def listTypePush (side : Side) (items : List Value) (value : Value) : List Value :=
  match side with
  | .head => value :: items
  | .tail => items ++ [value]

def listTypePop (side : Side) (items : List Value) : Option (Value × List Value) :=
  match side with
  | .head => items.head?.map fun value => (value, items.tail)
  | .tail => items.getLast?.map fun value => (value, items.dropLast)

def addReply (server : Server Client Key Value) (client : Client) (reply : Reply Key Value) : Server Client Key Value :=
  { server with replies := server.replies ++ [(client, reply)] }

section Commands

variable [DecidableEq Client] [DecidableEq Key]

def putItems (server : Server Client Key Value) (key : Key) (items : List Value) : Server Client Key Value :=
  { server with dict := Function.update server.dict key (some (.list items)) }

def dbDelete (server : Server Client Key Value) (key : Key) : Server Client Key Value :=
  { server with dict := Function.update server.dict key none }

def signalListAsReady (server : Server Client Key Value) (key : Key) : Server Client Key Value :=
  if (server.blockingKeys key).isEmpty then server
  else if key ∈ server.dbReadyKeys then server
  else { server with readyKeys := server.readyKeys ++ [key], dbReadyKeys := server.dbReadyKeys ++ [key] }

def dbAdd (server : Server Client Key Value) (key : Key) (object : Object Value) : Server Client Key Value :=
  let added := { server with dict := Function.update server.dict key (some object) }
  match object with
  | .list _ => signalListAsReady added key
  | .other => added

def setKey (server : Server Client Key Value) (key : Key) : Server Client Key Value :=
  match server.dict key with
  | none => dbAdd server key .other
  | some _ => { server with dict := Function.update server.dict key (some .other) }

-- A list that has become empty is deleted.
def deleteEmpty (server : Server Client Key Value) (key : Key) : Server Client Key Value :=
  match server.dict key with
  | some (.list []) => dbDelete server key
  | _ => server

-- The list is created, and its key signalled, before the first value is pushed.
def pushValue (side : Side) (key : Key) (server : Server Client Key Value) (value : Value) : Server Client Key Value :=
  match server.dict key with
  | none => putItems (dbAdd server key (.list [])) key (listTypePush side [] value)
  | some (.list items) => putItems server key (listTypePush side items value)
  | some .other => server

def listLength (server : Server Client Key Value) (key : Key) : Nat :=
  match server.dict key with
  | some (.list items) => items.length
  | _ => 0

def pushGenericCommand (server : Server Client Key Value) (client : Client) (side : Side) (key : Key)
    (values : List Value) : Server Client Key Value :=
  match server.dict key with
  | some .other => addReply server client .wrongType
  | _ =>
      let pushed := values.foldl (pushValue side key) server
      addReply pushed client (.integer (listLength pushed key))

def popGenericCommand (server : Server Client Key Value) (client : Client) (side : Side) (key : Key) :
    Server Client Key Value :=
  match server.dict key with
  | none => addReply server client .null
  | some .other => addReply server client .wrongType
  | some (.list items) =>
      match listTypePop side items with
      | none => addReply server client .null
      | some (value, rest) => deleteEmpty (putItems (addReply server client (.bulk value)) key rest) key

def rpoplpushHandlePush (server : Server Client Key Value) (client : Client) (dstkey : Key) (value : Value) :
    Server Client Key Value :=
  addReply (pushValue .head dstkey server value) client (.bulk value)

def isOther (server : Server Client Key Value) (key : Key) : Bool :=
  match server.dict key with
  | some .other => true
  | _ => false

def rpoplpushCommand (server : Server Client Key Value) (client : Client) (source dstkey : Key) :
    Server Client Key Value :=
  match server.dict source with
  | none => addReply server client .null
  | some .other => addReply server client .wrongType
  | some (.list items) =>
      match listTypePop .tail items with
      | none => addReply server client .null
      | some (value, rest) =>
          if isOther server dstkey then addReply server client .wrongType
          else deleteEmpty (rpoplpushHandlePush (putItems server source rest) client dstkey value) source

-- A key that is named twice is registered once.
def blockForKey (client : Client) (registered : List Key × (Key → List Client)) (key : Key) :
    List Key × (Key → List Client) :=
  if key ∈ registered.1 then registered
  else (registered.1 ++ [key], Function.update registered.2 key (registered.2 key ++ [client]))

def blockForKeys (server : Server Client Key Value) (client : Client) (side : Side) (keys : List Key)
    (target : Option Key) : Server Client Key Value :=
  let registered := keys.foldl (blockForKey client) ([], server.blockingKeys)
  { server with
    blocked := server.blocked ++ [⟨client, side, registered.1, target⟩]
    blockingKeys := registered.2 }

def findBlocked (server : Server Client Key Value) (client : Client) : Option (Blocked Client Key) :=
  server.blocked.find? fun entry => entry.client = client

def unblockClient (server : Server Client Key Value) (client : Client) : Server Client Key Value :=
  match findBlocked server client with
  | none => server
  | some entry =>
      { server with
        blocked := server.blocked.filter fun other => other.client ≠ client
        blockingKeys := entry.keys.foldl (fun waiting key => Function.update waiting key ((waiting key).erase client))
          server.blockingKeys }

-- The keys are tried in order; none of them with data blocks the client.
def blockingPopGenericCommand (server : Server Client Key Value) (client : Client) (side : Side) (keys : List Key) :
    List Key → Server Client Key Value
  | [] => blockForKeys server client side keys none
  | key :: rest =>
      match server.dict key with
      | none => blockingPopGenericCommand server client side keys rest
      | some .other => addReply server client .wrongType
      | some (.list items) =>
          match listTypePop side items with
          | none => blockingPopGenericCommand server client side keys rest
          | some (value, left) => deleteEmpty (putItems (addReply server client (.element key value)) key left) key

def brpoplpushCommand (server : Server Client Key Value) (client : Client) (source dstkey : Key) :
    Server Client Key Value :=
  match server.dict source with
  | none => blockForKeys server client .tail [source] (some dstkey)
  | some .other => addReply server client .wrongType
  | some (.list _) => rpoplpushCommand server client source dstkey

-- false is REDIS_ERR: the destination holds no list.
def serveClientBlockedOnList (server : Server Client Key Value) (receiver : Client) (key : Key) (dstkey : Option Key)
    (value : Value) : Server Client Key Value × Bool :=
  match dstkey with
  | none => (addReply server receiver (.element key value), true)
  | some destination =>
      if isOther server destination then (addReply server receiver .wrongType, false)
      else (rpoplpushHandlePush server receiver destination value, true)

-- A value that could not be moved to its destination goes back to the list.
def serveReceiver (server : Server Client Key Value) (key : Key) (receiver : Client) (side : Side) (dstkey : Option Key)
    (popped : Value × List Value) : Server Client Key Value :=
  let unblocked := unblockClient (putItems server key popped.2) receiver
  let served := serveClientBlockedOnList unblocked receiver key dstkey popped.1
  if served.2 then served.1 else pushValue side key served.1 popped.1

def sideOf (server : Server Client Key Value) (client : Client) : Side :=
  ((findBlocked server client).map Blocked.side).getD .tail

def targetOf (server : Server Client Key Value) (client : Client) : Option Key :=
  (findBlocked server client).bind Blocked.target

-- One pass of the loop over the clients of a ready key; none is its break.
def serveFirst (server : Server Client Key Value) (key : Key) : Option (Server Client Key Value) :=
  match server.blockingKeys key, server.dict key with
  | receiver :: _, some (.list items) =>
      (listTypePop (sideOf server receiver) items).map
        (serveReceiver server key receiver (sideOf server receiver) (targetOf server receiver))
  | _, _ => none

def serveClients : Nat → Server Client Key Value → Key → Server Client Key Value
  | 0, server, _ => server
  | numclients + 1, server, key =>
      match serveFirst server key with
      | none => server
      | some served => serveClients numclients served key

def unmarkReady (server : Server Client Key Value) (key : Key) : Server Client Key Value :=
  { server with dbReadyKeys := server.dbReadyKeys.filter (· ≠ key) }

def serveReady (server : Server Client Key Value) (key : Key) : Server Client Key Value :=
  match server.dict key with
  | some (.list _) => deleteEmpty (serveClients (server.blockingKeys key).length (unmarkReady server key) key) key
  | _ => unmarkReady server key

def freshReadyKeys (server : Server Client Key Value) : Server Client Key Value := { server with readyKeys := [] }

def handleClientsBlockedOnLists : Nat → Server Client Key Value → Server Client Key Value
  | 0, server => server
  | passes + 1, server =>
      if server.readyKeys.isEmpty then server
      else handleClientsBlockedOnLists passes (server.readyKeys.foldl serveReady (freshReadyKeys server))

-- A push has at least one value and a blocking pop at least one key.
inductive Command (Key Value : Type) where
  | push (side : Side) (key : Key) (value : Value) (more : List Value)
  | pop (side : Side) (key : Key)
  | blockingPop (side : Side) (key : Key) (more : List Key)
  | rpoplpush (source destination : Key)
  | brpoplpush (source destination : Key)
  | set (key : Key)
  | del (keys : List Key)

def delCommand (server : Server Client Key Value) (client : Client) (keys : List Key) : Server Client Key Value :=
  let deleted := keys.foldl dbDelete server
  addReply deleted client (.integer (keys.dedup.filter fun key => (server.dict key).isSome).length)

def call (server : Server Client Key Value) (client : Client) : Command Key Value → Server Client Key Value
  | .push side key value more => pushGenericCommand server client side key (value :: more)
  | .pop side key => popGenericCommand server client side key
  | .blockingPop side key more => blockingPopGenericCommand server client side (key :: more) (key :: more)
  | .rpoplpush source destination => rpoplpushCommand server client source destination
  | .brpoplpush source destination => brpoplpushCommand server client source destination
  | .set key => addReply (setKey server key) client .ok
  | .del keys => delCommand server client keys

inductive Event (Client Key Value : Type) where
  | command (client : Client) (command : Command Key Value)
  | timeout (client : Client)
  | disconnect (client : Client)

-- The input of a blocked client is not read and only a blocked client times out:
-- none is an event that cannot happen. Every pass of the outer loop but the last
-- has unblocked a client.
def execute (server : Server Client Key Value) : Event Client Key Value → Option (Server Client Key Value)
  | .command client command =>
      if (findBlocked server client).isSome then none
      else
        let called := call server client command
        some (handleClientsBlockedOnLists (called.blocked.length + 1) called)
  | .timeout client =>
      if (findBlocked server client).isSome then some (unblockClient (addReply server client .null) client) else none
  | .disconnect client => some (unblockClient server client)

end Commands

end AppFit.Redis
