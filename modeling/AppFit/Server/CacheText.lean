import Mathlib.Logic.Function.Basic
import AppFit.Lib.Dict
import AppFit.Lib.JsonRoundTrip

/- cache.py on the text of the cache file. A Cache is the value of its _cache
   field; a file opened with 'a+' is read from its start. The order in which a
   dict is written is the interpreter's. -/
set_option autoImplicit false

namespace AppFit.Server.CacheText

open AppFit.Shell AppFit.JsonText AppFit.Dict

abbrev DictOrder := WalkOrder Text Value

-- Whatever json.load raises is taken for an empty cache.
def initCache (content : Text) : Value :=
  match loads content with
  | some (.dict members) => .dict (ofPairs members)
  | some other => other
  | none => .dict []

-- The file is already empty when the assignment into the object is tried, and only
-- a dict takes it.
def setItem (order : DictOrder) (cache : Value) (key : Text) (entry : Value) : Written :=
  match cache with
  | .dict members => dump none 0 (.dict (order.arrange (assign members key entry)))
  | _ => ⟨[], false⟩

def commandPair (appCommand testCommand : Text) : Value := .list [.str appCommand, .str testCommand]

def addEntry (order : DictOrder) (cache : Value) (imageName appCommand testCommand : Text) : Written :=
  setItem order cache imageName (commandPair appCommand testCommand)

def isPair (appCommand testCommand : Text) : Value → Bool
  | .list [.str first, .str second] => first = appCommand && second = testCommand
  | _ => false

def isText (text : Text) : Value → Bool
  | .str other => other = text
  | _ => false

-- Cache.exists; none is an exception. A list or a text that contains the name
-- cannot be indexed with it, and nothing is in a number.
def cacheExists (cache : Value) (imageName appCommand testCommand : Text) : Option Bool :=
  match cache with
  | .dict members =>
      match lookup imageName members with
      | some entry => some (isPair appCommand testCommand entry)
      | none => some false
  | .list items => if items.any (isText imageName) then none else some false
  | .str text => if text.tails.any imageName.isPrefixOf then none else some false
  | _ => none

-- The encoder is handed the object itself and asks for its __dict__.
def toJson (cache : Value) : Written := dump (some 4) 0 (sortKeys (.dict [("_cache".toList, cache)]))

inductive CacheCall where
  | addEntry (imageName appCommand testCommand : Text)
  | setItem (key : Text) (entry : Value)

def perform (order : DictOrder) (cache : Value) : CacheCall → Written
  | .addEntry imageName appCommand testCommand => addEntry order cache imageName appCommand testCommand
  | .setItem key entry => setItem order cache key entry

def calledKey : CacheCall → Text
  | .addEntry imageName _ _ => imageName
  | .setItem key _ => key

def calledEntry : CacheCall → Value
  | .addEntry _ appCommand testCommand => commandPair appCommand testCommand
  | .setItem _ entry => entry

def Holds (cache : Value) (contents : Text → Option Value) : Prop :=
  ∃ members, cache = .dict members ∧ ∀ key, lookup key members = contents key

-- What the file holds when the last characters handed to it did not get there.
def leftText (written : Written) (missing : Nat) : Text := written.text.take (written.text.length - missing)

def Survives (order : DictOrder) (content : Text) (contents : Text → Option Value) (call : CacheCall) (missing : Nat) :
    Prop :=
  let next := initCache (leftText (perform order (initCache content) call) missing)
  Holds next contents ∨ Holds next (Function.update contents (calledKey call) (some (calledEntry call)))

theorem perform_eq (order : DictOrder) (cache : Value) (call : CacheCall) :
    perform order cache call = setItem order cache (calledKey call) (calledEntry call) := by
  cases call <;> rfl

theorem loaded_members (content : Text) (members : List (Text × Value)) (cache : initCache content = .dict members) :
    Distinct members ∧ encodable (.dict members) = true := by
  rw [initCache] at cache
  split at cache
  case h_1 written found =>
    cases cache
    have loaded := loads_encodable content _ found
    rw [encodable, encodable_members_all, List.all_eq_true] at loaded ⊢
    exact ⟨distinct_of_pairs written, fun pair member => loaded pair (mem_of_pairs written pair member)⟩
  case h_2 other notDict _ => exact absurd cache (notDict members)
  case h_3 =>
    cases cache
    exact ⟨List.nodup_nil, rfl⟩

theorem holds_assigned (order : DictOrder) (members : List (Text × Value)) (contents : Text → Option Value) (key : Text)
    (entry : Value) (distinct : Distinct members) (stored : ∀ key, lookup key members = contents key) :
    Holds (.dict (ofPairs (order.arrange (assign members key entry)))) (Function.update contents key (some entry)) := by
  refine ⟨_, rfl, fun query => ?_⟩
  rw [lookup_arranged order _ (distinct_assign members key entry distinct), lookup_assign, stored query,
    Function.update_apply]
  exact if_congr eq_comm rfl rfl

theorem encodable_assigned (order : DictOrder) (members : List (Text × Value)) (key : Text) (entry : Value)
    (loaded : encodable (.dict members) = true) :
    encodable (.dict (order.arrange (assign members key entry))) = encodable entry := by
  rw [encodable, encodable_members_all, List.all_eq_true] at loaded
  rw [encodable, encodable_members_all, (order.perm _).all_eq, Bool.eq_iff_iff, List.all_eq_true]
  refine ⟨fun all => all (key, entry) (mem_assign _ key entry), fun good pair member => ?_⟩
  rcases mem_of_assign _ key entry pair member with same | old
  · rw [same]
    exact good
  · exact loaded pair old

theorem holds_empty_iff (contents : Text → Option Value) :
    Holds (.dict []) contents ↔ ∀ key, contents key = none := by
  refine ⟨?_, fun empty => ⟨[], rfl, fun key => (empty key).symm⟩⟩
  intro holds key
  obtain ⟨members, same, stored⟩ := holds
  cases same
  exact (stored key).symm

theorem whole_text_iff (members : List (Text × Value)) (missing : Nat) :
    (dump none 0 (.dict members)).text.length ≤ (dump none 0 (.dict members)).text.length - missing ↔ missing = 0 := by
  obtain ⟨tail, text⟩ := enclosed_start none 0 '{' '}' (dumpMembers none 1 members)
  have written : 0 < (dump none 0 (.dict members)).text.length := by
    rw [dump, text]
    exact Nat.succ_pos _
  omega

theorem next_cache (order : DictOrder) (members : List (Text × Value)) (key : Text) (entry : Value)
    (loaded : encodable (.dict members) = true) (missing : Nat) :
    initCache (leftText (setItem order (.dict members) key entry) missing) =
      if encodable entry = true ∧ missing = 0 then .dict (ofPairs (order.arrange (assign members key entry)))
      else .dict [] := by
  rw [initCache, leftText, setItem, loads_cut, dump_completed, encodable_assigned order members key entry loaded]
  simp only [whole_text_iff]
  by_cases whole : encodable entry = true ∧ missing = 0
  · rw [if_pos whole, if_pos whole]
  · rw [if_neg whole, if_neg whole]

theorem interrupted_call_survives_iff (order : DictOrder) (content : Text) (contents : Text → Option Value)
    (stored : Holds (initCache content) contents) (call : CacheCall) (missing : Nat) :
    Survives order content contents call missing ↔
      (∀ key, contents key = none) ∨ encodable (calledEntry call) = true ∧ missing = 0 := by
  obtain ⟨members, cache, stored⟩ := stored
  obtain ⟨distinct, loaded⟩ := loaded_members content members cache
  rw [Survives, cache, perform_eq, next_cache order members _ _ loaded]
  split
  case isTrue whole =>
    have updated := holds_assigned order members contents (calledKey call) (calledEntry call) distinct stored
    exact iff_of_true (.inr updated) (.inr whole)
  case isFalse partly =>
    rw [holds_empty_iff, holds_empty_iff, or_iff_left partly, or_iff_left]
    intro empty
    have entry := empty (calledKey call)
    rw [Function.update_self] at entry
    cases entry

theorem as_listed_perm (dict : List (Text × Value)) : dict.Perm dict := List.Perm.refl dict

def asListed : DictOrder := ⟨id, as_listed_perm⟩

def storedMembers : List (Text × Value) := [("web.tar.gz".toList, commandPair "app".toList "test".toList)]
def storedContents (key : Text) : Option Value := lookup key storedMembers
def otherCall : CacheCall := .addEntry "db.tar.gz".toList "serve".toList "probe".toList

theorem stored_contents_held : Holds (initCache (dump none 0 (.dict storedMembers)).text) storedContents := by
  refine ⟨storedMembers, ?_, fun key => rfl⟩
  rw [initCache, loads_dump none 0 _ rfl]
  rfl

theorem finished_call_survives :
    Survives asListed (dump none 0 (.dict storedMembers)).text storedContents otherCall 0 :=
  (interrupted_call_survives_iff asListed _ storedContents stored_contents_held otherCall 0).mpr (.inr ⟨rfl, rfl⟩)

-- The process stops right after the file was opened.
theorem emptied_file_loses_entries :
    Holds (initCache (dump none 0 (.dict storedMembers)).text) storedContents ∧
      ¬ Survives asListed (dump none 0 (.dict storedMembers)).text storedContents otherCall
        (perform asListed (initCache (dump none 0 (.dict storedMembers)).text) otherCall).text.length := by
  refine ⟨stored_contents_held, fun survives => ?_⟩
  have emptied : ∀ written, initCache (leftText written written.text.length) = .dict [] := by
    intro written
    rw [leftText, Nat.sub_self]
    rfl
  rw [Survives, emptied, holds_empty_iff, holds_empty_iff] at survives
  rcases survives with before | after
  · exact absurd (before "web.tar.gz".toList) (by decide)
  · exact absurd (after "db.tar.gz".toList) (by decide)

end AppFit.Server.CacheText
