import Mathlib.Data.List.AList
import AppFit.Lib.Shell

/- cache.py. The cache file is modelled by what json.load makes of it: an object
   that maps image names to pairs of commands, or a text it rejects. CacheStore
   shows that the texts of the file stand for such a map. -/
set_option autoImplicit false

namespace AppFit.Server

open AppFit.Shell

abbrev CacheMap := AList fun _ : Text => Text × Text

inductive CacheFile where
  | missing
  | unreadable
  | stored (cache : CacheMap)

-- Opening with 'a+' creates an empty file, which json.load rejects like any
-- other unreadable text: the object starts from {}.
def loadCache : CacheFile → CacheMap
  | .missing => ∅
  | .unreadable => ∅
  | .stored cache => cache

def addEntry (cache : CacheMap) (imageName appCommand testCommand : Text) : CacheFile :=
  .stored (cache.insert imageName (appCommand, testCommand))

def cacheExists (cache : CacheMap) (imageName appCommand testCommand : Text) : Bool :=
  cache.lookup imageName == some (appCommand, testCommand)

theorem load_add_entry (cache : CacheMap) (imageName appCommand testCommand query : Text) :
    (loadCache (addEntry cache imageName appCommand testCommand)).lookup query =
      if query = imageName then some (appCommand, testCommand) else cache.lookup query := by
  by_cases same : query = imageName
  · subst same
    simp [addEntry, loadCache, AList.lookup_insert]
  · simp [addEntry, loadCache, same, AList.lookup_insert_ne]

end AppFit.Server
