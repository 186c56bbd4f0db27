import AppFit.Server.Analytics
import AppFit.Server.CacheText
import AppFit.Server.Upload

/- The cache file in the folder of the uploads, over whole histories: it is
   created, read and written again by requests, while uploads save files of their
   own beside it. The map of cache.py is what the text of the file stands for. -/
set_option autoImplicit false

namespace AppFit.Server.CacheText

open AppFit.Shell AppFit.JsonText AppFit.Dict AppFit.Runs

def cacheFileName : Text := "server.cache".toList

def saveCache (fs : FileSystem) (folder : Folder) (content : Text) : FileSystem :=
  Function.update fs uploadFolder
    (some { folder with saved := Function.update folder.saved cacheFileName (some content) })

-- The folder is made when it is missing, and 'a+' makes the file.
def openCache (fs : FileSystem) : FileSystem × Value :=
  let folder := (fs uploadFolder).getD ⟨emptyTree, none⟩
  let content := (folder.saved cacheFileName).getD []
  (saveCache fs folder content, initCache content)

def writeCache (fs : FileSystem) (content : Text) : FileSystem :=
  match fs uploadFolder with
  | none => fs
  | some folder => saveCache fs folder content

-- What comments_handler does with the cache, and whether it asks the script to
-- skip the build; none is an exception of exists.
def analyticsCache (order : DictOrder) (fs : FileSystem) (request : Request) : FileSystem × Option Bool :=
  let opened := openCache fs
  let hit :=
    if request.useCache then cacheExists opened.2 request.appPackage request.appCommand request.testCommand
    else some false
  match hit with
  | none => (opened.1, none)
  | some hit =>
      (writeCache opened.1 (addEntry order opened.2 request.appPackage request.appCommand request.testCommand).text,
        some hit)

def fetchCacheHandler (fs : FileSystem) : FileSystem × Option Text :=
  let response := toJson (openCache fs).2
  ((openCache fs).1, if response.completed then some response.text else none)

-- The commands the browser finds in the response for a package.
def fetchedPair (appPackage response : Text) : Option (Text × Text) :=
  match loads response with
  | some (.dict members) =>
      match lookup "_cache".toList (ofPairs members) with
      | some (.dict cache) =>
          match lookup appPackage (ofPairs cache) with
          | some (.list (.str appCommand :: .str testCommand :: _)) => some (appCommand, testCommand)
          | _ => none
      | _ => none
  | _ => none

inductive StoreEvent where
  | analytics (request : Request)
  | fetch
  | folder (event : FolderEvent)

def storeStep (order : DictOrder) (names : SecureFilename) (fs : FileSystem) : StoreEvent → FileSystem
  | .analytics request => (analyticsCache order fs request).1
  | .fetch => (fetchCacheHandler fs).1
  | .folder event => folderStep names fs event

-- secure_filename keeps the letters and digits after the last dot.
def KeepsExtension (names : SecureFilename) : Prop :=
  ∀ name stem extension, rsplitOnce '.' name = some (stem, extension) → extension.all Char.isAlphanum = true →
    extension <:+ names.secure name

def NamedRequest (imageName : Text) : StoreEvent → Prop
  | .analytics request => request.appPackage = imageName
  | _ => False

def LatestRequest (events : List StoreEvent) (imageName appCommand testCommand : Text) : Prop :=
  ∃ request : Request, request.appPackage = imageName ∧ request.appCommand = appCommand ∧
    request.testCommand = testCommand ∧
    ∃ before after, events = before ++ .analytics request :: after ∧ ∀ later ∈ after, ¬ NamedRequest imageName later

-- The map the file stands for, as the rest of the server's model keeps it.
def cacheStep (cacheFile : CacheFile) : StoreEvent → CacheFile
  | .analytics request => nextCache cacheFile request
  | _ => cacheFile

def contentsOf (cacheFile : CacheFile) (imageName : Text) : Option Value :=
  ((loadCache cacheFile).lookup imageName).map fun pair => commandPair pair.1 pair.2

def Stores (fs : FileSystem) (cacheFile : CacheFile) : Prop := Holds (openCache fs).2 (contentsOf cacheFile)

def cacheContent (fs : FileSystem) : Text := ((fs uploadFolder).bind fun folder => folder.saved cacheFileName).getD []

theorem open_cache_value (fs : FileSystem) : (openCache fs).2 = initCache (cacheContent fs) := by
  rw [openCache, cacheContent]
  cases fs uploadFolder <;> rfl

theorem save_cache_content (fs : FileSystem) (folder : Folder) (content : Text) :
    cacheContent (saveCache fs folder content) = content := by
  simp [cacheContent, saveCache]

theorem open_cache_content (fs : FileSystem) : cacheContent (openCache fs).1 = cacheContent fs := by
  rw [openCache, save_cache_content, cacheContent]
  cases fs uploadFolder <;> rfl

theorem write_cache_content (fs : FileSystem) (content : Text) :
    cacheContent (writeCache (openCache fs).1 content) = content := by
  have present : ((openCache fs).1 uploadFolder).isSome := by simp [openCache, saveCache]
  obtain ⟨folder, present⟩ := Option.isSome_iff_exists.mp present
  rw [writeCache, present]
  exact save_cache_content _ folder content

theorem secure_not_cache (names : SecureFilename) (keeps : KeepsExtension names) (name : Text)
    (allowed : allowedFile name = true) : names.secure name ≠ cacheFileName := by
  rw [allowedFile] at allowed
  cases split : rsplitOnce '.' name with
  | none => simp [split] at allowed
  | some pair =>
      have known : ∀ extension ∈ allowedExtensions,
          extension.all Char.isAlphanum = true ∧ ¬ extension <:+ cacheFileName := by decide
      simp only [split, List.contains_iff_mem] at allowed
      intro same
      have suffix := keeps name pair.1 pair.2 split (known pair.2 allowed).1
      rw [same] at suffix
      exact (known pair.2 allowed).2 suffix

-- What a folder holds beside the file an upload saves in it.
theorem saved_cache_content (fs : FileSystem) (name content : Text) (package : Option Tree)
    (other : name ≠ cacheFileName) :
    cacheContent (Function.update fs uploadFolder
        (some ⟨Function.update ((fs uploadFolder).getD ⟨emptyTree, none⟩).saved name (some content), package⟩)) =
      cacheContent fs := by
  simp only [cacheContent, Function.update_self, Option.bind_some, Function.update_of_ne (Ne.symm other)]
  cases fs uploadFolder <;> rfl

theorem folder_cache_content (names : SecureFilename) (keeps : KeepsExtension names) (fs : FileSystem)
    (event : FolderEvent) : cacheContent (folderStep names fs event) = cacheContent fs := by
  cases event with
  | launch =>
      have different : uploadFolder ≠ cleanedFolder := by decide
      rw [folderStep, cleanDownloads]
      split
      · rfl
      · rw [cacheContent, Function.update_of_ne different, cacheContent]
  | upload request =>
      cases request with
      | none => rfl
      | some archive =>
          cases allowed : allowedFile archive.filename with
          | false => rw [folderStep, upload_refused names fs archive allowed]
          | true =>
              have other := secure_not_cache names keeps archive.filename allowed
              simp only [folderStep, fileUploadHandler, if_neg (allowed_nonempty archive.filename allowed), if_pos allowed]
              split <;> exact saved_cache_content fs _ _ _ other

theorem stores_of_content (fs next : FileSystem) (cacheFile : CacheFile) (same : cacheContent next = cacheContent fs)
    (stores : Stores fs cacheFile) : Stores next cacheFile := by
  rw [Stores, open_cache_value] at stores ⊢
  rw [same]
  exact stores

theorem contents_next (cacheFile : CacheFile) (request : Request) :
    contentsOf (nextCache cacheFile request) = Function.update (contentsOf cacheFile) request.appPackage
      (some (commandPair request.appCommand request.testCommand)) := by
  funext query
  rw [contentsOf, nextCache, load_add_entry, Function.update_apply]
  split <;> rfl

theorem add_entry_stores (order : DictOrder) (content : Text) (contents : Text → Option Value)
    (holds : Holds (initCache content) contents) (imageName appCommand testCommand : Text) :
    Holds (initCache (addEntry order (initCache content) imageName appCommand testCommand).text)
      (Function.update contents imageName (some (commandPair appCommand testCommand))) := by
  obtain ⟨members, cache, stored⟩ := holds
  obtain ⟨distinct, loaded⟩ := loaded_members content members cache
  have next := next_cache order members imageName (commandPair appCommand testCommand) loaded 0
  rw [leftText, Nat.sub_zero, List.take_length, if_pos ⟨rfl, rfl⟩] at next
  rw [cache, addEntry, next]
  exact holds_assigned order members contents imageName (commandPair appCommand testCommand) distinct stored

theorem cache_exists_held (cache : Value) (cacheFile : CacheFile) (holds : Holds cache (contentsOf cacheFile))
    (imageName appCommand testCommand : Text) :
    cacheExists cache imageName appCommand testCommand =
      some (Server.cacheExists (loadCache cacheFile) imageName appCommand testCommand) := by
  obtain ⟨members, cache, stored⟩ := holds
  subst cache
  rw [cacheExists, stored imageName, contentsOf, Server.cacheExists]
  cases (loadCache cacheFile).lookup imageName with
  | none => rfl
  | some pair =>
      rw [Option.map_some]
      dsimp only [commandPair, isPair]
      rw [Option.some.injEq, Bool.eq_iff_iff, Bool.and_eq_true, decide_eq_true_eq, decide_eq_true_eq, beq_iff_eq,
        Option.some.injEq, Prod.ext_iff]

theorem analytics_cache_eq (order : DictOrder) (fs : FileSystem) (cacheFile : CacheFile) (stores : Stores fs cacheFile)
    (request : Request) :
    analyticsCache order fs request =
      (writeCache (openCache fs).1
          (addEntry order (openCache fs).2 request.appPackage request.appCommand request.testCommand).text,
        some (skipsBuild cacheFile request)) := by
  have hit : (if request.useCache then
      cacheExists (openCache fs).2 request.appPackage request.appCommand request.testCommand else some false) =
        some (skipsBuild cacheFile request) := by
    rw [cache_exists_held _ cacheFile stores, skipsBuild]
    cases request.useCache <;> rfl
  rw [analyticsCache, hit]

theorem store_step_stores (order : DictOrder) (names : SecureFilename) (keeps : KeepsExtension names) (fs : FileSystem)
    (cacheFile : CacheFile) (event : StoreEvent) (stores : Stores fs cacheFile) :
    Stores (storeStep order names fs event) (cacheStep cacheFile event) := by
  cases event with
  | analytics request =>
      rw [Stores, open_cache_value, storeStep, analytics_cache_eq order fs cacheFile stores, write_cache_content,
        open_cache_value, cacheStep, contents_next]
      rw [Stores, open_cache_value] at stores
      exact add_entry_stores order _ _ stores request.appPackage request.appCommand request.testCommand
  | fetch => exact stores_of_content fs _ cacheFile (open_cache_content fs) stores
  | folder event => exact stores_of_content fs _ cacheFile (folder_cache_content names keeps fs event) stores

theorem run_stores (order : DictOrder) (names : SecureFilename) (keeps : KeepsExtension names) (fs : FileSystem)
    (cacheFile : CacheFile) (events : List StoreEvent) (stores : Stores fs cacheFile) :
    Stores (run (storeStep order names) fs events) (run cacheStep cacheFile events) := by
  induction events generalizing fs cacheFile with
  | nil => exact stores
  | cons event rest ih => exact ih _ _ (store_step_stores order names keeps fs cacheFile event stores)

theorem latest_cons (event : StoreEvent) (rest : List StoreEvent) (imageName appCommand testCommand : Text) :
    LatestRequest (event :: rest) imageName appCommand testCommand ↔
      (∃ request : Request, request.appPackage = imageName ∧ request.appCommand = appCommand ∧
        request.testCommand = testCommand ∧ event = .analytics request ∧ ∀ later ∈ rest, ¬ NamedRequest imageName later) ∨
      LatestRequest rest imageName appCommand testCommand := by
  simp only [LatestRequest, exists_split_cons, and_or_left, exists_or]

theorem lookup_run (cacheFile : CacheFile) (events : List StoreEvent) (imageName appCommand testCommand : Text) :
    (loadCache (run cacheStep cacheFile events)).lookup imageName = some (appCommand, testCommand) ↔
      LatestRequest events imageName appCommand testCommand ∨
        (∀ event ∈ events, ¬ NamedRequest imageName event) ∧
          (loadCache cacheFile).lookup imageName = some (appCommand, testCommand) := by
  induction events generalizing cacheFile with
  | nil =>
      have never : ¬ LatestRequest [] imageName appCommand testCommand := by simp [LatestRequest]
      simp [run_nil, never]
  | cons event rest ih =>
      rw [run_cons, ih, latest_cons, List.forall_mem_cons]
      cases event with
      | analytics request =>
          rw [cacheStep, nextCache, load_add_entry]
          have here : (∃ other : Request, other.appPackage = imageName ∧ other.appCommand = appCommand ∧
              other.testCommand = testCommand ∧ StoreEvent.analytics request = .analytics other ∧
                ∀ later ∈ rest, ¬ NamedRequest imageName later) ↔
              imageName = request.appPackage ∧ (request.appCommand, request.testCommand) = (appCommand, testCommand) ∧
                ∀ later ∈ rest, ¬ NamedRequest imageName later := by
            constructor
            · intro found
              obtain ⟨other, rfl, rfl, rfl, same, last⟩ := found
              cases same
              exact ⟨rfl, rfl, last⟩
            · intro found
              obtain ⟨rfl, commands, last⟩ := found
              exact ⟨request, rfl, (Prod.mk.inj commands).1, (Prod.mk.inj commands).2, rfl, last⟩
          have named : NamedRequest imageName (.analytics request) ↔ imageName = request.appPackage := eq_comm
          rw [here, named]
          by_cases same : imageName = request.appPackage
          · simp only [same, if_true, true_and, not_true_eq_false, false_and, or_false, Option.some.injEq]
            rw [or_comm, and_comm]
          · simp only [same, if_false, false_and, false_or, not_false_eq_true, true_and]
      | fetch => simp [cacheStep, NamedRequest]
      | folder event => simp [cacheStep, NamedRequest]

theorem lookup_sorted (members : List (Text × Value)) (key : Text) :
    lookup key (sortMembers members) = (lookup key members).map sortKeys := by
  induction members with
  | nil => rfl
  | cons entry members ih =>
      rw [sortMembers, lookup, lookup, ih]
      split <;> rfl

theorem distinct_sorted (members : List (Text × Value)) (distinct : Distinct members) : Distinct (sortMembers members) := by
  have keys : (sortMembers members).map Prod.fst = members.map Prod.fst := by
    induction members with
    | nil => rfl
    | cons entry members ih => rw [sortMembers, List.map_cons, List.map_cons, ih (List.nodup_cons.mp distinct).2]
  rw [Distinct, keys]
  exact distinct

theorem sorted_perm (members : List (Text × Value)) :
    (members.mergeSort fun one other => keyLe one.1 other.1).Perm members :=
  List.mergeSort_perm members _

def sortedOrder : DictOrder := ⟨fun members => members.mergeSort fun one other => keyLe one.1 other.1, sorted_perm⟩

theorem fetched_pair_held (fs : FileSystem) (cacheFile : CacheFile) (stores : Stores fs cacheFile) (imageName : Text) :
    (fetchCacheHandler fs).2.bind (fetchedPair imageName) = (loadCache cacheFile).lookup imageName := by
  obtain ⟨members, cache, stored⟩ := stores
  have opened := cache
  rw [open_cache_value] at opened
  obtain ⟨distinct, loaded⟩ := loaded_members _ members opened
  have done : (toJson (.dict members)).completed = true := by
    rw [toJson, dump_completed, encodable_sorted, encodable, encodableMembers, loaded]
    rfl
  have sorted : lookup imageName (ofPairs (sortedOrder.arrange (sortMembers members))) =
      ((loadCache cacheFile).lookup imageName).map fun pair => commandPair pair.1 pair.2 := by
    rw [lookup_arranged sortedOrder _ (distinct_sorted members distinct), lookup_sorted, stored imageName, contentsOf,
      Option.map_map]
    rfl
  have response : loads (toJson (.dict members)).text =
      some (.dict [("_cache".toList, .dict (sortedOrder.arrange (sortMembers members)))]) := by
    rw [toJson, loads_dump _ _ _ done, sortKeys, sortMembers, sortMembers, sortKeys, List.mergeSort_singleton]
    rfl
  have inner : lookup "_cache".toList (ofPairs [("_cache".toList, Value.dict (sortedOrder.arrange (sortMembers members)))]) =
      some (.dict (sortedOrder.arrange (sortMembers members))) := rfl
  simp only [fetchCacheHandler, cache, done, if_true, Option.bind_some, fetchedPair, response, inner, sorted]
  cases (loadCache cacheFile).lookup imageName <;> rfl

theorem stores_absent (fs : FileSystem) (absent : fs uploadFolder = none) : Stores fs .missing := by
  have empty : cacheContent fs = [] := by rw [cacheContent, absent]; rfl
  rw [Stores, open_cache_value, empty]
  exact (holds_empty_iff _).mpr fun key => rfl

theorem cache_follows_latest_request (order : DictOrder) (names : SecureFilename) (keeps : KeepsExtension names)
    (fs : FileSystem) (absent : fs uploadFolder = none) (events : List StoreEvent)
    (imageName appCommand testCommand : Text) :
    let reached := run (storeStep order names) fs events
    (∃ answer, cacheExists (openCache reached).2 imageName appCommand testCommand = some answer ∧
        (answer = true ↔ LatestRequest events imageName appCommand testCommand)) ∧
      (LatestRequest events imageName appCommand testCommand →
        (fetchCacheHandler reached).2.bind (fetchedPair imageName) = some (appCommand, testCommand) ∧
          ∀ debugMode, (analyticsCache order (fetchCacheHandler reached).1
            ⟨imageName, appCommand, testCommand, true, debugMode⟩).2 = some true) := by
  intro reached
  have stores : Stores reached (run cacheStep .missing events) :=
    run_stores order names keeps fs .missing events (stores_absent fs absent)
  have fetched : Stores (fetchCacheHandler reached).1 (run cacheStep .missing events) :=
    stores_of_content reached _ _ (open_cache_content reached) stores
  have latest : (loadCache (run cacheStep .missing events)).lookup imageName = some (appCommand, testCommand) ↔
      LatestRequest events imageName appCommand testCommand := by
    rw [lookup_run]
    exact or_iff_left fun never => by cases never.2
  refine ⟨⟨_, cache_exists_held _ _ stores imageName appCommand testCommand, ?_⟩, fun asked => ⟨?_, fun debugMode => ?_⟩⟩
  · rw [Server.cacheExists, beq_iff_eq, latest]
  · rw [fetched_pair_held reached _ stores, latest.mpr asked]
  · rw [analytics_cache_eq order _ _ fetched, skipsBuild, Server.cacheExists, latest.mpr asked]
    simp

theorem ascii_keeps_extension : KeepsExtension asciiNames := by
  intro name stem extension split letters
  have kept : extension.filter safeCharacter = extension := by
    refine List.filter_eq_self.mpr fun character member => ?_
    rw [safeCharacter, List.all_eq_true.mp letters character member, Bool.true_or]
  refine ⟨(stem ++ ['.']).filter safeCharacter, ?_⟩
  rw [rsplit_once_eq '.' name stem extension split]
  simp only [asciiNames, List.filter_append, List.filter_cons, List.filter_nil, kept]
  split <;> simp

def firstRun : Request := ⟨"one.tar.gz".toList, "./app".toList, "./test".toList, true, false⟩
def secondRun : Request := ⟨"one.tar.gz".toList, "./app -v".toList, [], false, true⟩

def storeHistory : List StoreEvent :=
  [.folder (.upload (some firstArchive)), .analytics firstRun, .fetch, .analytics secondRun, .folder .launch,
    .folder (.upload (some zipArchive))]

theorem second_run_prefilled :
    (fetchCacheHandler (run (storeStep asListed asciiNames) noFolders storeHistory)).2.bind
        (fetchedPair "one.tar.gz".toList) = some ("./app -v".toList, []) ∧
      ¬ LatestRequest storeHistory "one.tar.gz".toList "./app".toList "./test".toList := by
  have asked : LatestRequest storeHistory "one.tar.gz".toList "./app -v".toList [] :=
    ⟨secondRun, rfl, rfl, rfl, storeHistory.take 3, storeHistory.drop 4, rfl, by simp [storeHistory, NamedRequest]⟩
  have follows := cache_follows_latest_request asListed asciiNames ascii_keeps_extension noFolders rfl storeHistory
  have fetched := ((follows _ _ _).2 asked).1
  refine ⟨fetched, fun earlier => ?_⟩
  have other := ((follows _ _ _).2 earlier).1
  exact absurd (fetched.symm.trans other) (by decide)

end AppFit.Server.CacheText
