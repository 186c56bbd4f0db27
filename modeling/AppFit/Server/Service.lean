import AppFit.Server.CacheStore
import AppFit.Server.Response

/- All of server.py on one disk: the uploads, the cache file beside them, the plot
   files and the images, under any sequence of requests handled one after the
   other. The plain server keeps a map for the cache, and for the package folder
   the list of everything that was unpacked into it.

   Of an image, under the name that the script is given, there is only a record of
   its last successful docker-compose build, in which Docker is taken to copy the
   package folder as it is at that moment. That the script's docker rmi removes
   every image with "none" in its line, and that docker-compose up builds an image
   that is missing, are left out. -/
set_option autoImplicit false

namespace AppFit.Server

open AppFit.Shell AppFit.JsonText AppFit.Dict AppFit.Runs AppFit.Server.CacheText

-- sources is the package folder as the last successful build of an image copied it.
structure Host where
  fs : FileSystem
  images : Images
  sources : Text → Option Tree
  directory : Directory
  handled : Nat

inductive Call where
  | analytics (request : Request) (outcome : Outcome)
  | analyticsGet
  | fetchCache
  | upload (archive : Option Archive)

-- error is Flask's page for an exception, or for a handler that returns nothing.
inductive Reply where
  | page (body : Text)
  | stored (answer : Answer)
  | error

section Build

variable {Source : Type}

-- COPY takes the package folder as it is when the image is built.
def buildSources (words : List Text) (outcome : Outcome) (source : Source) (sources : Text → Option Source) :
    Text → Option Source :=
  match parseOptions words with
  | none => sources
  | some options =>
      if options.useCache then sources
      else if outcome.buildOk then Function.update sources options.appImage (some source)
      else sources

end Build

def scriptCleans (words : List Text) (fs : FileSystem) : FileSystem :=
  match parseOptions words with
  | none => fs
  | some _ => cleanDownloads fs

-- add_entry raises when what it loaded is no dict; the file has been emptied then.
def analyticsCall (numCores : Nat) (order : DictOrder) (host : Host) (request : Request) (outcome : Outcome) :
    Host × Reply :=
  let cached := analyticsCache order host.fs request
  let entry := CacheText.addEntry order (openCache host.fs).2 request.appPackage request.appCommand request.testCommand
  let failed := { host with fs := cached.1, handled := host.handled + 1 }
  match cached.2 with
  | none => (failed, .error)
  | some skip =>
      if entry.completed && launchable request then
        let words := commandWords request skip
        let executed := launchAgent numCores words outcome host.handled host.images host.directory
        let launched :=
          { fs := scriptCleans words cached.1
            images := executed.images
            sources := buildSources words outcome ((packageTree cached.1).getD emptyTree) host.sources
            directory := executed.directory
            handled := host.handled + 1 }
        if executed.status = 0 then
          ({ launched with directory := (collectPlots executed.directory).2 },
            .page (responseText ((collectPlots executed.directory).1.map StoredFile.content)))
        else (launched, .page (responseText []))
      else (failed, .error)

def pageReply : Option Text → Reply
  | some body => .page body
  | none => .error

def uploadReply (answer : Answer) : Reply := if answer = .error then .error else .stored answer

def respond (numCores : Nat) (order : DictOrder) (names : SecureFilename) (host : Host) : Call → Host × Reply
  | .analytics request outcome => analyticsCall numCores order host request outcome
  | .analyticsGet => (host, .page (responseText []))
  | .fetchCache =>
      let fetched := fetchCacheHandler host.fs
      ({ host with fs := fetched.1 }, pageReply fetched.2)
  | .upload archive =>
      let uploaded := fileUploadHandler names host.fs archive
      ({ host with fs := uploaded.1 }, uploadReply uploaded.2)

def hostStep (numCores : Nat) (order : DictOrder) (names : SecureFilename) (host : Host) (call : Call) : Host :=
  (respond numCores order names host call).1

structure Service where
  server : ServerState
  unpacked : List Member
  sources : Text → Option (List Member)

def serviceStep (numCores : Nat) (names : SecureFilename) (service : Service) : Call → Service
  | .analytics request outcome =>
      { service with
        server := serve numCores service.server (request, outcome)
        sources :=
          if launchable request then
            buildSources (handlerWords service.server.cacheFile request) outcome service.unpacked service.sources
          else service.sources }
  | .upload archive => { service with unpacked := unpackStep names service.unpacked (.upload archive) }
  | _ => service

structure Refines (host : Host) (service : Service) : Prop where
  cache : Stores host.fs service.server.cacheFile
  images : host.images = service.server.images
  directory : host.directory = service.server.directory
  handled : host.handled = service.server.handled
  package : Unpacked host.fs service.unpacked
  sources : ∀ image, host.sources image = (service.sources image).map (extract emptyTree)

-- What the plain server says the reply is: the analytics text, the cached pair of
-- every package, and for an upload what the file alone decides.
def Agrees (numCores : Nat) (names : SecureFilename) (service : Service) : Call → Reply → Prop
  | .analytics request outcome, reply => reply = pageReply (answerText numCores service.server (request, outcome))
  | .analyticsGet, reply => reply = .page (responseText [])
  | .fetchCache, reply =>
      ∃ body, reply = .page body ∧
        ∀ imageName, fetchedPair imageName body = (loadCache service.server.cacheFile).lookup imageName
  | .upload archive, reply => ∀ fs, reply = uploadReply (fileUploadHandler names fs archive).2

section Package

theorem save_cache_package (fs : FileSystem) (folder : Folder) (content : Text) :
    packageTree (saveCache fs folder content) = folder.package := by
  simp [packageTree, saveCache]

theorem open_cache_package (fs : FileSystem) : packageTree (openCache fs).1 = packageTree fs := by
  rw [openCache, save_cache_package, packageTree]
  cases fs uploadFolder <;> rfl

theorem write_cache_package (fs : FileSystem) (content : Text) : packageTree (writeCache fs content) = packageTree fs := by
  rw [writeCache]
  split
  · rfl
  · rename_i folder present
    rw [save_cache_package, packageTree, present]
    rfl

theorem analytics_cache_package (order : DictOrder) (fs : FileSystem) (request : Request) :
    packageTree (analyticsCache order fs request).1 = packageTree fs := by
  rw [analyticsCache]
  split
  · exact open_cache_package fs
  · exact (write_cache_package _ _).trans (open_cache_package fs)

theorem script_cleans_package (words : List Text) (fs : FileSystem) :
    packageTree (scriptCleans words fs) = packageTree fs := by
  rw [scriptCleans]
  split
  · rfl
  · exact clean_downloads_package fs

end Package

theorem script_cleans_cache (names : SecureFilename) (keeps : KeepsExtension names) (words : List Text) (fs : FileSystem)
    (cacheFile : CacheFile) (stores : Stores fs cacheFile) : Stores (scriptCleans words fs) cacheFile := by
  rw [scriptCleans]
  split
  · exact stores
  · exact stores_of_content fs _ cacheFile (folder_cache_content names keeps fs .launch) stores

theorem add_entry_completes (order : DictOrder) (fs : FileSystem) (cacheFile : CacheFile) (stores : Stores fs cacheFile)
    (imageName appCommand testCommand : Text) :
    (CacheText.addEntry order (openCache fs).2 imageName appCommand testCommand).completed = true := by
  obtain ⟨members, cache, _⟩ := stores
  have loaded := (loaded_members _ members (open_cache_value fs ▸ cache)).2
  rw [cache, CacheText.addEntry, CacheText.setItem, dump_completed, encodable_assigned order members _ _ loaded]
  rfl

-- With a cache that can be read, the handler comes down to the plain one.
theorem analytics_call_eq (numCores : Nat) (order : DictOrder) (host : Host) (service : Service) (request : Request)
    (outcome : Outcome) (refines : Refines host service) :
    analyticsCall numCores order host request outcome =
      ({ fs :=
          if launchable request then
            scriptCleans (handlerWords service.server.cacheFile request) (analyticsCache order host.fs request).1
          else (analyticsCache order host.fs request).1
         images := (serve numCores service.server (request, outcome)).images
         sources :=
          if launchable request then
            buildSources (handlerWords service.server.cacheFile request) outcome ((packageTree host.fs).getD emptyTree)
              host.sources
          else host.sources
         directory := (serve numCores service.server (request, outcome)).directory
         handled := host.handled + 1 },
        pageReply (answerText numCores service.server (request, outcome))) := by
  have skips : (analyticsCache order host.fs request).2 = some (skipsBuild service.server.cacheFile request) := by
    rw [analytics_cache_eq order host.fs service.server.cacheFile refines.cache]
  have completes := add_entry_completes order host.fs service.server.cacheFile refines.cache request.appPackage
    request.appCommand request.testCommand
  simp only [analyticsCall, skips, completes, Bool.true_and, analytics_cache_package, refines.images, refines.directory,
    refines.handled, launch_status]
  rw [serve_images, serve_directory, answerText, handler_response]
  cases launched : launchable request with
  | false => simp [pageReply]
  | true =>
      by_cases succeeded : exitStatus (commandWords request (skipsBuild service.server.cacheFile request)) outcome = 0 <;>
        simp [succeeded, executed, handlerWords, pageReply]

theorem build_sources_map {Source Other : Type} (view : Source → Other) (words : List Text) (outcome : Outcome)
    (source : Source) (sources : Text → Option Source) (image : Text) :
    buildSources words outcome (view source) (fun image => (sources image).map view) image =
      (buildSources words outcome source sources image).map view := by
  rw [buildSources, buildSources]
  cases parseOptions words with
  | none => rfl
  | some options =>
      dsimp only
      split
      · rfl
      · split
        · rw [Function.update_apply, Function.update_apply]
          split <;> rfl
        · rfl

theorem refines_analytics (numCores : Nat) (order : DictOrder) (names : SecureFilename) (keeps : KeepsExtension names)
    (host : Host) (service : Service) (request : Request) (outcome : Outcome) (refines : Refines host service) :
    Refines (analyticsCall numCores order host request outcome).1
      (serviceStep numCores names service (.analytics request outcome)) := by
  have stores : Stores (analyticsCache order host.fs request).1 (nextCache service.server.cacheFile request) :=
    store_step_stores order names keeps host.fs service.server.cacheFile (.analytics request) refines.cache
  rw [analytics_call_eq numCores order host service request outcome refines]
  refine ⟨?_, rfl, rfl, ?_, ?_, ?_⟩
  · rw [serviceStep, serve_cache]
    cases launchable request with
    | false => exact stores
    | true => exact script_cleans_cache names keeps _ _ _ stores
  · rw [serviceStep, serve_handled, refines.handled]
  · rw [Unpacked, serviceStep]
    cases launchable request with
    | false => rw [if_neg Bool.false_ne_true, analytics_cache_package]; exact refines.package
    | true => rw [if_pos rfl, script_cleans_package, analytics_cache_package]; exact refines.package
  · intro image
    rw [serviceStep]
    cases launchable request with
    | false => exact refines.sources image
    | true =>
        have same : host.sources = fun image => (service.sources image).map (extract emptyTree) :=
          funext refines.sources
        rw [if_pos rfl, refines.package, same]
        exact build_sources_map (extract emptyTree) _ outcome service.unpacked service.sources image

theorem refines_step (numCores : Nat) (order : DictOrder) (names : SecureFilename) (keeps : KeepsExtension names)
    (host : Host) (service : Service) (call : Call) (refines : Refines host service) :
    Refines (hostStep numCores order names host call) (serviceStep numCores names service call) := by
  cases call with
  | analytics request outcome => exact refines_analytics numCores order names keeps host service request outcome refines
  | analyticsGet => exact refines
  | fetchCache =>
      refine ⟨?_, refines.images, refines.directory, refines.handled, ?_, refines.sources⟩
      · exact store_step_stores order names keeps host.fs service.server.cacheFile .fetch refines.cache
      · have kept := open_cache_package host.fs
        rw [hostStep, respond, Unpacked, fetchCacheHandler, kept]
        exact refines.package
  | upload archive =>
      refine ⟨?_, refines.images, refines.directory, refines.handled, ?_, refines.sources⟩
      · exact store_step_stores order names keeps host.fs service.server.cacheFile (.folder (.upload archive)) refines.cache
      · exact folder_step_unpacked names host.fs service.unpacked (.upload archive) refines.package

theorem fetch_completes (fs : FileSystem) (cacheFile : CacheFile) (stores : Stores fs cacheFile) :
    (fetchCacheHandler fs).2 = some (toJson (openCache fs).2).text := by
  obtain ⟨members, cache, _⟩ := stores
  have loaded := (loaded_members _ members (open_cache_value fs ▸ cache)).2
  have done : (toJson (openCache fs).2).completed = true := by
    rw [cache, toJson, dump_completed, encodable_sorted, encodable, encodableMembers, loaded]
    rfl
  rw [fetchCacheHandler, if_pos done]

theorem upload_answer_alone (names : SecureFilename) (fs other : FileSystem) (archive : Option Archive) :
    (fileUploadHandler names fs archive).2 = (fileUploadHandler names other archive).2 := by
  cases archive with
  | none => rfl
  | some archive =>
      simp only [fileUploadHandler]
      split_ifs <;> rfl

theorem reply_agrees (numCores : Nat) (order : DictOrder) (names : SecureFilename) (host : Host) (service : Service)
    (call : Call) (refines : Refines host service) :
    Agrees numCores names service call (respond numCores order names host call).2 := by
  cases call with
  | analytics request outcome =>
      rw [respond, analytics_call_eq numCores order host service request outcome refines]
      rfl
  | analyticsGet => rfl
  | fetchCache =>
      have body := fetch_completes host.fs service.server.cacheFile refines.cache
      refine ⟨(toJson (openCache host.fs).2).text, by rw [respond, body]; rfl, ?_⟩
      intro imageName
      rw [← fetched_pair_held host.fs service.server.cacheFile refines.cache, body, Option.bind_some]
  | upload archive =>
      intro fs
      rw [respond, upload_answer_alone names fs host.fs archive]

theorem host_refines (numCores : Nat) (order : DictOrder) (names : SecureFilename) (keeps : KeepsExtension names)
    (host : Host) (absent : host.fs uploadFolder = none) (unbuilt : ∀ image, host.sources image = none)
    (calls : List Call) :
    Refines (run (hostStep numCores order names) host calls)
      (run (serviceStep numCores names) ⟨⟨.missing, host.images, host.directory, host.handled⟩, [], fun _ => none⟩ calls) := by
  refine run_simulation (hostStep numCores order names) (serviceStep numCores names) Refines
    (refines_step numCores order names keeps) host _ calls ⟨stores_absent host.fs absent, rfl, rfl, rfl, ?_, unbuilt⟩
  rw [Unpacked, packageTree, absent]
  rfl

-- The disk and the plain server cannot be told apart by any request after any
-- history of requests.
theorem service_refined (numCores : Nat) (order : DictOrder) (names : SecureFilename) (keeps : KeepsExtension names)
    (host : Host) (absent : host.fs uploadFolder = none) (unbuilt : ∀ image, host.sources image = none)
    (calls : List Call) :
    let reached := run (hostStep numCores order names) host calls
    let service := run (serviceStep numCores names)
      ⟨⟨.missing, host.images, host.directory, host.handled⟩, [], fun _ => none⟩ calls
    Refines reached service ∧
      ∀ call, Agrees numCores names service call (respond numCores order names reached call).2 := by
  intro reached service
  have refines : Refines reached service := host_refines numCores order names keeps host absent unbuilt calls
  exact ⟨refines, fun call => reply_agrees numCores order names reached service call refines⟩

def freshHost : Host := ⟨noFolders, fun _ => none, fun _ => none, emptyDirectory, 0⟩

def uploadedThenCached : List Call :=
  [.upload (some firstArchive), .analytics firstRun allPlots, .fetchCache, .upload (some zipArchive)]

theorem cached_request_refined :
    (respond 4 asListed asciiNames (run (hostStep 4 asListed asciiNames) freshHost uploadedThenCached)
        (.analytics firstRun allPlots)).2 =
      pageReply (answerText 4 (run (serviceStep 4 asciiNames) ⟨emptyServer, [], fun _ => none⟩ uploadedThenCached).server
        (firstRun, allPlots)) :=
  (service_refined 4 asListed asciiNames ascii_keeps_extension freshHost rfl (fun _ => rfl) uploadedThenCached).2
    (.analytics firstRun allPlots)

def unpackedBy (names : SecureFilename) : Call → List Member
  | .upload (some archive) => if allowedFile archive.filename ∧ unpacks names archive then extracted archive else []
  | _ => []

-- A successful docker-compose build of the image.
def Builds (service : Service) (image : Text) : Call → Prop
  | .analytics request outcome =>
      launchable request = true ∧
        ∃ options, parseOptions (handlerWords service.server.cacheFile request) = some options ∧
          options.useCache = false ∧ outcome.buildOk = true ∧ options.appImage = image
  | _ => False

theorem build_sources_cases {Source : Type} (words : List Text) (outcome : Outcome) (source : Source)
    (sources : Text → Option Source) (image : Text) :
    (∃ options, parseOptions words = some options ∧ options.useCache = false ∧ outcome.buildOk = true ∧
        options.appImage = image) ∧ buildSources words outcome source sources image = some source ∨
      (¬ ∃ options, parseOptions words = some options ∧ options.useCache = false ∧ outcome.buildOk = true ∧
        options.appImage = image) ∧ buildSources words outcome source sources image = sources image := by
  rw [buildSources]
  cases parseOptions words with
  | none => exact .inr ⟨by simp, rfl⟩
  | some options =>
      cases cached : options.useCache with
      | true => exact .inr ⟨by simp [cached], by simp [cached]⟩
      | false =>
          cases succeeded : outcome.buildOk with
          | false => exact .inr ⟨by simp, by simp [cached]⟩
          | true =>
              by_cases same : options.appImage = image
              · exact .inl ⟨⟨options, rfl, cached, rfl, same⟩, by simp [cached, same]⟩
              · exact .inr ⟨by simp [same], by simp [cached, Function.update_of_ne (Ne.symm same)]⟩

theorem service_sources (numCores : Nat) (names : SecureFilename) (service : Service) (call : Call) (image : Text) :
    Builds service image call ∧ (serviceStep numCores names service call).sources image = some service.unpacked ∨
      ¬ Builds service image call ∧ (serviceStep numCores names service call).sources image = service.sources image := by
  cases call with
  | analytics request outcome =>
      rw [serviceStep, Builds]
      cases launched : launchable request with
      | false => exact .inr ⟨by simp, rfl⟩
      | true =>
          have cases := build_sources_cases (handlerWords service.server.cacheFile request) outcome service.unpacked
            service.sources image
          simpa using cases
  | analyticsGet => exact .inr ⟨id, rfl⟩
  | fetchCache => exact .inr ⟨id, rfl⟩
  | upload archive => exact .inr ⟨id, rfl⟩

theorem service_unpacked (numCores : Nat) (names : SecureFilename) (service : Service) (calls : List Call) :
    (run (serviceStep numCores names) service calls).unpacked = service.unpacked ++ calls.flatMap (unpackedBy names) := by
  induction calls generalizing service with
  | nil => simp [run_nil]
  | cons call rest ih =>
      rw [run_cons, ih, List.flatMap_cons, ← List.append_assoc]
      congr 1
      cases call with
      | upload archive =>
          cases archive with
          | none => simp [serviceStep, unpackStep, unpackedBy]
          | some archive =>
              simp only [serviceStep, unpackStep, unpackedBy]
              split
              · rfl
              · rw [List.append_nil]
      | analytics request outcome => simp [serviceStep, unpackedBy]
      | analyticsGet => simp [serviceStep, unpackedBy]
      | fetchCache => simp [serviceStep, unpackedBy]

-- The last successful build of an image copied what the uploads before it had
-- unpacked, whichever package they were made for.
theorem files_copied_by_last_build (numCores : Nat) (order : DictOrder) (names : SecureFilename)
    (keeps : KeepsExtension names) (host : Host) (absent : host.fs uploadFolder = none)
    (unbuilt : ∀ image, host.sources image = none) (calls : List Call) (image : Text) (tree : Tree) :
    let start : Service := ⟨⟨.missing, host.images, host.directory, host.handled⟩, [], fun _ => none⟩
    (run (hostStep numCores order names) host calls).sources image = some tree ↔
      ∃ before call after,
        Latest (serviceStep numCores names) (fun service call => Builds service image call) start calls before call after ∧
          tree = extract emptyTree (before.flatMap (unpackedBy names)) := by
  intro start
  have latest := latest_value (serviceStep numCores names) (fun service call => Builds service image call)
    (fun service => service.sources image) (fun service _ => some service.unpacked)
    (fun service call => service_sources numCores names service call image) start calls rfl
  rw [(host_refines numCores order names keeps host absent unbuilt calls).sources image, Option.map_eq_some_iff]
  constructor
  · intro found
    obtain ⟨members, source, rfl⟩ := found
    obtain ⟨before, call, after, last, same⟩ := (latest members).mp source
    cases same
    exact ⟨before, call, after, last, by rw [service_unpacked, List.nil_append]⟩
  · intro found
    obtain ⟨before, call, after, last, rfl⟩ := found
    refine ⟨_, (latest _).mpr ⟨before, call, after, last, rfl⟩, ?_⟩
    rw [service_unpacked, List.nil_append]

-- The zip archive came after the build, which did not copy it.
theorem first_build_copied :
    (run (hostStep 4 asListed asciiNames) freshHost uploadedThenCached).sources firstRun.appPackage =
      some (extract emptyTree ([Call.upload (some firstArchive)].flatMap (unpackedBy asciiNames))) := by
  refine (files_copied_by_last_build 4 asListed asciiNames ascii_keeps_extension freshHost rfl (fun _ => rfl)
    uploadedThenCached firstRun.appPackage _).mpr
      ⟨[.upload (some firstArchive)], .analytics firstRun allPlots, [.fetchCache, .upload (some zipArchive)], ⟨rfl, ?_, ?_⟩, rfl⟩
  · exact ⟨by decide, _, parse_regular firstRun _ (by decide) (by decide), by decide, rfl, rfl⟩
  · exact ⟨id, id, trivial⟩

end AppFit.Server
