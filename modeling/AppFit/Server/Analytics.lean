import AppFit.Lib.Runs
import AppFit.Server.Cache
import AppFit.Server.LaunchAgent

/- POST /api/analytics: comments_handler of server.py together with the script it
   runs. One step handles one request; the outcome of the docker commands comes
   with the request. -/
set_option autoImplicit false

namespace AppFit.Server

open AppFit.Shell AppFit.Runs

structure Request where
  appPackage : Text
  appCommand : Text
  testCommand : Text
  useCache : Bool
  debugMode : Bool
deriving DecidableEq

def dockerbuildPackagePath : Text := "./downloads/package".toList

def commandWords (request : Request) (skip : Bool) : List Text :=
  ['-' :: 'p' :: dockerbuildPackagePath, '-' :: 'a' :: request.appCommand, '-' :: 'm' :: request.appPackage] ++
    (if request.testCommand = [] then [] else ['-' :: 't' :: request.testCommand]) ++
    (if skip then [['-', 'c']] else []) ++ (if request.debugMode then [['-', 's']] else [])

-- execve takes no word with a NUL: subprocess.call raises before the script runs.
def nulFree (text : Text) : Bool := !text.contains (Char.ofNat 0)

def launchable (request : Request) : Bool :=
  nulFree request.appPackage && nulFree request.appCommand && nulFree request.testCommand

structure ServerState where
  cacheFile : CacheFile
  images : Images
  directory : Directory
  handled : Nat

def skipsBuild (cacheFile : CacheFile) (request : Request) : Bool :=
  request.useCache &&
    cacheExists (loadCache cacheFile) request.appPackage request.appCommand request.testCommand

def handlerWords (cacheFile : CacheFile) (request : Request) : List Text :=
  commandWords request (skipsBuild cacheFile request)

def nextCache (cacheFile : CacheFile) (request : Request) : CacheFile :=
  addEntry (loadCache cacheFile) request.appPackage request.appCommand request.testCommand

theorem skips_build_hit (cacheFile : CacheFile) (request : Request) (skips : skipsBuild cacheFile request = true) :
    (loadCache cacheFile).lookup request.appPackage = some (request.appCommand, request.testCommand) := by
  simp only [skipsBuild, cacheExists, Bool.and_eq_true, beq_iff_eq] at skips
  exact skips.2

abbrev Exchange := Request × Outcome

-- The response is the list of collected files; none is the exception of a word
-- that cannot be passed, raised after the cache entry has been written.
def commentsHandler (numCores : Nat) (server : ServerState) (exchange : Exchange) : ServerState × Option (List StoredFile) :=
  let cacheFile := nextCache server.cacheFile exchange.1
  if launchable exchange.1 then
    let executed := launchAgent numCores (handlerWords server.cacheFile exchange.1) exchange.2 server.handled
      server.images server.directory
    if executed.status = 0 then
      (⟨cacheFile, executed.images, (collectPlots executed.directory).2, server.handled + 1⟩,
        some (collectPlots executed.directory).1)
    else (⟨cacheFile, executed.images, executed.directory, server.handled + 1⟩, some [])
  else (⟨cacheFile, server.images, server.directory, server.handled + 1⟩, none)

def serve (numCores : Nat) (server : ServerState) (exchange : Exchange) : ServerState := (commentsHandler numCores server exchange).1

def executed (numCores : Nat) (server : ServerState) (exchange : Exchange) : Executed :=
  launchAgent numCores (handlerWords server.cacheFile exchange.1) exchange.2 server.handled server.images server.directory

theorem comments_handler_eq (numCores : Nat) (server : ServerState) (exchange : Exchange) :
    commentsHandler numCores server exchange =
      (⟨nextCache server.cacheFile exchange.1,
          if launchable exchange.1 then (executed numCores server exchange).images else server.images,
          if launchable exchange.1 then
            if exitStatus (handlerWords server.cacheFile exchange.1) exchange.2 = 0 then
              (collectPlots (executed numCores server exchange).directory).2
            else (executed numCores server exchange).directory
          else server.directory,
          server.handled + 1⟩,
        if launchable exchange.1 then
          if exitStatus (handlerWords server.cacheFile exchange.1) exchange.2 = 0 then
            some (collectPlots (executed numCores server exchange).directory).1
          else some []
        else none) := by
  simp only [commentsHandler, launch_status, executed]
  split
  · split <;> rfl
  · rfl

theorem serve_cache (numCores : Nat) (server : ServerState) (exchange : Exchange) :
    (serve numCores server exchange).cacheFile = nextCache server.cacheFile exchange.1 := by
  rw [serve, comments_handler_eq]

theorem serve_images (numCores : Nat) (server : ServerState) (exchange : Exchange) :
    (serve numCores server exchange).images =
      if launchable exchange.1 then (executed numCores server exchange).images else server.images := by
  rw [serve, comments_handler_eq]

theorem serve_handled (numCores : Nat) (server : ServerState) (exchange : Exchange) :
    (serve numCores server exchange).handled = server.handled + 1 := by
  rw [serve, comments_handler_eq]

theorem serve_directory (numCores : Nat) (server : ServerState) (exchange : Exchange) :
    (serve numCores server exchange).directory =
      if launchable exchange.1 then
        if exitStatus (handlerWords server.cacheFile exchange.1) exchange.2 = 0 then
          (collectPlots (executed numCores server exchange).directory).2
        else (executed numCores server exchange).directory
      else server.directory := by
  rw [serve, comments_handler_eq]

theorem handler_response (numCores : Nat) (server : ServerState) (exchange : Exchange) :
    (commentsHandler numCores server exchange).2 =
      if launchable exchange.1 then
        if exitStatus (handlerWords server.cacheFile exchange.1) exchange.2 = 0 then
          some (collectPlots (executed numCores server exchange).directory).1
        else some []
      else none := by
  rw [comments_handler_eq]

theorem getopts_flags (skip debug : Bool) :
    getopts optstring ((if skip then [['-', 'c']] else []) ++ (if debug then [['-', 's']] else [])) =
      (if skip then [.flag 'c'] else []) ++ (if debug then [.flag 's'] else []) := by
  have cacheFlag := fun words => getopts_flag optstring 'c' words rfl (by decide)
  have singleFlag := fun words => getopts_flag optstring 's' words rfl (by decide)
  have ended : getopts optstring [] = [] := rfl
  cases skip <;> cases debug <;> simp [cacheFlag, singleFlag, ended]

-- The options after the three that are always there.
def tailEvents (request : Request) (skip : Bool) : List OptEvent :=
  (if request.testCommand = [] then [] else [.value 't' request.testCommand]) ++
    (if skip then [.flag 'c'] else []) ++ (if request.debugMode then [.flag 's'] else [])

theorem getopts_tail (request : Request) (skip : Bool) :
    getopts optstring ((if request.testCommand = [] then [] else ['-' :: 't' :: request.testCommand]) ++
        (if skip then [['-', 'c']] else []) ++ (if request.debugMode then [['-', 's']] else [])) =
      tailEvents request skip := by
  have flags := getopts_flags skip request.debugMode
  rw [tailEvents]
  by_cases empty : request.testCommand = []
  · simpa [empty] using flags
  · simp only [if_neg empty, List.cons_append, List.nil_append]
    rw [getopts_inline_value optstring 't' request.testCommand _ rfl empty, flags]

theorem parse_tail (request : Request) (skip : Bool) (options : Options) (noTest : options.testCommand = [])
    (noCache : options.useCache = false) (noSingle : options.singleRun = false) :
    (tailEvents request skip).foldlM optionStep options =
      some { options with testCommand := request.testCommand, useCache := skip, singleRun := request.debugMode } := by
  cases options
  simp only at noTest noCache noSingle
  subst noTest noCache noSingle
  rw [tailEvents]
  by_cases empty : request.testCommand = [] <;> cases skip <;> cases request.debugMode <;> simp [empty, optionStep]

theorem parse_regular (request : Request) (skip : Bool) (package : request.appPackage ≠ [])
    (command : request.appCommand ≠ []) :
    parseOptions (commandWords request skip) =
      some ⟨dockerbuildPackagePath, request.appCommand, request.testCommand, request.appPackage, skip,
        request.debugMode, 0⟩ := by
  have words : getopts optstring (commandWords request skip) =
      [.value 'p' dockerbuildPackagePath, .value 'a' request.appCommand, .value 'm' request.appPackage] ++
        tailEvents request skip := by
    rw [← getopts_tail request skip]
    simp only [commandWords, List.append_assoc, List.cons_append, List.nil_append]
    rw [getopts_inline_value optstring 'p' _ _ rfl (by decide),
      getopts_inline_value optstring 'a' _ _ rfl command,
      getopts_inline_value optstring 'm' _ _ rfl package]
  rw [parseOptions, words, List.foldlM_append]
  exact parse_tail request skip ⟨dockerbuildPackagePath, request.appCommand, [], request.appPackage, false, false, 0⟩
    rfl rfl rfl

-- An empty application command takes the package word as its value, and the
-- image name stays unset.
theorem parse_empty_command (request : Request) (skip : Bool) (command : request.appCommand = []) :
    parseOptions (commandWords request skip) =
      some ⟨dockerbuildPackagePath, '-' :: 'm' :: request.appPackage, request.testCommand, [], skip,
        request.debugMode, 0⟩ := by
  have words : getopts optstring (commandWords request skip) =
      [.value 'p' dockerbuildPackagePath, .value 'a' ('-' :: 'm' :: request.appPackage)] ++
        tailEvents request skip := by
    rw [← getopts_tail request skip]
    simp only [commandWords, List.append_assoc, List.cons_append, List.nil_append, command]
    rw [getopts_inline_value optstring 'p' _ _ rfl (by decide),
      getopts_next_value optstring 'a' _ _ rfl (by decide)]
  rw [parseOptions, words, List.foldlM_append]
  exact parse_tail request skip ⟨dockerbuildPackagePath, '-' :: 'm' :: request.appPackage, [], [], false, false, 0⟩
    rfl rfl rfl

theorem performs_build_iff (request : Request) (skip : Bool) (package : request.appPackage ≠ []) :
    performsBuild (commandWords request skip) = !skip := by
  by_cases command : request.appCommand = []
  · simp [performsBuild, parse_empty_command request skip command]
  · simp [performsBuild, parse_regular request skip package command]

def emptyDirectory : Directory := ⟨[], List.nodup_nil⟩

def emptyServer : ServerState := ⟨.missing, fun _ => none, emptyDirectory, 0⟩

end AppFit.Server
