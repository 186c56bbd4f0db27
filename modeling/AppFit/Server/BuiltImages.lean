import AppFit.Server.Analytics

set_option autoImplicit false

namespace AppFit.Server

open AppFit.Shell AppFit.Runs

def SkipSound (server : ServerState) (exchange : Exchange) : Prop :=
  launchable exchange.1 = true → skipsBuild server.cacheFile exchange.1 = true →
    server.images exchange.1.appPackage = some (exchange.1.appCommand, exchange.1.testCommand)

-- The package and the application command are not empty, so that the script
-- reads its options as they were meant, and a build that is performed succeeds.
def BuildsFaithfully (server : ServerState) (exchange : Exchange) : Prop :=
  launchable exchange.1 = true →
    exchange.1.appPackage ≠ [] ∧ exchange.1.appCommand ≠ [] ∧
      (performsBuild (handlerWords server.cacheFile exchange.1) = true → exchange.2.buildOk = true)

def CacheAgrees (server : ServerState) : Prop :=
  ∀ request : Request, launchable request = true → request.appPackage ≠ [] → request.appCommand ≠ [] →
    (loadCache server.cacheFile).lookup request.appPackage = some (request.appCommand, request.testCommand) →
    server.images request.appPackage = some (request.appCommand, request.testCommand)

theorem cache_agrees_skip (server : ServerState) (exchange : Exchange) (agrees : CacheAgrees server)
    (faithful : BuildsFaithfully server exchange) : SkipSound server exchange := by
  intro launched skips
  obtain ⟨package, command, _⟩ := faithful launched
  exact agrees exchange.1 launched package command (skips_build_hit server.cacheFile exchange.1 skips)

theorem launch_images (numCores : Nat) (server : ServerState) (exchange : Exchange)
    (package : exchange.1.appPackage ≠ []) (command : exchange.1.appCommand ≠ []) :
    (executed numCores server exchange).images =
      if skipsBuild server.cacheFile exchange.1 then server.images
      else if exchange.2.buildOk then
        Function.update server.images exchange.1.appPackage (some (exchange.1.appCommand, exchange.1.testCommand))
      else server.images := by
  rw [executed, launchAgent, handlerWords, parse_regular exchange.1 _ package command]
  rfl

theorem serve_agrees (numCores : Nat) (server : ServerState) (exchange : Exchange) (agrees : CacheAgrees server)
    (faithful : BuildsFaithfully server exchange) : CacheAgrees (serve numCores server exchange) := by
  intro request launched package command entry
  rw [serve_cache, nextCache, load_add_entry] at entry
  rw [serve_images]
  by_cases same : request.appPackage = exchange.1.appPackage
  · rw [if_pos same, Option.some.injEq, Prod.mk.injEq] at entry
    have launchedHere : launchable exchange.1 = true := by
      simpa only [launchable, same, entry.1, entry.2] using launched
    obtain ⟨packageHere, commandHere, built⟩ := faithful launchedHere
    rw [if_pos launchedHere, launch_images numCores server exchange packageHere commandHere, same, ← entry.1, ← entry.2]
    cases skips : skipsBuild server.cacheFile exchange.1 with
    | true => simpa using cache_agrees_skip server exchange agrees faithful launchedHere skips
    | false =>
        have performed : performsBuild (handlerWords server.cacheFile exchange.1) = true := by
          rw [handlerWords, performs_build_iff exchange.1 _ packageHere, skips]
          rfl
        simp [built performed]
  · rw [if_neg same] at entry
    have before := agrees request launched package command entry
    cases launchedHere : launchable exchange.1 with
    | false => simpa using before
    | true =>
        obtain ⟨packageHere, commandHere, _⟩ := faithful launchedHere
        rw [if_pos rfl, launch_images numCores server exchange packageHere commandHere]
        cases skipsBuild server.cacheFile exchange.1 <;> cases exchange.2.buildOk <;>
          simp [before, Function.update_of_ne same]

theorem skipped_builds_match (numCores : Nat) (server : ServerState) (exchanges : List Exchange)
    (empty : loadCache server.cacheFile = ∅)
    (faithful : Along (serve numCores) BuildsFaithfully server exchanges) :
    Along (serve numCores) SkipSound server exchanges := by
  refine along_of_invariant (serve numCores) CacheAgrees BuildsFaithfully SkipSound ?_ server exchanges ?_ faithful
  · intro state exchange agrees here
    exact ⟨cache_agrees_skip state exchange agrees here, serve_agrees numCores state exchange agrees here⟩
  · intro request _ _ _ entry
    rw [empty, AList.lookup_empty] at entry
    cases entry

def cachedRequest : Request := ⟨"app.tar.gz".toList, "./serve".toList, "./load".toList, true, true⟩

def built : Outcome := ⟨true, fun _ => none, 0⟩
def buildFailed : Outcome := ⟨false, fun _ => none, 0⟩

theorem second_build_skipped :
    skipsBuild (run (serve 4) emptyServer [(cachedRequest, built)]).cacheFile cachedRequest = true ∧
      (run (serve 4) emptyServer [(cachedRequest, built)]).images cachedRequest.appPackage =
        some (cachedRequest.appCommand, cachedRequest.testCommand) := by
  have skips : skipsBuild (run (serve 4) emptyServer [(cachedRequest, built)]).cacheFile cachedRequest = true := by
    decide
  have sound := skipped_builds_match 4 emptyServer [(cachedRequest, built), (cachedRequest, built)] rfl
    ⟨fun _ => ⟨by decide, by decide, fun _ => rfl⟩, fun _ => ⟨by decide, by decide, fun _ => rfl⟩, trivial⟩
  exact ⟨skips, sound.2.1 (by decide) skips⟩

-- The entry is written before the build is started and survives its failure.
theorem failed_build_skipped :
    ¬ Along (serve 4) SkipSound emptyServer [(cachedRequest, buildFailed), (cachedRequest, built)] := by
  intro sound
  have images := sound.2.1 (by decide) (by decide)
  exact absurd images (by decide)

end AppFit.Server
