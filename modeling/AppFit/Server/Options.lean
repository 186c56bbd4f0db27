import AppFit.Server.Analytics

/- What the option loop of LaunchAgent.sh reads back from the argument list that
   comments_handler builds. An option with an empty value takes the next word. -/
set_option autoImplicit false

namespace AppFit.Server

open AppFit.Shell

def OptionsDecoded (cacheFile : CacheFile) (request : Request) : Prop :=
  ∃ options, parseOptions (handlerWords cacheFile request) = some options ∧
    options.package = dockerbuildPackagePath ∧ options.appCommand = request.appCommand ∧
    options.appImage = request.appPackage ∧ options.testCommand = request.testCommand ∧
    options.useCache = skipsBuild cacheFile request ∧ options.singleRun = request.debugMode

theorem parse_empty_package (request : Request) (skip : Bool) (command : request.appCommand ≠ [])
    (package : request.appPackage = []) :
    parseOptions (commandWords request skip) =
      (getopts optstring (['-', 'm'] :: ((if request.testCommand = [] then [] else ['-' :: 't' :: request.testCommand]) ++
        ((if skip then [['-', 'c']] else []) ++ (if request.debugMode then [['-', 's']] else []))))).foldlM optionStep
          ⟨dockerbuildPackagePath, request.appCommand, [], [], false, false, 0⟩ := by
  simp only [parseOptions, commandWords, List.cons_append, List.nil_append, List.append_assoc, package]
  rw [getopts_inline_value optstring 'p' _ _ rfl (by decide), getopts_inline_value optstring 'a' _ _ rfl command]
  rfl

-- The image option takes the test option as its value, else the first flag.
theorem empty_package_swallows (request : Request) (skip : Bool) (options : Options)
    (command : request.appCommand ≠ []) (package : request.appPackage = [])
    (parsed : parseOptions (commandWords request skip) = some options) :
    options.appImage ≠ [] ∧ (request.debugMode = false → options.singleRun = false) := by
  have flags := getopts_flags skip request.debugMode
  rw [parse_empty_package request skip command package] at parsed
  by_cases test : request.testCommand = []
  · rw [if_pos test, List.nil_append] at parsed
    cases skip with
    | true =>
        rw [if_pos rfl, List.cons_append, List.nil_append, getopts_next_value optstring 'm' _ _ rfl (by decide)] at parsed
        cases debug : request.debugMode with
        | true =>
            rw [debug, if_pos rfl] at parsed
            cases parsed
            exact ⟨List.cons_ne_nil _ _, fun normal => (by cases normal)⟩
        | false =>
            rw [debug] at parsed
            cases parsed
            exact ⟨List.cons_ne_nil _ _, fun _ => rfl⟩
    | false =>
        cases debug : request.debugMode with
        | true =>
            rw [debug] at parsed
            cases parsed
            exact ⟨List.cons_ne_nil _ _, fun normal => (by cases normal)⟩
        | false =>
            rw [debug] at parsed
            cases parsed
  · rw [if_neg test, List.cons_append, List.nil_append, getopts_next_value optstring 'm' _ _ rfl (by decide), flags] at parsed
    cases skip <;> cases debug : request.debugMode <;> rw [debug] at parsed <;> cases parsed <;>
      exact ⟨List.cons_ne_nil _ _, by simp⟩

theorem options_decoded_iff (cacheFile : CacheFile) (request : Request) :
    OptionsDecoded cacheFile request ↔ request.appCommand ≠ [] ∧ request.appPackage ≠ [] := by
  rw [OptionsDecoded, handlerWords]
  constructor
  · intro decoded
    obtain ⟨options, parsed, _, command, image, _⟩ := decoded
    by_cases noCommand : request.appCommand = []
    · rw [parse_empty_command request _ noCommand, Option.some.injEq] at parsed
      rw [← parsed, noCommand] at command
      cases command
    · refine ⟨noCommand, ?_⟩
      intro noPackage
      have swallowed := (empty_package_swallows request _ options noCommand noPackage parsed).1
      exact swallowed (image.trans noPackage)
  · intro both
    exact ⟨_, parse_regular request _ both.2 both.1, rfl, rfl, rfl, rfl, rfl, rfl⟩

def noCommandRequest : Request := ⟨"app.tar.gz".toList, [], "./load".toList, true, false⟩
def noPackageRequest : Request := ⟨[], "./serve".toList, [], true, true⟩

theorem empty_values_swallow_options :
    ¬ OptionsDecoded .missing noCommandRequest ∧ ¬ OptionsDecoded .missing noPackageRequest := by
  have command : (parseOptions (handlerWords .missing noCommandRequest)).map Options.appCommand =
      some "-mapp.tar.gz".toList := by decide
  have image : (parseOptions (handlerWords .missing noPackageRequest)).map Options.appImage = some "-s".toList := by
    decide
  refine ⟨?_, ?_⟩
  · intro decoded
    obtain ⟨options, parsed, _, same, _⟩ := decoded
    rw [parsed, Option.map_some, same] at command
    cases command
  · intro decoded
    obtain ⟨options, parsed, _, _, same, _⟩ := decoded
    rw [parsed, Option.map_some, same] at image
    cases image

end AppFit.Server
