import AppFit.Server.PlotFiles

/- LaunchAgent.sh: the getopts loop, the build guard, the table of CPU sets and
   the run loop. Docker is outside the model: what its commands do in one
   execution is the Outcome, an input. Substitution of the commands into the
   Dockerfile has its own module. numCores is the number of processor lines in
   /proc/cpuinfo, taken to be the host's core count. -/
set_option autoImplicit false

namespace AppFit.Server

open AppFit.Shell

def optstring : Text := "bsp:a:t:cm:".toList

-- The shell variables the loop sets; an unset variable expands to nothing.
structure Options where
  package : Text
  appCommand : Text
  testCommand : Text
  appImage : Text
  useCache : Bool
  singleRun : Bool
  composeBuilds : Nat
deriving DecidableEq

def noOptions : Options := ⟨[], [], [], [], false, false, 0⟩

-- none is the invalid-option branch, which ends the script with status 1.
def optionStep (options : Options) : OptEvent → Option Options
  | .flag 'b' => some { options with composeBuilds := options.composeBuilds + 1 }
  | .flag 's' => some { options with singleRun := true }
  | .flag 'c' => some { options with useCache := true }
  | .value 'p' optarg => some { options with package := optarg }
  | .value 'a' optarg => some { options with appCommand := optarg }
  | .value 't' optarg => some { options with testCommand := optarg }
  | .value 'm' optarg => some { options with appImage := optarg }
  | _ => none

def parseOptions (words : List Text) : Option Options := (getopts optstring words).foldlM optionStep noOptions

abbrev Images := Text → Option (Text × Text)

structure Outcome where
  buildOk : Bool
  copied : Nat → Option Text
  status : Nat

def cpuSet (numCores : Nat) : Text :=
  if numCores = 8 then "0 0-1 0-3 0-7".toList
  else if numCores = 4 then "0 0-1 0-2 0-3".toList
  else if numCores = 1 then "0 0 0 0".toList
  else []

def cpuSets (numCores : Nat) : List Text := splitWords (cpuSet numCores)

-- The guard asks for temp-plot.0.html; the pattern it protects is temp-plot.*.html.
def cleanStale (directory : Directory) : Directory :=
  if plotName 0 ∈ directory.listdir then
    directory.remove (starMatch "temp-plot.".toList ".html".toList)
  else directory

def buildImages (options : Options) (outcome : Outcome) (images : Images) : Images :=
  if options.useCache then images
  else if outcome.buildOk then Function.update images options.appImage (some (options.appCommand, options.testCommand))
  else images

def copyPlot (outcome : Outcome) (writer : Nat) (directory : Directory) (runId : Nat) : Directory :=
  match outcome.copied runId with
  | none => directory
  | some content => directory.write ⟨plotName runId, content, writer⟩

-- runId counts from 1 over the words of CPUSET.
def runIds (numCores : Nat) : List Nat := List.range' 1 (cpuSets numCores).length

def runLoop (numCores : Nat) (outcome : Outcome) (writer : Nat) (directory : Directory) : Directory :=
  (runIds numCores).foldl (copyPlot outcome writer) directory

structure Executed where
  images : Images
  directory : Directory
  status : Nat

def launchAgent (numCores : Nat) (words : List Text) (outcome : Outcome) (writer : Nat)
    (images : Images) (directory : Directory) : Executed :=
  match parseOptions words with
  | none => ⟨images, directory, 1⟩
  | some options =>
      ⟨buildImages options outcome images,
        if options.singleRun then cleanStale directory
        else runLoop numCores outcome writer (cleanStale directory),
        outcome.status⟩

def performsBuild (words : List Text) : Bool :=
  match parseOptions words with
  | none => false
  | some options => !options.useCache

def writtenRuns (numCores : Nat) (words : List Text) (outcome : Outcome) : List Nat :=
  match parseOptions words with
  | none => []
  | some options =>
      if options.singleRun then [] else (runIds numCores).filter fun runId => (outcome.copied runId).isSome

def exitStatus (words : List Text) (outcome : Outcome) : Nat :=
  match parseOptions words with
  | none => 1
  | some _ => outcome.status

theorem launch_status (numCores : Nat) (words : List Text) (outcome : Outcome) (writer : Nat)
    (images : Images) (directory : Directory) :
    (launchAgent numCores words outcome writer images directory).status = exitStatus words outcome := by
  unfold launchAgent exitStatus
  cases parseOptions words <;> rfl

theorem cpu_sets_four (numCores : Nat) (tabled : numCores = 1 ∨ numCores = 4 ∨ numCores = 8) :
    (cpuSets numCores).length = 4 := by
  rcases tabled with rfl | rfl | rfl <;> decide

theorem cpu_sets_none (numCores : Nat) (other : ¬ (numCores = 1 ∨ numCores = 4 ∨ numCores = 8)) :
    cpuSets numCores = [] := by
  simp only [not_or] at other
  simp [cpuSets, cpuSet, other.1, other.2.1, other.2.2, splitWords]

theorem run_ids_bound (numCores runId : Nat) (member : runId ∈ runIds numCores) : runId ∈ [1, 2, 3, 4] := by
  by_cases tabled : numCores = 1 ∨ numCores = 4 ∨ numCores = 8
  · rw [runIds, cpu_sets_four numCores tabled] at member
    exact member
  · rw [runIds, cpu_sets_none numCores tabled] at member
    simp at member

theorem written_runs_bound (numCores : Nat) (words : List Text) (outcome : Outcome) (runId : Nat)
    (member : runId ∈ writtenRuns numCores words outcome) : runId ∈ [1, 2, 3, 4] := by
  rw [writtenRuns] at member
  split at member
  · simp at member
  · split at member
    · simp at member
    · exact run_ids_bound numCores runId (List.mem_filter.mp member).1

theorem mem_copied (outcome : Outcome) (writer : Nat) (directory : Directory) (ids : List Nat) (distinct : (ids.map plotName).Nodup)
    (file : StoredFile) :
    file ∈ (ids.foldl (copyPlot outcome writer) directory).files ↔
      (∃ runId ∈ ids, ∃ content, outcome.copied runId = some content ∧ file = ⟨plotName runId, content, writer⟩) ∨
      (file ∈ directory.files ∧ ∀ runId ∈ ids, (outcome.copied runId).isSome → file.name ≠ plotName runId) := by
  induction ids generalizing directory with
  | nil => simp
  | cons runId tail ih =>
      obtain ⟨absent, distinct⟩ := List.nodup_cons.mp distinct
      rw [List.foldl_cons, ih (copyPlot outcome writer directory runId) distinct]
      cases copied : outcome.copied runId with
      | none => simp [copyPlot, copied]
      | some content =>
          have fresh : ∀ later ∈ tail, plotName runId ≠ plotName later := fun later member same =>
            absent (List.mem_map.mpr ⟨later, member, same.symm⟩)
          simp only [copyPlot, copied, mem_write, List.mem_cons, exists_eq_or_imp, forall_eq_or_imp, Option.some.injEq,
            Option.isSome_some, forall_const, exists_eq_left']
          constructor
          · intro either
            rcases either with later | ⟨rfl | kept, others⟩
            · exact Or.inl (Or.inr later)
            · exact Or.inl (Or.inl rfl)
            · exact Or.inr ⟨kept.1, kept.2, others⟩
          · intro either
            rcases either with (rfl | later) | ⟨present, different, others⟩
            · exact Or.inr ⟨Or.inl rfl, fun later member _ => fresh later member⟩
            · exact Or.inl later
            · exact Or.inr ⟨Or.inr ⟨present, different⟩, others⟩

end AppFit.Server
