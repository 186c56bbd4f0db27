import AppFit.Agent.ReportText
import AppFit.Lib.Bytes
import AppFit.Lib.Effect

/- ProcessMessage from its first line to its last: the interpreter in front of a
   script, the log files, the two programs, the samples, the kills and the report.
   Whatever may raise an exception is an input; what was done before it stays. -/
set_option autoImplicit false

namespace AppFit.Agent.Lifecycle

open AppFit.Shell AppFit.Encoding AppFit.JsonText AppFit.Dict AppFit.Effect

-- The children are numbered in the order in which they are started; running has
-- those that the agent has not killed.
structure Machine where
  logs : List Text
  started : List (List Bytes)
  running : List Nat
  report : Option Text
  known : ∀ child ∈ running, child < started.length

theorem known_start (machine : Machine) (argv : List Bytes) :
    ∀ child ∈ machine.running ++ [machine.started.length], child < (machine.started ++ [argv]).length := by
  intro child member
  rw [List.length_append, List.length_singleton]
  rcases List.mem_append.mp member with before | new
  · exact Nat.lt_succ_of_lt (machine.known child before)
  · rw [List.mem_singleton.mp new]
    exact Nat.lt_succ_self _

theorem known_kill (machine : Machine) (gone : Nat) :
    ∀ child ∈ machine.running.filter (· ≠ gone), child < machine.started.length :=
  fun child member => machine.known child (List.mem_filter.mp member).1

def Machine.start (machine : Machine) (argv : List Bytes) : Machine :=
  { machine with
    started := machine.started ++ [argv]
    running := machine.running ++ [machine.started.length]
    known := known_start machine argv }

def Machine.kill (machine : Machine) (child : Nat) : Machine :=
  { machine with running := machine.running.filter (· ≠ child), known := known_kill machine child }

def Machine.openLog (machine : Machine) (name : Text) : Machine := { machine with logs := machine.logs.insert name }

def Machine.removeLog (machine : Machine) (name : Text) : Machine :=
  { machine with logs := machine.logs.filter (· ≠ name) }

def Machine.write (machine : Machine) (text : Text) : Machine := { machine with report := some text }

inductive Failure where
  | which
  | noWord
  | magic
  | popen
  | config
  | sample
  | slot
  | affinity
  | report
deriving DecidableEq

-- config holds snapshotSize and maxSnapshots; none is also an application that
-- psutil.Process does not find. The affinity is asked for once more after the kills.
structure Environment where
  python : Option Bytes
  fileType : Bytes → Option Text
  starts : List Bytes → Bool
  config : Option (Nat × Nat)
  sample : Nat → Option Snapshot
  affinity : Option Nat
  order : WalkOrder Text Value
  floatRepr : ℚ → Literal

structure MsgDict where
  application : Option Bytes
  test : Option Bytes

def whitespace (item : UInt8) : Bool := item = 32 || (9 ≤ item && item ≤ 13)

-- str.split() without an argument: no empty words.
def split (text : Bytes) : List Bytes := (text.splitOnP whitespace).filter fun word => !word.isEmpty

def pythonScript : Text := "Python script, ASCII text executable".toList

def interpreter (env : Environment) (python : Bytes) (command : Option Bytes) : Program Machine Failure (List Bytes) :=
  if command.getD [] = [] then pure []
  else do
    let path ← require (split (command.getD [])).head? .noWord
    let kind ← require (env.fileType path) .magic
    pure (if kind = pythonScript then [python] else [])

-- Popen of an empty list raises as well.
def popen (env : Environment) (argv : List Bytes) : Program Machine Failure Nat := fun machine =>
  if argv ≠ [] ∧ env.starts argv then (.ok machine.started.length, machine.start argv) else (.error .popen, machine)

def popenTest (env : Environment) (testPrefix : List Bytes) (test : Option Bytes) :
    Program Machine Failure (Option Nat) :=
  if test.getD [] = [] then pure none
  else do
    let child ← popen env (testPrefix ++ split (test.getD []))
    pure (some child)

def sampleOnce (env : Environment) (snapshotSize : Nat) (sampler : Sampler Snapshot) (index : Nat) :
    Program Machine Failure (Sampler Snapshot) := do
  let sndict ← require (env.sample index) .sample
  require (takeSample snapshotSize sampler sndict) .slot

def takeSamples (env : Environment) : Program Machine Failure (Sampler Snapshot) := do
  let config ← require env.config .config
  (List.range config.2).foldlM (sampleOnce env config.1) startSampler

def killPrograms (app : Nat) (test : Option Nat) : Program Machine Failure Unit := do
  change (Machine.kill · app)
  match test with
  | none => pure ()
  | some child => change (Machine.kill · child)

def writeReport (env : Environment) (sampler : Sampler Snapshot) : Program Machine Failure Unit := do
  let cpuCores ← require env.affinity .affinity
  let report ← require
    (computePerformanceReport sampler.snapshots sampler.firstSnapshot sampler.currentSnapshot cpuCores) .report
  change (Machine.write · (reportText env.order env.floatRepr report.jsonData).text)

def appLog : Text := "app.log".toList
def testLog : Text := "test.log".toList

def startPrograms (env : Environment) (argv testPrefix : List Bytes) (test : Option Bytes) :
    Program Machine Failure (Nat × Option Nat) := do
  change (Machine.openLog · appLog)
  change (Machine.openLog · testLog)
  let app ← popen env argv
  let child ← popenTest env testPrefix test
  pure (app, child)

-- The part after the early return.
def monitor (env : Environment) (argv testPrefix : List Bytes) (test : Option Bytes) : Program Machine Failure Unit := do
  let children ← startPrograms env argv testPrefix test
  let sampler ← takeSamples env
  killPrograms children.1 children.2
  writeReport env sampler
  change (Machine.removeLog · appLog)
  change (Machine.removeLog · testLog)

def processMessage (env : Environment) (msgdict : MsgDict) : Program Machine Failure Unit := do
  let python ← require env.python .which
  let appPrefix ← interpreter env python msgdict.application
  let testPrefix ← interpreter env python msgdict.test
  match msgdict.application with
  | none => pure ()
  | some application => monitor env (appPrefix ++ split application) testPrefix msgdict.test

-- What a command is started as: a Python script goes behind its interpreter.
def argv (env : Environment) (command : Bytes) : List Bytes :=
  (if (split command).head?.bind env.fileType = some pythonScript then env.python.toList else []) ++ split command

def programs (env : Environment) (msgdict : MsgDict) : List (List Bytes) :=
  match msgdict.application with
  | none => []
  | some application =>
      argv env application :: if msgdict.test.getD [] = [] then [] else [argv env (msgdict.test.getD [])]

def logged (before : Machine) : List Text := (before.logs.insert appLog).insert testLog

-- The new children are numbered after the old ones and they all run.
structure Spawned (before after : Machine) (new : List (List Bytes)) : Prop where
  started : after.started = before.started ++ new
  running : after.running = before.running ++ List.range' before.started.length new.length
  logs : after.logs = logged before
  report : after.report = before.report

structure Killed (before after : Machine) (new : List (List Bytes)) : Prop where
  started : after.started = before.started ++ new
  running : after.running = before.running
  logs : after.logs = logged before
  report : after.report = before.report

-- The report of the samples, and which ones these are.
def Reported (env : Environment) (text : Text) : Prop :=
  ∃ snapshotSize maxSnapshots cpuCores samples report, env.config = some (snapshotSize, maxSnapshots) ∧
    env.affinity = some cpuCores ∧ (List.range maxSnapshots).map env.sample = samples.map some ∧
    Agent.processMessage snapshotSize cpuCores samples = some report ∧
    text = (reportText env.order env.floatRepr report.jsonData).text

-- The report is there, the programs were started and are gone, and so are the logs.
structure Finished (env : Environment) (msgdict : MsgDict) (before after : Machine) : Prop where
  reported : ∃ text, after.report = some text ∧ Reported env text
  started : after.started = before.started ++ programs env msgdict
  running : after.running = before.running
  logs : after.logs = ((logged before).filter (· ≠ appLog)).filter (· ≠ testLog)

-- An exception that is raised before the kills leaves every program that was
-- started, all later ones leave none. No exception removes the logs.
def Left (env : Environment) (msgdict : MsgDict) (before : Machine) (failure : Failure) (after : Machine) : Prop :=
  match failure with
  | .which => after = before
  | .noWord => after = before
  | .magic => after = before
  | .popen => ∃ started < (programs env msgdict).length, Spawned before after ((programs env msgdict).take started)
  | .config => Spawned before after (programs env msgdict)
  | .sample => Spawned before after (programs env msgdict)
  | .slot => Spawned before after (programs env msgdict)
  | .affinity => Killed before after (programs env msgdict)
  | .report => Killed before after (programs env msgdict)

def commands (msgdict : MsgDict) : List Bytes := msgdict.application.toList ++ msgdict.test.toList

-- Why it can be raised. The agent's own arithmetic fails only for a buffer of
-- size 0 or when no sample at all is taken.
def Cause (env : Environment) (msgdict : MsgDict) : Failure → Prop
  | .which => env.python = none
  | .noWord => ∃ command ∈ commands msgdict, command ≠ [] ∧ split command = []
  | .magic => ∃ command ∈ commands msgdict, ∃ path, (split command).head? = some path ∧ env.fileType path = none
  | .popen => ∃ words ∈ programs env msgdict, words = [] ∨ env.starts words = false
  | .config => env.config = none
  | .sample => ∃ snapshotSize maxSnapshots index, env.config = some (snapshotSize, maxSnapshots) ∧
      index < maxSnapshots ∧ env.sample index = none
  | .slot => ∃ maxSnapshots, env.config = some (0, maxSnapshots)
  | .affinity => env.affinity = none
  | .report => ∃ snapshotSize, env.config = some (snapshotSize, 0)

section Parts

variable (env : Environment) (msgdict : MsgDict)

theorem ends_interpreter (python : Bytes) (command : Option Bytes) (machine : Machine)
    (found : env.python = some python) (named : ∀ text, command = some text → text ∈ commands msgdict) :
    Ends (interpreter env python command) machine
      (fun words reached => words ++ split (command.getD []) = argv env (command.getD []) ∧ reached = machine)
      fun failure reached => Left env msgdict machine failure reached ∧ Cause env msgdict failure := by
  rw [interpreter]
  split
  · rename_i empty
    rw [empty]
    exact ends_pure _ machine _ _ ⟨rfl, rfl⟩
  · rename_i nonempty
    obtain ⟨text, rfl⟩ : ∃ text, command = some text := by
      cases command with
      | none => exact absurd rfl nonempty
      | some text => exact ⟨text, rfl⟩
    refine ends_bind _ _ machine (fun path reached => (split text).head? = some path ∧ reached = machine) _ _ ?_ ?_
    · refine ends_require _ _ machine _ _ (fun path first => ⟨first, rfl⟩) fun missing => ⟨rfl, ?_⟩
      exact ⟨text, named text rfl, nonempty, List.head?_eq_none_iff.mp missing⟩
    · intro path reached looked
      obtain ⟨first, rfl⟩ := looked
      refine ends_bind _ _ reached (fun kind after => env.fileType path = some kind ∧ after = reached) _ _ ?_ ?_
      · refine ends_require _ _ reached _ _ (fun kind same => ⟨same, rfl⟩) fun unknown => ⟨rfl, ?_⟩
        exact ⟨text, named text rfl, path, first, unknown⟩
      · intro kind after looked
        obtain ⟨type, rfl⟩ := looked
        refine ends_pure _ after _ _ ⟨?_, rfl⟩
        rw [argv, Option.getD_some, first, Option.bind_some, type, found]
        simp only [Option.some.injEq]
        rfl

theorem ends_popen (words : List Bytes) (machine : Machine) :
    Ends (popen env words) machine
      (fun child reached => child = machine.started.length ∧ reached = machine.start words)
      fun failure reached => failure = .popen ∧ (words = [] ∨ env.starts words = false) ∧ reached = machine := by
  rw [Ends, popen]
  by_cases able : words ≠ [] ∧ env.starts words = true
  · rw [if_pos able]
    exact ⟨rfl, rfl⟩
  · rw [if_neg able]
    refine ⟨rfl, ?_, rfl⟩
    by_cases empty : words = []
    · exact .inl empty
    · exact .inr (by simpa using fun starts => able ⟨empty, starts⟩)

theorem start_started (machine : Machine) (words : List Bytes) :
    (machine.start words).started = machine.started ++ [words] := rfl

theorem start_running (machine : Machine) (words : List Bytes) :
    (machine.start words).running = machine.running ++ [machine.started.length] := rfl

theorem spawned_start (before between : Machine) (new : List (List Bytes)) (words : List Bytes)
    (spawned : Spawned before between new) : Spawned before (between.start words) (new ++ [words]) := by
  refine ⟨?_, ?_, spawned.logs, spawned.report⟩
  · rw [start_started, spawned.started, List.append_assoc]
  · rw [start_running, spawned.running, spawned.started, List.append_assoc, List.length_append, List.length_append,
      List.length_singleton, List.range'_concat, Nat.one_mul]

-- The numbers of the two children; the test is started last.
def numbered (before : Machine) : Nat × Option Nat :=
  (before.started.length, if msgdict.test.getD [] = [] then none else some (before.started.length + 1))

theorem ends_start (application : Bytes) (testPrefix : List Bytes) (before : Machine)
    (requested : msgdict.application = some application)
    (tested : testPrefix ++ split (msgdict.test.getD []) = argv env (msgdict.test.getD [])) :
    Ends (startPrograms env (argv env application) testPrefix msgdict.test) before
      (fun children reached => children = numbered msgdict before ∧ Spawned before reached (programs env msgdict))
      fun failure reached => Left env msgdict before failure reached ∧ Cause env msgdict failure := by
  have all : programs env msgdict = argv env application ::
      if msgdict.test.getD [] = [] then [] else [argv env (msgdict.test.getD [])] := by
    rw [programs, requested]
  rw [startPrograms]
  refine ends_bind _ _ before (fun _ reached => reached = before.openLog appLog) _ _ rfl fun _ reached opened => ?_
  subst opened
  refine ends_bind _ _ _ (fun _ reached => reached = (before.openLog appLog).openLog testLog) _ _ rfl
    fun _ reached opened => ?_
  subst opened
  have none : Spawned before ((before.openLog appLog).openLog testLog) [] :=
    ⟨(List.append_nil _).symm, (List.append_nil _).symm, rfl, rfl⟩
  refine ends_bind _ _ _ (fun app reached => app = before.started.length ∧ Spawned before reached [argv env application])
    _ _ (ends_weaken _ _ _ _ _ _ (ends_popen env (argv env application) _) ?_ ?_) ?_
  · intro app reached started
    obtain ⟨same, rfl⟩ := started
    exact ⟨same, spawned_start before _ [] _ none⟩
  · intro failure reached failed
    obtain ⟨rfl, cause, rfl⟩ := failed
    have first : argv env application ∈ programs env msgdict := all ▸ List.mem_cons_self
    exact ⟨⟨0, List.length_pos_of_mem first, none⟩, _, first, cause⟩
  · intro app between started
    obtain ⟨rfl, started⟩ := started
    have second := spawned_start before between _ (argv env (msgdict.test.getD [])) started
    refine ends_bind _ _ between (fun child reached => (before.started.length, child) = numbered msgdict before ∧
      Spawned before reached (programs env msgdict)) _ _ ?_ fun child reached both => ends_pure _ reached _ _ both
    rw [popenTest, tested, numbered, all]
    split
    · exact ends_pure _ between _ _ ⟨rfl, started⟩
    · refine ends_bind _ _ between _ _ _ (ends_weaken _ _ _ _ _ _ (ends_popen env _ between) (fun _ _ both => both) ?_) ?_
      · intro failure reached failed
        obtain ⟨rfl, cause, rfl⟩ := failed
        have last : argv env (msgdict.test.getD []) ∈ programs env msgdict := by
          rw [all, if_neg (by assumption)]
          exact List.mem_cons_of_mem _ (List.mem_singleton_self _)
        refine ⟨⟨1, ?_, ?_⟩, _, last, cause⟩
        · rw [all, if_neg (by assumption)]
          exact Nat.lt_succ_self 1
        · rw [all]
          exact started
      · intro child reached both
        obtain ⟨same, rfl⟩ := both
        refine ends_pure _ _ _ _ ⟨?_, second⟩
        rw [same, started.started, List.length_append, List.length_singleton]

theorem slot_missing (snapshotSize : Nat) (samples : List Snapshot) (sampler : Sampler Snapshot) (sndict : Snapshot)
    (sampled : sampleLoop snapshotSize samples = some sampler)
    (missing : takeSample snapshotSize sampler sndict = none) : snapshotSize = 0 := by
  by_contra positive
  obtain ⟨other, completed, kept⟩ := sample_loop_sampled snapshotSize (Nat.pos_of_ne_zero positive) samples
  rw [sampled] at completed
  cases completed
  obtain ⟨next, taken, _⟩ := take_sample_sampled snapshotSize (Nat.pos_of_ne_zero positive) samples sampler sndict kept
  rw [missing] at taken
  cases taken

theorem left_running (before reached : Machine) (failure : Failure)
    (spawned : Spawned before reached (programs env msgdict))
    (early : failure = .config ∨ failure = .sample ∨ failure = .slot) : Left env msgdict before failure reached := by
  rcases early with rfl | rfl | rfl <;> exact spawned

theorem ends_samples (before machine : Machine) (spawned : Spawned before machine (programs env msgdict)) :
    Ends (takeSamples env) machine
      (fun sampler reached => reached = machine ∧ ∃ snapshotSize maxSnapshots samples,
        env.config = some (snapshotSize, maxSnapshots) ∧ (List.range maxSnapshots).map env.sample = samples.map some ∧
        sampleLoop snapshotSize samples = some sampler)
      fun failure reached => Left env msgdict before failure reached ∧ Cause env msgdict failure := by
  have left := left_running env msgdict before machine
  rw [takeSamples]
  refine ends_bind _ _ machine (fun config reached => env.config = some config ∧ reached = machine) _ _ ?_ ?_
  · refine ends_require _ _ machine _ _ (fun config same => ⟨same, rfl⟩) fun missing => ?_
    exact ⟨left .config spawned (.inl rfl), missing⟩
  · intro config reached configured
    obtain ⟨configured, rfl⟩ := configured
    have loop := ends_fold (sampleOnce env config.1)
      (fun done sampler after => after = reached ∧ ∃ samples, done.map env.sample = samples.map some ∧
        sampleLoop config.1 samples = some sampler)
      (fun failure after => Left env msgdict before failure after ∧ Cause env msgdict failure)
      (List.range config.2) ?_ [] startSampler reached ⟨rfl, [], rfl, rfl⟩
    · refine ends_weaken _ _ _ _ _ _ loop ?_ fun _ _ failed => failed
      intro sampler after ended
      obtain ⟨same, samples, taken, sampled⟩ := ended
      exact ⟨same, config.1, config.2, samples, configured, taken, sampled⟩
    · intro done index member sampler after kept
      obtain ⟨rfl, samples, taken, sampled⟩ := kept
      rw [sampleOnce]
      refine ends_bind _ _ after (fun sndict here => env.sample index = some sndict ∧ here = after) _ _ ?_ ?_
      · refine ends_require _ _ after _ _ (fun sndict same => ⟨same, rfl⟩) fun missing => ?_
        refine ⟨left .sample spawned (.inr (.inl rfl)), ?_⟩
        exact ⟨config.1, config.2, index, configured, List.mem_range.mp member, missing⟩
      · intro sndict here both
        obtain ⟨sample, rfl⟩ := both
        refine ends_require _ _ here _ _ (fun next stored => ⟨rfl, samples ++ [sndict], ?_, ?_⟩) fun missing => ?_
        · rw [List.map_append, List.map_append, taken, List.map_singleton, List.map_singleton, sample]
        · rw [sample_loop_snoc, sampled]
          exact stored
        · have zero := slot_missing config.1 samples sampler sndict sampled missing
          exact ⟨left .slot spawned (.inr (.inr rfl)), config.2, by rw [configured, ← zero]⟩

theorem filter_older (children : List Nat) (gone : Nat) (older : ∀ child ∈ children, child < gone) :
    children.filter (· ≠ gone) = children :=
  List.filter_eq_self.mpr fun child member => by simpa using Nat.ne_of_lt (older child member)

theorem kill_running (machine : Machine) (child : Nat) :
    (machine.kill child).running = machine.running.filter (· ≠ child) := rfl

theorem programs_length (application : Bytes) (requested : msgdict.application = some application) :
    (programs env msgdict).length = if msgdict.test.getD [] = [] then 1 else 2 := by
  rw [programs, requested]
  by_cases empty : msgdict.test.getD [] = []
  · simp only [if_pos empty, List.length_singleton]
  · simp only [if_neg empty, List.length_cons, List.length_nil]

-- The programs of this message are killed, those of earlier ones are not.
theorem ends_kills (application : Bytes) (before machine : Machine) (requested : msgdict.application = some application)
    (spawned : Spawned before machine (programs env msgdict)) :
    Ends (killPrograms (numbered msgdict before).1 (numbered msgdict before).2) machine
      (fun _ reached => Killed before reached (programs env msgdict))
      fun failure reached => Left env msgdict before failure reached ∧ Cause env msgdict failure := by
  have older := filter_older before.running before.started.length before.known
  have latest := filter_older before.running (before.started.length + 1) fun child member =>
    Nat.lt_succ_of_lt (before.known child member)
  have count := programs_length env msgdict application requested
  unfold killPrograms numbered
  refine ends_bind _ _ machine (fun _ reached => reached = machine.kill before.started.length) _ _ rfl ?_
  intro _ reached same
  subst same
  by_cases empty : msgdict.test.getD [] = []
  · rw [if_pos empty] at count ⊢
    refine ends_pure _ _ _ _ ⟨spawned.started, ?_, spawned.logs, spawned.report⟩
    rw [kill_running, spawned.running, count, List.filter_append, older]
    simp
  · rw [if_neg empty] at count ⊢
    refine ends_change _ _ _ _ ⟨spawned.started, ?_, spawned.logs, spawned.report⟩
    rw [kill_running, kill_running, spawned.running, count, List.filter_append, older, List.filter_append, latest]
    simp [List.range'_succ]

theorem report_missing (snapshotSize cpuCores : Nat) (samples : List Snapshot) (sampler : Sampler Snapshot)
    (sampled : sampleLoop snapshotSize samples = some sampler)
    (missing : computePerformanceReport sampler.snapshots sampler.firstSnapshot sampler.currentSnapshot cpuCores =
      none) : samples = [] := by
  cases samples with
  | nil => rfl
  | cons sndict rest =>
      by_cases empty : snapshotSize = 0
      · rw [empty, sampleLoop, List.foldlM_cons] at sampled
        cases sampled
      · obtain ⟨_, _, _, report, _, _, _, _, _, reported, _⟩ := process_message_completes snapshotSize cpuCores
          (sndict :: rest) (Nat.pos_of_ne_zero empty) (Nat.le_add_left 1 _)
        rw [Agent.processMessage, sampled, Option.bind_some, missing] at reported
        cases reported

theorem ends_write_report (snapshotSize maxSnapshots : Nat) (samples : List Snapshot) (sampler : Sampler Snapshot)
    (before machine : Machine) (configured : env.config = some (snapshotSize, maxSnapshots))
    (taken : (List.range maxSnapshots).map env.sample = samples.map some)
    (sampled : sampleLoop snapshotSize samples = some sampler)
    (killed : Killed before machine (programs env msgdict)) :
    Ends (writeReport env sampler) machine (fun _ reached => ∃ text, Reported env text ∧ reached = machine.write text)
      fun failure reached => Left env msgdict before failure reached ∧ Cause env msgdict failure := by
  rw [writeReport]
  refine ends_bind _ _ machine (fun cpuCores reached => env.affinity = some cpuCores ∧ reached = machine) _ _ ?_ ?_
  · exact ends_require _ _ machine _ _ (fun cpuCores same => ⟨same, rfl⟩) fun missing => ⟨killed, missing⟩
  · intro cpuCores reached found
    obtain ⟨affinity, rfl⟩ := found
    refine ends_bind _ _ reached (fun report after => computePerformanceReport sampler.snapshots sampler.firstSnapshot
      sampler.currentSnapshot cpuCores = some report ∧ after = reached) _ _ ?_ ?_
    · refine ends_require _ _ reached _ _ (fun report same => ⟨same, rfl⟩) fun missing => ⟨killed, snapshotSize, ?_⟩
      rw [report_missing snapshotSize cpuCores samples sampler sampled missing] at taken
      have none : maxSnapshots = 0 := by simpa using congrArg List.length taken
      rw [configured, none]
    · intro report after made
      obtain ⟨made, rfl⟩ := made
      refine ends_change _ _ _ _ ⟨_, ⟨snapshotSize, maxSnapshots, cpuCores, samples, report, configured, affinity, taken,
        ?_, rfl⟩, rfl⟩
      rw [Agent.processMessage, sampled]
      exact made

theorem ends_monitor (application : Bytes) (testPrefix : List Bytes) (before : Machine)
    (requested : msgdict.application = some application)
    (tested : testPrefix ++ split (msgdict.test.getD []) = argv env (msgdict.test.getD [])) :
    Ends (monitor env (argv env application) testPrefix msgdict.test) before
      (fun _ after => Finished env msgdict before after)
      fun failure after => Left env msgdict before failure after ∧ Cause env msgdict failure := by
  rw [monitor]
  refine ends_bind _ _ before _ _ _ (ends_start env msgdict application testPrefix before requested tested) ?_
  intro children reached started
  obtain ⟨rfl, spawned⟩ := started
  refine ends_bind _ _ reached _ _ _ (ends_samples env msgdict before reached spawned) ?_
  intro sampler sampled taken
  obtain ⟨rfl, snapshotSize, maxSnapshots, samples, configured, taken, loop⟩ := taken
  refine ends_bind _ _ sampled _ _ _ (ends_kills env msgdict application before sampled requested spawned) ?_
  intro _ last killed
  refine ends_bind _ _ last _ _ _ (ends_write_report env msgdict snapshotSize maxSnapshots samples sampler before last
    configured taken loop killed) ?_
  intro _ written done
  obtain ⟨text, reported, rfl⟩ := done
  refine ends_bind _ _ _ (fun _ after => after = (last.write text).removeLog appLog) _ _ rfl fun _ after removed => ?_
  subst removed
  refine ends_change _ _ _ _ ⟨⟨text, rfl, reported⟩, killed.started, killed.running, ?_⟩
  exact congrArg (fun logs => (logs.filter (· ≠ appLog)).filter (· ≠ testLog)) killed.logs

end Parts

theorem process_message_ends (env : Environment) (msgdict : MsgDict) (before : Machine) :
    Ends (processMessage env msgdict) before
      (fun _ after => match msgdict.application with
        | none => after = before
        | some _ => Finished env msgdict before after)
      fun failure after => Left env msgdict before failure after ∧ Cause env msgdict failure := by
  have application (text : Bytes) (same : msgdict.application = some text) : text ∈ commands msgdict := by
    rw [commands, same]
    exact List.mem_cons_self
  have test (text : Bytes) (same : msgdict.test = some text) : text ∈ commands msgdict := by
    rw [commands, same]
    exact List.mem_append_right _ (List.mem_singleton_self text)
  rw [processMessage]
  refine ends_bind _ _ before (fun python reached => env.python = some python ∧ reached = before) _ _ ?_ ?_
  · exact ends_require _ _ before _ _ (fun python found => ⟨found, rfl⟩) fun missing => ⟨rfl, missing⟩
  · intro python reached looked
    obtain ⟨found, rfl⟩ := looked
    refine ends_bind _ _ reached _ _ _ (ends_interpreter env msgdict python _ reached found application) ?_
    intro appPrefix next first
    obtain ⟨first, rfl⟩ := first
    refine ends_bind _ _ next _ _ _ (ends_interpreter env msgdict python _ next found test) ?_
    intro testPrefix last second
    obtain ⟨second, rfl⟩ := second
    cases requested : msgdict.application with
    | none => exact ends_pure _ _ _ _ rfl
    | some text =>
        have ended := ends_monitor env msgdict text testPrefix last requested second
        rw [requested, Option.getD_some] at first
        rw [← first] at ended
        exact ended

end AppFit.Agent.Lifecycle
