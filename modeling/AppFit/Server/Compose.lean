import AppFit.Agent.Message
import AppFit.Lib.Sed
import AppFit.Server.LaunchAgent

/- The compose files that LaunchAgent.sh makes: awk puts the image name into
   docker-compose.yml, sed the CPU set of a run into the result, and docker-compose
   gets what sed has printed. -/
set_option autoImplicit false

namespace AppFit.Server

open AppFit.Scan AppFit.Encoding AppFit.Awk AppFit.Sed AppFit.Agent

def imagePlaceholder : Bytes := ascii "appImage"
def cpuPlaceholder : Bytes := ascii "agentCpuSet"

def composeTop : List Bytes := [ascii "version: '2'", ascii "services:"]

def applicationLine (image : Bytes) : Bytes := ascii "  application-" ++ (image ++ ascii ":")

def applicationBody : List Bytes :=
  [ascii "    build:", ascii "      context: .", ascii "      dockerfile: dockerfiles/Dockerfile.agent.0.gcc",
    ascii "    ports:", ascii "    - \"12345\"", ascii "    links:", ascii "    - redis"]

def cpusetLine (cpuSet : Bytes) : Bytes := ascii "    cpuset: \"" ++ (cpuSet ++ ascii "\"")

def testLine (image : Bytes) : Bytes := ascii "  test-" ++ (image ++ ascii ":")

def composeRest : List Bytes :=
  [ascii "    build:", ascii "      context: .", ascii "      dockerfile: dockerfiles/Dockerfile.client.0.gcc",
    ascii "    links:", ascii "    - redis", ascii "    cpuset: \"1\"", ascii "  redis:", ascii "    image: redis",
    ascii "    ports:", ascii "    - \"6379\"", ascii "    cpuset: \"1\""]

def composeLines (image cpuSet : Bytes) : List Bytes :=
  composeTop ++ applicationLine image :: (applicationBody ++ cpusetLine cpuSet :: testLine image :: composeRest)

def dockerCompose : List Bytes := composeLines imagePlaceholder cpuPlaceholder

-- docker-compose.0.yml and, made from it anew for each run, docker-compose.1.yml.
def composeZero (appImage : Bytes) : List Bytes := substitute imagePlaceholder appImage dockerCompose

def composeOne (appImage cpuSet : Bytes) : List Bytes := sed cpuPlaceholder cpuSet (composeZero appImage)

-- The build, then the single run or the loop.
def usedSets (numCores : Nat) (options : Options) : List Bytes :=
  (if options.useCache then [] else [ascii "0"]) ++
    if options.singleRun then [ascii "0"] else (cpuSets numCores).map utf8

def composeFiles (numCores : Nat) (options : Options) : List Bytes :=
  (usedSets numCores options).map fun cpuSet => printed (composeOne (utf8 options.appImage) cpuSet)

-- awk has nothing to expand in the name and sed nothing to replace.
structure Survives (image : Bytes) : Prop where
  unescaped : assigned.run image = image
  noAmpersand : ampersand ∉ image
  noPlaceholder : ¬ cpuPlaceholder <:+: image

theorem image_letters : imagePlaceholder ≠ [] ∧ newline ∉ imagePlaceholder := by decide

theorem cpu_letters : cpuPlaceholder ≠ [] ∧ newline ∉ cpuPlaceholder := by decide

theorem lines_lack (pattern : Bytes) (lines : List Bytes)
    (nowhere : lines.all (fun line => !(line.tails.any (pattern.isPrefixOf ·))) = true) :
    ∀ line ∈ lines, ¬ pattern <:+: line := by
  intro line member
  have here := List.all_eq_true.mp nowhere line member
  rw [Bool.not_eq_true'] at here
  exact absent_of_tails pattern line here

-- A match does not run across a byte that the pattern does not have.
theorem absent_across (pattern before after : Bytes) (stop : UInt8) (nonempty : pattern ≠ []) (barrier : stop ∉ pattern)
    (first : ¬ pattern <:+: before) (second : ¬ pattern <:+: after) : ¬ pattern <:+: before ++ stop :: after := by
  have same := replace_first_skip pattern [] before after stop nonempty barrier first
  rw [replace_first_absent pattern [] after nonempty second] at same
  intro occurs
  rcases replace_first_cases pattern [] (before ++ stop :: after) nonempty with ⟨left, right, split, replaced⟩ | ⟨_, absent⟩
  · have lengths := congrArg List.length (same.symm.trans replaced)
    rw [split] at lengths
    simp only [List.length_append, List.length_nil] at lengths
    exact nonempty (List.length_eq_zero_iff.mp (by omega))
  · exact absent occurs

section Made

variable (appImage cpuSet : Bytes)

-- One line of the template after both programs.
def made (line : Bytes) : Bytes := edited cpuPlaceholder cpuSet (sub imagePlaceholder (assigned.run appImage) line)

theorem made_fixed (lines : List Bytes) (noImage : ∀ line ∈ lines, ¬ imagePlaceholder <:+: line)
    (noSet : ∀ line ∈ lines, ¬ cpuPlaceholder <:+: line) : lines.flatMap (made appImage cpuSet) = printed lines := by
  induction lines with
  | nil => rfl
  | cons line rest ih =>
      obtain ⟨image, laterImage⟩ := List.forall_mem_cons.mp noImage
      obtain ⟨set, laterSet⟩ := List.forall_mem_cons.mp noSet
      rw [List.flatMap_cons, ih laterImage laterSet, made, sub, replace_first_absent _ _ line image_letters.1 image,
        edited_absent _ _ line cpu_letters.1 set, printed_cons, List.append_assoc]
      rfl

theorem made_named (before : Bytes) (absent : ¬ imagePlaceholder <:+: before ++ imagePlaceholder.dropLast) :
    made appImage cpuSet (before ++ (imagePlaceholder ++ ascii ":")) =
      edited cpuPlaceholder cpuSet (before ++ (expanded imagePlaceholder appImage ++ ascii ":")) := by
  rw [made, sub, replace_first_at imagePlaceholder _ before (ascii ":") image_letters.1 absent]
  rfl

theorem made_cpuset : made appImage cpuSet (cpusetLine cpuPlaceholder) = cpusetLine cpuSet ++ [newline] := by
  have noImage : ¬ imagePlaceholder <:+: cpusetLine cpuPlaceholder := absent_of_tails _ _ (by decide)
  have single : newline ∉ cpusetLine cpuPlaceholder := by decide
  have first : ¬ cpuPlaceholder <:+: ascii "    cpuset: \"" ++ cpuPlaceholder.dropLast := absent_of_tails _ _ (by decide)
  rw [made, sub, replace_first_absent imagePlaceholder _ _ image_letters.1 noImage, edited_single _ _ _ single, cpusetLine,
    replace_first_at cpuPlaceholder cpuSet _ _ cpu_letters.1 first]
  rfl

-- A compose file around what became of its two lines with the name.
def framed (application test : Bytes) : Bytes :=
  printed composeTop ++ (application ++ (printed applicationBody ++ (cpusetLine cpuSet ++ newline :: (test ++
    printed composeRest))))

theorem printed_lines (image : Bytes) :
    printed (composeLines image cpuSet) =
      framed cpuSet (applicationLine image ++ [newline]) (testLine image ++ [newline]) := by
  simp only [composeLines, framed, printed_append, printed_cons, List.append_assoc, List.singleton_append]

theorem printed_compose :
    printed (composeOne appImage cpuSet) =
      framed cpuSet (edited cpuPlaceholder cpuSet (applicationLine (expanded imagePlaceholder appImage)))
        (edited cpuPlaceholder cpuSet (testLine (expanded imagePlaceholder appImage))) := by
  have top := made_fixed appImage cpuSet composeTop (lines_lack _ _ (by decide)) (lines_lack _ _ (by decide))
  have body := made_fixed appImage cpuSet applicationBody (lines_lack _ _ (by decide)) (lines_lack _ _ (by decide))
  have rest := made_fixed appImage cpuSet composeRest (lines_lack _ _ (by decide)) (lines_lack _ _ (by decide))
  have application := made_named appImage cpuSet (ascii "  application-") (absent_of_tails _ _ (by decide))
  have test := made_named appImage cpuSet (ascii "  test-") (absent_of_tails _ _ (by decide))
  have cpus := made_cpuset appImage cpuSet
  rw [composeOne, composeZero, sed_substituted]
  change dockerCompose.flatMap (made appImage cpuSet) = _
  rw [dockerCompose, composeLines, List.flatMap_append, List.flatMap_cons, List.flatMap_append, List.flatMap_cons,
    List.flatMap_cons, top, body, rest, cpus, applicationLine, application, testLine, test, framed, List.append_assoc]
  rfl

theorem framed_weight (weigh : UInt8 → Nat) (application test otherApplication otherTest : Bytes)
    (same : framed cpuSet application test = framed cpuSet otherApplication otherTest) :
    weight weigh application + weight weigh test = weight weigh otherApplication + weight weigh otherTest := by
  have weights := congrArg (weight weigh) same
  simp only [framed, weight_append, weight_cons] at weights
  omega

end Made

theorem image_light : weight commandWeight imagePlaceholder < commandWeight ampersand := by decide

theorem unescaped_of_expanded (image : Bytes) (same : expanded imagePlaceholder image = image) :
    assigned.run image = image := by
  rcases assigned_weight commandWeights image with less | unescaped
  · exfalso
    have lighter : weight commandWeight (assigned.run image) < weight commandWeight image := less
    have whole := congrArg (weight commandWeight) same
    rw [expanded] at whole
    rcases replacement_weight commandWeights imagePlaceholder image_light (assigned.run image) with lesser | ⟨copied, _⟩
    · have second : weight commandWeight ((replacement imagePlaceholder).run (assigned.run image)) <
          weight commandWeight (assigned.run image) := lesser
      omega
    · rw [copied] at whole
      omega
  · exact unescaped

theorem survives_expanded (image : Bytes) (survives : Survives image) : expanded imagePlaceholder image = image := by
  rw [expanded, survives.unescaped]
  exact replacement_copies imagePlaceholder image survives.noAmpersand

-- Both programs only ever make a name lighter.
theorem named_line (before image cpuSet : Bytes)
    (light : weight commandWeight cpuSet < weight commandWeight cpuPlaceholder) :
    weight commandWeight (edited cpuPlaceholder cpuSet (before ++ (expanded imagePlaceholder image ++ ascii ":"))) <
        weight commandWeight (before ++ (image ++ ascii ":") ++ [newline]) ∨
      Survives image ∧ edited cpuPlaceholder cpuSet (before ++ (expanded imagePlaceholder image ++ ascii ":")) =
        before ++ (image ++ ascii ":") ++ [newline] := by
  have sed := edited_weight commandWeight cpuPlaceholder cpuSet cpu_letters.1 light
    (before ++ (expanded imagePlaceholder image ++ ascii ":")) cpu_letters.2
  rcases expanded_size imagePlaceholder image image_light with less | ⟨same, free⟩
  · apply Or.inl
    rw [size, size] at less
    rcases sed with lesser | ⟨kept, _⟩
    · simp only [weight_append] at lesser ⊢
      omega
    · rw [kept]
      simp only [weight_append]
      omega
  · have unescaped := unescaped_of_expanded image same
    rw [same] at sed ⊢
    refine sed.imp id fun kept => ⟨⟨unescaped, free, ?_⟩, kept.1⟩
    exact fun occurs => kept.2 (List.infix_append_of_infix_right (List.infix_append_of_infix_left occurs))

theorem survives_line (start image cpuSet : Bytes) (survives : Survives image) (absent : ¬ cpuPlaceholder <:+: start) :
    edited cpuPlaceholder cpuSet (start ++ byte '-' :: (expanded imagePlaceholder image ++ ascii ":")) =
      start ++ byte '-' :: (image ++ ascii ":") ++ [newline] := by
  have named : ¬ cpuPlaceholder <:+: image ++ ascii ":" :=
    absent_across cpuPlaceholder image [] (byte ':') cpu_letters.1 (by decide) survives.noPlaceholder
      fun occurs => cpu_letters.1 (List.infix_nil.mp occurs)
  rw [survives_expanded image survives]
  exact edited_absent cpuPlaceholder cpuSet _ cpu_letters.1
    (absent_across cpuPlaceholder start _ (byte '-') cpu_letters.1 (by decide) absent named)

theorem compose_survives_iff (image cpuSet : Bytes)
    (light : weight commandWeight cpuSet < weight commandWeight cpuPlaceholder) :
    printed (composeOne image cpuSet) = printed (composeLines image cpuSet) ↔ Survives image := by
  rw [printed_compose, printed_lines]
  constructor
  · intro same
    have weights := framed_weight cpuSet commandWeight _ _ _ _ same
    rcases named_line (ascii "  application-") image cpuSet light with less | ⟨survives, _⟩
    · rcases named_line (ascii "  test-") image cpuSet light with lesser | ⟨survives, _⟩
      · rw [applicationLine, applicationLine, testLine, testLine] at weights
        omega
      · exact survives
    · exact survives
  · intro survives
    have application := survives_line (ascii "  application") image cpuSet survives (absent_of_tails _ _ (by decide))
    have test := survives_line (ascii "  test") image cpuSet survives (absent_of_tails _ _ (by decide))
    exact congrArg₂ (framed cpuSet) application test

theorem used_sets_light (numCores : Nat) (options : Options) (cpuSet : Bytes) (used : cpuSet ∈ usedSets numCores options) :
    weight commandWeight cpuSet < weight commandWeight cpuPlaceholder := by
  have zero : weight commandWeight (ascii "0") < weight commandWeight cpuPlaceholder := by decide
  have tabled : ∀ set ∈ cpuSets numCores, weight commandWeight (utf8 set) < weight commandWeight cpuPlaceholder := by
    by_cases listed : numCores = 1 ∨ numCores = 4 ∨ numCores = 8
    · rcases listed with rfl | rfl | rfl <;> decide
    · rw [cpu_sets_none numCores listed]
      exact fun set member => absurd member List.not_mem_nil
  rw [usedSets] at used
  rcases List.mem_append.mp used with build | run
  · split at build
    · exact absurd build List.not_mem_nil
    · rw [List.mem_singleton.mp build]
      exact zero
  · split at run
    · rw [List.mem_singleton.mp run]
      exact zero
    · obtain ⟨set, member, rfl⟩ := List.mem_map.mp run
      exact tabled set member

-- The CPU sets of the four runs; a host of another size gets no run.
def runSets : Nat → List Bytes
  | 8 => [ascii "0", ascii "0-1", ascii "0-3", ascii "0-7"]
  | 4 => [ascii "0", ascii "0-1", ascii "0-2", ascii "0-3"]
  | 1 => [ascii "0", ascii "0", ascii "0", ascii "0"]
  | _ => []

theorem run_sets_table (numCores : Nat) : (cpuSets numCores).map utf8 = runSets numCores := by
  by_cases tabled : numCores = 1 ∨ numCores = 4 ∨ numCores = 8
  · rcases tabled with rfl | rfl | rfl <;> decide
  · rw [cpu_sets_none numCores tabled, List.map_nil, runSets]
    · exact fun eight => tabled (.inr (.inr eight))
    · exact fun four => tabled (.inr (.inl four))
    · exact fun one => tabled (.inl one)

theorem used_sets_nil (numCores : Nat) (options : Options) :
    usedSets numCores options = [] ↔
      options.useCache = true ∧ options.singleRun = false ∧ ¬ (numCores = 1 ∨ numCores = 4 ∨ numCores = 8) := by
  have none : (cpuSets numCores).map utf8 = [] ↔ ¬ (numCores = 1 ∨ numCores = 4 ∨ numCores = 8) := by
    rw [List.map_eq_nil_iff]
    refine ⟨fun empty tabled => ?_, cpu_sets_none numCores⟩
    have four := cpu_sets_four numCores tabled
    rw [empty] at four
    cases four
  rw [usedSets, List.append_eq_nil_iff]
  cases options.useCache <;> cases options.singleRun <;> simp [none]

-- The build and the single run are on the first core, the other runs on their own sets.
theorem compose_files_iff (numCores : Nat) (options : Options) :
    let file := fun cpuSet => printed (composeLines (utf8 options.appImage) cpuSet)
    composeFiles numCores options =
        (if options.useCache then [] else [file (ascii "0")]) ++
          (if options.singleRun then [file (ascii "0")] else (runSets numCores).map file) ↔
      (options.useCache = true ∧ options.singleRun = false ∧ ¬ (numCores = 1 ∨ numCores = 4 ∨ numCores = 8)) ∨
        Survives (utf8 options.appImage) := by
  intro file
  have intended : (if options.useCache then [] else [file (ascii "0")]) ++
      (if options.singleRun then [file (ascii "0")] else (runSets numCores).map file) =
        (usedSets numCores options).map file := by
    rw [usedSets, run_sets_table, List.map_append, apply_ite (List.map file), apply_ite (List.map file), List.map_nil,
      List.map_singleton]
  rw [intended, composeFiles, List.map_inj_left, ← used_sets_nil]
  constructor
  · intro same
    cases used : usedSets numCores options with
    | nil => exact .inl rfl
    | cons cpuSet rest =>
        have member : cpuSet ∈ usedSets numCores options := used ▸ List.mem_cons_self
        exact .inr ((compose_survives_iff _ cpuSet (used_sets_light numCores options cpuSet member)).mp (same cpuSet member))
  · intro either cpuSet member
    rcases either with none | survives
    · rw [none] at member
      exact absurd member List.not_mem_nil
    · exact (compose_survives_iff _ cpuSet (used_sets_light numCores options cpuSet member)).mpr survives

end AppFit.Server
