import AppFit.Lib.Awk
import AppFit.Lib.Json
import AppFit.Lib.PyLiteral

/- The way of the two commands from the variables of LaunchAgent.sh to the agent:
   two awk substitutions into Dockerfile.client.gcc, the CMD of the client's
   image, client.py, the queue and eval in agent.py. Redis is taken to deliver the
   pushed bytes unchanged. -/
set_option autoImplicit false

namespace AppFit.Agent

open AppFit.Scan AppFit.Encoding AppFit.Awk AppFit.PyLiteral

def appCommand : Bytes := ascii "appCommand"
def testCommand : Bytes := ascii "testCommand"

-- dockerfiles/Dockerfile.client.gcc, without its last line and that line.
def clientHeader : List Bytes :=
  [ascii "# Setup Application Environment", [], ascii "# Get Python 3", ascii "FROM python:2-onbuild", [],
    ascii "# Install needed packages", ascii "RUN \\", ascii "  apt-get -y update && \\",
    ascii "  apt-get -y install supervisor && \\", ascii "  apt-get clean && \\",
    ascii "  rm -rf /var/lib/apt/lists/*", [], ascii "# Copy the files n", ascii "RUN mkdir -p /usr/src/app",
    ascii "WORKDIR /usr/src/app", ascii "COPY agent/ /usr/src/app/", []]

def python : Bytes := ascii "python"
def clientPath : Bytes := ascii "/usr/src/app/agent/client.py"

def cmdHead : Bytes := ascii "[\"python\", \"/usr/src/app/agent/client.py\", "
def cmdTail : Bytes := ascii "\", \"testCommand\"]"

def clientCmd : Bytes := ascii "CMD [\"python\", \"/usr/src/app/agent/client.py\", \"appCommand\", \"testCommand\"]"

def clientDockerfile (application test : Bytes) : List Bytes :=
  substitute testCommand test (substitute appCommand application (clientHeader ++ [clientCmd]))

-- The command of an image in exec form, as Docker takes it from a Dockerfile;
-- none stands for a failed build and for the shell form, which starts no client
-- of ours. Docker decodes the arguments of a CMD line as a JSON array of strings.
structure Docker where
  command : List Bytes → Option (List Bytes)
  json : ∀ arguments, newline ∉ arguments → arguments.getLast? = some (byte ']') →
    command (clientHeader ++ [ascii "CMD " ++ arguments]) = Json.array arguments

-- client.py, started with the words of an exec form; a word with a NUL cannot be
-- passed. The order of the dict is that of the hashes of its keys.
def clientMessage : List Bytes → Option (List Pair)
  | interpreter :: script :: argv1 :: argv =>
      if interpreter = python ∧ script = clientPath ∧ ∀ word ∈ argv1 :: argv, 0 ∉ word then
        some [(ascii "Test", [byte ' '].intercalate argv), (ascii "Application", argv1)]
      else none
  | _ => none

def agentMessage (docker : Docker) (application test : Bytes) : Option (List Pair) :=
  (docker.command (clientDockerfile application test)).bind fun words =>
    (clientMessage words).bind fun msg => evalDict (strDict msg)

def Delivered (docker : Docker) (application test : Bytes) : Prop :=
  ∃ msgdict, agentMessage docker application test = some msgdict ∧
    msgdict.lookup (ascii "Application") = some application ∧ msgdict.lookup (ascii "Test") = some test

theorem client_cmd_split : clientCmd = ascii "CMD " ++ cmdHead ++ quote :: (appCommand ++ cmdTail) := by decide

theorem header_untouched (pattern text : Bytes) (lines : List Bytes)
    (absent : ∀ line ∈ lines, ¬ pattern <:+: line ∧ newline ∉ line) (nonempty : pattern ≠ []) :
    substitute pattern text lines = lines := by
  induction lines with
  | nil => rfl
  | cons line rest ih =>
      obtain ⟨missing, single⟩ := absent line List.mem_cons_self
      have same : sub pattern (assigned.run text) line = line := by
        rcases replace_first_cases pattern ((replacement pattern).run (assigned.run text)) line nonempty with
          ⟨before, after, split, _⟩ | ⟨same, _⟩
        · exact absurd ⟨before, after, split.symm⟩ missing
        · exact same
      have later := ih fun line member => absent line (List.mem_cons_of_mem _ member)
      rw [substitute, List.flatMap_cons, same, records_single line single]
      exact congrArg (line :: ·) later

def expanded (pattern text : Bytes) : Bytes := (replacement pattern).run (assigned.run text)

theorem app_letters : appCommand ≠ [] ∧ quote ∉ appCommand ∧ newline ∉ appCommand := by decide

theorem test_letters : testCommand ≠ [] ∧ quote ∉ testCommand ∧ newline ∉ testCommand := by decide

theorem expanded_single (pattern text : Bytes) (single : newline ∉ assigned.run text) (letters : newline ∉ pattern) :
    newline ∉ expanded pattern text :=
  mem_replacement pattern (assigned.run text) newline letters (by decide) (by decide) single

theorem cmd_substitutions (application test : Bytes) :
    replaceFirst testCommand test (replaceFirst appCommand application clientCmd) =
      ascii "CMD " ++ (cmdHead ++ quote :: replaceFirst testCommand test (application ++ cmdTail)) := by
  have appAbsent : ¬ appCommand <:+: ascii "CMD " ++ cmdHead := absent_of_tails _ _ (by decide)
  have testAbsent : ¬ testCommand <:+: ascii "CMD " ++ cmdHead := absent_of_tails _ _ (by decide)
  have first : replaceFirst appCommand application clientCmd =
      ascii "CMD " ++ cmdHead ++ quote :: (application ++ cmdTail) := by
    rw [client_cmd_split, replace_first_skip appCommand application _ _ quote app_letters.1 app_letters.2.1 appAbsent,
      replace_first_here appCommand application cmdTail app_letters.1]
  rw [first, replace_first_skip testCommand test _ _ quote test_letters.1 test_letters.2.1 testAbsent, List.append_assoc]

-- The rest of the CMD line from inside its third string on.
def cmdRest (application test : Bytes) : Bytes := replaceFirst testCommand test (application ++ cmdTail)

theorem cmd_rest_single (application test : Bytes) (first : newline ∉ application) (second : newline ∉ test) :
    newline ∉ cmdRest application test := by
  intro member
  rcases mem_replace_first testCommand test _ newline test_letters.1 member with inTest | inLine
  · exact second inTest
  · rcases List.mem_append.mp inLine with inApplication | inTail
    · exact first inApplication
    · have tail : newline ∉ cmdTail := by decide
      exact tail inTail

theorem cmd_tail_split : cmdTail = ascii "\", \"" ++ testCommand ++ ascii "\"]" := by decide

theorem cmd_rest_split (application test : Bytes) :
    ∃ before after, application ++ cmdTail = before ++ testCommand ++ after ∧
      cmdRest application test = before ++ test ++ after := by
  rcases replace_first_cases testCommand test (application ++ cmdTail) test_letters.1 with found | ⟨_, absent⟩
  · exact found
  · refine absurd ⟨application ++ ascii "\", \"", ascii "\"]", ?_⟩ absent
    rw [cmd_tail_split, List.append_assoc, List.append_assoc, List.append_assoc]

theorem header_lacks (pattern : Bytes)
    (nowhere : clientHeader.all (fun line => !(line.tails.any (pattern.isPrefixOf ·)) && !line.contains newline) = true) :
    ∀ line ∈ clientHeader, ¬ pattern <:+: line ∧ newline ∉ line := by
  intro line member
  have here := List.all_eq_true.mp nowhere line member
  rw [Bool.and_eq_true, Bool.not_eq_true', Bool.not_eq_true'] at here
  refine ⟨absent_of_tails pattern line here.1, ?_⟩
  intro inside
  rw [List.contains_iff_mem.mpr inside] at here
  cases here.2

theorem client_dockerfile_eq (application test : Bytes) (first : newline ∉ assigned.run application)
    (second : newline ∉ assigned.run test) :
    clientDockerfile application test = clientHeader ++ [ascii "CMD " ++ (cmdHead ++
      quote :: cmdRest (expanded appCommand application) (expanded testCommand test))] := by
  have firstSingle := expanded_single appCommand application first app_letters.2.2
  have secondSingle := expanded_single testCommand test second test_letters.2.2
  have cmdSingle : newline ∉ clientCmd := by decide
  have headSingle : newline ∉ ascii "CMD " ++ (cmdHead ++ [quote]) := by decide
  have once : newline ∉ sub appCommand (assigned.run application) clientCmd := by
    intro member
    rcases mem_replace_first appCommand _ clientCmd newline app_letters.1 member with inValue | inLine
    · exact firstSingle inValue
    · exact cmdSingle inLine
  have twice : newline ∉ ascii "CMD " ++ (cmdHead ++
      quote :: cmdRest (expanded appCommand application) (expanded testCommand test)) := by
    rw [List.append_cons cmdHead, ← List.append_assoc]
    intro member
    rcases List.mem_append.mp member with inHead | inRest
    · exact headSingle inHead
    · exact cmd_rest_single _ _ firstSingle secondSingle inRest
  have appHeader := header_untouched appCommand application clientHeader
    (header_lacks appCommand (by decide)) app_letters.1
  have testHeader := header_untouched testCommand test clientHeader
    (header_lacks testCommand (by decide)) test_letters.1
  have cmd := cmd_substitutions (expanded appCommand application) (expanded testCommand test)
  have firstFile : substitute appCommand application (clientHeader ++ [clientCmd]) =
      clientHeader ++ [sub appCommand (assigned.run application) clientCmd] := by
    rw [substitute, List.flatMap_append]
    exact congrArg₂ (· ++ ·) appHeader (by rw [List.flatMap_singleton, records_single _ once])
  rw [clientDockerfile, firstFile, substitute, List.flatMap_append]
  refine congrArg₂ (· ++ ·) testHeader ?_
  rw [List.flatMap_singleton, sub, sub]
  exact (congrArg records cmd).trans (records_single _ twice)

theorem array_cmd (rest : Bytes) :
    ∃ fuel, Json.array (cmdHead ++ quote :: rest) =
      (Json.elements (fuel + 2) (byte ' ' :: quote :: rest)).map fun words => python :: clientPath :: words := by
  have head : cmdHead = byte '[' :: quote :: (python ++ quote :: byte ',' :: byte ' ' :: quote :: (clientPath ++
      quote :: byte ',' :: [byte ' '])) := by decide
  have pythonPlain := Json.plain_of_all python (by decide)
  have pathPlain := Json.plain_of_all clientPath (by decide)
  have pythonValid : toValid.run python = python := by decide
  have pathValid : toValid.run clientPath = clientPath := by decide
  let second := byte ' ' :: quote :: (clientPath ++ quote :: byte ',' :: byte ' ' :: quote :: rest)
  let first := quote :: (python ++ quote :: byte ',' :: second)
  have whole : cmdHead ++ quote :: rest = byte '[' :: first := by
    rw [head]
    simp [first, second]
  have long : first.length + 1 = first.length - 3 + 2 + 1 + 1 := by
    simp only [first, List.length_cons, List.length_append]
    omega
  refine ⟨first.length - 3, ?_⟩
  have opened : Json.array (byte '[' :: first) = Json.elements (first.length + 1) first := rfl
  rw [whole, opened, long, Json.elements_next _ first python second rfl pythonPlain,
    Json.elements_next _ second clientPath (byte ' ' :: quote :: rest) rfl pathPlain, pythonValid, pathValid,
    Option.map_map]
  rfl

theorem cmd_rest_last (application test : Bytes) : (cmdRest application test).getLast? = some (byte ']') := by
  obtain ⟨before, after, split, replaced⟩ := cmd_rest_split application test
  have tailLast : cmdTail.getLast? = some (byte ']') := by decide
  have wordLast : testCommand.getLast? = some (byte 'd') := by decide
  have last := congrArg List.getLast? split
  rw [List.getLast?_append, tailLast, List.getLast?_append, List.getLast?_append, wordLast,
    Option.some_or, Option.some_or] at last
  rw [replaced, List.getLast?_append]
  cases ends : after.getLast? with
  | none =>
      rw [ends] at last
      exact absurd last (by decide)
  | some item =>
      rw [ends] at last
      exact last.symm

theorem client_message_fields (words : List Bytes) (application test : Bytes) :
    (∃ msgdict, ((clientMessage (python :: clientPath :: words)).bind fun msg => evalDict (strDict msg)) = some msgdict ∧
        msgdict.lookup (ascii "Application") = some application ∧ msgdict.lookup (ascii "Test") = some test) ↔
      ∃ argv, words = application :: argv ∧ [byte ' '].intercalate argv = test ∧
        ∀ word ∈ application :: argv, 0 ∉ word := by
  have differ : (ascii "Application" == ascii "Test") = false := by decide
  cases words with
  | nil => simp [clientMessage]
  | cons argv1 argv =>
      by_cases passes : ∀ word ∈ argv1 :: argv, 0 ∉ word
      · rw [clientMessage, if_pos ⟨rfl, rfl, passes⟩, Option.bind_some, eval_str_dict]
        constructor
        · intro delivered
          obtain ⟨msgdict, same, first, second⟩ := delivered
          cases same
          simp only [List.lookup_cons, differ, beq_self_eq_true, Option.some.injEq] at first second
          exact ⟨argv, by rw [first], second, first ▸ passes⟩
        · intro arrived
          obtain ⟨arguments, same, joined, _⟩ := arrived
          obtain ⟨rfl, rfl⟩ := List.cons.inj same
          refine ⟨_, rfl, ?_, ?_⟩
          · simp only [List.lookup_cons, differ, beq_self_eq_true]
          · simp only [List.lookup_cons, beq_self_eq_true, joined]
      · rw [clientMessage, if_neg fun all => passes all.2.2]
        constructor
        · intro delivered
          obtain ⟨msgdict, same, _⟩ := delivered
          cases same
        · intro arrived
          obtain ⟨arguments, same, _, all⟩ := arrived
          exact absurd (same ▸ all) passes

theorem delivered_iff (docker : Docker) (application test : Bytes) (first : newline ∉ assigned.run application)
    (second : newline ∉ assigned.run test) :
    ∃ fuel, Delivered docker application test ↔
      ∃ argv, Json.elements (fuel + 2) (byte ' ' :: quote ::
          cmdRest (expanded appCommand application) (expanded testCommand test)) = some (application :: argv) ∧
        [byte ' '].intercalate argv = test ∧ ∀ word ∈ application :: argv, 0 ∉ word := by
  let rest := cmdRest (expanded appCommand application) (expanded testCommand test)
  have single : newline ∉ cmdHead ++ quote :: rest := by
    have headSingle : newline ∉ cmdHead ++ [quote] := by decide
    rw [List.append_cons]
    intro member
    rcases List.mem_append.mp member with inHead | inRest
    · exact headSingle inHead
    · exact cmd_rest_single _ _ (expanded_single _ _ first app_letters.2.2)
        (expanded_single _ _ second test_letters.2.2) inRest
  have last : (cmdHead ++ quote :: rest).getLast? = some (byte ']') := by
    rw [List.append_cons, List.getLast?_append, cmd_rest_last]
    rfl
  obtain ⟨fuel, read⟩ := array_cmd rest
  refine ⟨fuel, ?_⟩
  rw [Delivered, agentMessage, client_dockerfile_eq application test first second, docker.json _ single last, read]
  cases Json.elements (fuel + 2) (byte ' ' :: quote :: rest) with
  | none => simp
  | some words =>
      rw [Option.map_some, Option.bind_some, client_message_fields]
      simp only [Option.some.injEq]

-- A backslash and an ampersand weigh more than what they can be turned into, and
-- what the template can add to a string weighs nothing.
def commandWeight (item : UInt8) : Nat :=
  if 0x80 ≤ item ∨ item = quote ∨ item = byte ' ' ∨ item = byte ',' ∨ item = byte ']' then 0
  else if item = backslash then 14
  else if item = ampersand then 12
  else 1

theorem command_weight_top (item : UInt8) : commandWeight item ≤ commandWeight backslash := by
  have backslashWeight : commandWeight backslash = 14 := by decide
  rw [backslashWeight, commandWeight]
  split_ifs <;> decide

theorem command_weight_alnum (item : UInt8) (letter : isAlnum item = true) : 0 < commandWeight item := by
  have light : ¬ (0x80 ≤ item ∨ item = quote ∨ item = byte ' ' ∨ item = byte ',' ∨ item = byte ']') := by
    intro heavy
    rcases heavy with high | rfl | rfl | rfl | rfl
    · simp only [isAlnum, Bool.or_eq_true, Bool.and_eq_true, decide_eq_true_eq, UInt8.le_iff_toNat_le] at letter high
      have bounds : (0x80 : UInt8).toNat = 128 ∧ (57 : UInt8).toNat = 57 ∧ (122 : UInt8).toNat = 122 ∧
          (90 : UInt8).toNat = 90 := by decide
      omega
    · exact absurd letter (by decide)
    · exact absurd letter (by decide)
    · exact absurd letter (by decide)
    · exact absurd letter (by decide)
  rw [commandWeight, if_neg light]
  split_ifs <;> decide

theorem command_weight_high (item : UInt8) (nonAscii : 0x80 ≤ item) : commandWeight item = 0 := if_pos (.inl nonAscii)

def commandWeights : Weights := ⟨commandWeight, command_weight_top, command_weight_alnum, command_weight_high⟩

def size (text : Bytes) : Nat := weight commandWeight text

theorem expanded_size (pattern text : Bytes) (light : size pattern < commandWeight ampersand) :
    size (expanded pattern text) < size text ∨ expanded pattern text = text ∧ ampersand ∉ text := by
  have first := assigned_weight commandWeights text
  have second := replacement_weight commandWeights pattern light (assigned.run text)
  rcases first with less | same
  · rcases second with lesser | ⟨equal, _⟩
    · exact .inl (Nat.lt_trans lesser less)
    · apply Or.inl
      rw [expanded, equal]
      exact less
  · rw [same] at second
    rw [expanded, same]
    exact second

theorem cmd_rest_size (application test : Bytes) : size (cmdRest application test) = size application + size test := by
  obtain ⟨before, after, split, replaced⟩ := cmd_rest_split application test
  have tail : size cmdTail = size testCommand := by decide
  have total := congrArg size split
  simp only [size, weight_append] at total tail ⊢
  rw [replaced, weight_append, weight_append]
  omega

theorem joined_size (argv : List Bytes) : size ([byte ' '].intercalate argv) = size argv.flatten := by
  have space : commandWeight (byte ' ') = 0 := by decide
  induction argv with
  | nil => rfl
  | cons word rest ih =>
      cases rest with
      | nil => simp [List.intercalate]
      | cons next rest =>
          simp only [size, List.intercalate, List.intersperse, List.flatten_cons, weight_append, weight_cons,
            weight_nil, space] at ih ⊢
          omega

theorem mem_joined (argv : List Bytes) (item : UInt8) (member : item ∈ [byte ' '].intercalate argv) :
    item = byte ' ' ∨ ∃ word ∈ argv, item ∈ word := by
  induction argv with
  | nil => cases member
  | cons word rest ih =>
      cases rest with
      | nil =>
          refine .inr ⟨word, List.mem_singleton_self word, ?_⟩
          simpa [List.intercalate] using member
      | cons next rest =>
          simp only [List.intercalate, List.intersperse, List.flatten_cons, List.mem_append, List.mem_singleton]
            at member ih
          rcases member with here | space | later
          · exact .inr ⟨word, List.mem_cons_self, here⟩
          · exact .inl space
          · rcases ih later with space | ⟨other, inside, within⟩
            · exact .inl space
            · exact .inr ⟨other, List.mem_cons_of_mem _ inside, within⟩

structure CommandsPlain (application test : Bytes) : Prop where
  ordinaryApplication : ∀ item ∈ application, Json.plain item ∧ item ≠ ampersand
  ordinaryTest : ∀ item ∈ test, Json.plain item ∧ item ≠ ampersand
  placeholder : testCommand <:+: application → test = testCommand

theorem expanded_plain (pattern text : Bytes) (plain : ∀ item ∈ text, Json.plain item ∧ item ≠ ampersand) :
    assigned.run text = text ∧ expanded pattern text = text := by
  have noEscape : backslash ∉ text := fun member => (plain backslash member).1.2.1 rfl
  have noAmpersand : ampersand ∉ text := fun member => (plain ampersand member).2 rfl
  have same := assigned_plain text noEscape
  refine ⟨same, ?_⟩
  rw [expanded, same]
  exact replacement_plain pattern text noEscape noAmpersand

theorem elements_two (fuel : Nat) (first second : Bytes) (firstPlain : ∀ item ∈ first, Json.plain item)
    (secondPlain : ∀ item ∈ second, Json.plain item) :
    Json.elements (fuel + 2) (byte ' ' :: quote :: (first ++ ascii "\", \"" ++ second ++ ascii "\"]")) =
      some [toValid.run first, toValid.run second] := by
  have between : ascii "\", \"" = [quote, byte ',', byte ' ', quote] := by decide
  have closing : ascii "\"]" = [quote, byte ']'] := by decide
  have input : byte ' ' :: quote :: (first ++ ascii "\", \"" ++ second ++ ascii "\"]") =
      byte ' ' :: quote :: (first ++ quote :: byte ',' :: (byte ' ' :: quote :: (second ++ quote :: byte ']' :: []))) := by
    rw [between, closing]
    simp
  rw [input, Json.elements_next (fuel + 1) _ first _ rfl firstPlain,
    Json.elements_last fuel _ second [] rfl secondPlain]
  rfl

theorem cmd_rest_outside (application test : Bytes) (absent : ¬ testCommand <:+: application) :
    cmdRest application test = application ++ ascii "\", \"" ++ test ++ ascii "\"]" := by
  have between : ascii "\", \"" = [quote, byte ',', byte ' '] ++ [quote] := by decide
  have gap : ¬ testCommand <:+: [byte ',', byte ' '] := absent_of_tails _ _ (by decide)
  have line : application ++ cmdTail =
      application ++ quote :: ([byte ',', byte ' '] ++ quote :: (testCommand ++ ascii "\"]")) := by
    rw [cmd_tail_split, between]
    simp
  rw [cmdRest, line, replace_first_skip testCommand test _ _ quote test_letters.1 test_letters.2.1 absent,
    replace_first_skip testCommand test _ _ quote test_letters.1 test_letters.2.1 gap,
    replace_first_here testCommand test _ test_letters.1, between]
  simp

theorem cmd_rest_inside (application test : Bytes) (occurs : testCommand <:+: application) :
    cmdRest application test =
      replaceFirst testCommand test application ++ ascii "\", \"" ++ testCommand ++ ascii "\"]" := by
  rw [cmdRest, replace_first_inside testCommand test application cmdTail test_letters.1 occurs, cmd_tail_split]
  simp

theorem cmd_rest_plain (application test : Bytes) (plain : CommandsPlain application test) :
    cmdRest application test = application ++ ascii "\", \"" ++ test ++ ascii "\"]" := by
  by_cases occurs : testCommand <:+: application
  · have same : replaceFirst testCommand testCommand application = application := by
      rcases replace_first_cases testCommand testCommand application test_letters.1 with
        ⟨before, after, split, replaced⟩ | ⟨unchanged, _⟩
      · rw [replaced, ← split]
      · exact unchanged
    rw [plain.placeholder occurs, cmd_rest_inside application testCommand occurs, same]
  · exact cmd_rest_outside application test occurs

theorem plain_no_nul (text : Bytes) (plain : ∀ item ∈ text, Json.plain item) : 0 ∉ text :=
  fun member => (plain 0 member).2.2 (by decide)

theorem plain_delivered (docker : Docker) (application test : List Char)
    (plain : CommandsPlain (utf8 application) (utf8 test)) : Delivered docker (utf8 application) (utf8 test) := by
  have firstPlain (item : UInt8) (member : item ∈ utf8 application) := (plain.ordinaryApplication item member).1
  have secondPlain (item : UInt8) (member : item ∈ utf8 test) := (plain.ordinaryTest item member).1
  obtain ⟨firstAssigned, firstExpanded⟩ := expanded_plain appCommand (utf8 application) plain.ordinaryApplication
  obtain ⟨secondAssigned, secondExpanded⟩ := expanded_plain testCommand (utf8 test) plain.ordinaryTest
  have firstSingle : newline ∉ assigned.run (utf8 application) := by
    rw [firstAssigned]
    exact fun member => (firstPlain newline member).2.2 (by decide)
  have secondSingle : newline ∉ assigned.run (utf8 test) := by
    rw [secondAssigned]
    exact fun member => (secondPlain newline member).2.2 (by decide)
  obtain ⟨fuel, delivered⟩ := delivered_iff docker _ _ firstSingle secondSingle
  rw [delivered, firstExpanded, secondExpanded, cmd_rest_plain _ _ plain, elements_two fuel _ _ firstPlain secondPlain,
    to_valid_utf8, to_valid_utf8]
  refine ⟨[utf8 test], rfl, by simp [List.intercalate], ?_⟩
  intro word member
  rcases List.mem_cons.mp member with rfl | later
  · exact plain_no_nul _ firstPlain
  · cases List.mem_singleton.mp later
    exact plain_no_nul _ secondPlain

-- Nothing that is turned into something lighter can come back whole, so nothing
-- was turned: no escapes, no ampersands, and the strings are copied.
theorem delivered_unchanged (docker : Docker) (application test : Bytes) (first : newline ∉ assigned.run application)
    (second : newline ∉ assigned.run test) (delivered : Delivered docker application test) :
    (∀ item ∈ application, Json.plain item ∧ item ≠ ampersand) ∧ ∀ item ∈ test, Json.plain item ∧ item ≠ ampersand := by
  obtain ⟨fuel, same⟩ := delivered_iff docker application test first second
  obtain ⟨argv, read, joined, _⟩ := same.mp delivered
  have light : size appCommand < commandWeight ampersand ∧ size testCommand < commandWeight ampersand := by
    decide
  have input : weight commandWeight (byte ' ' :: quote ::
      cmdRest (expanded appCommand application) (expanded testCommand test)) =
      size (expanded appCommand application) + size (expanded testCommand test) := by
    have nothing : commandWeight (byte ' ') = 0 ∧ commandWeight quote = 0 := by decide
    rw [weight_cons, weight_cons, nothing.1, nothing.2, Nat.zero_add, Nat.zero_add]
    exact cmd_rest_size _ _
  have output : weight commandWeight (application :: argv).flatten = size application + size test := by
    rw [← joined, joined_size, List.flatten_cons, weight_append]
    rfl
  have decoded := Json.elements_weight commandWeights _ _ _ read
  change weight commandWeight _ < weight commandWeight _ ∨ weight commandWeight _ ≤ weight commandWeight _ ∧ _ at decoded
  rw [input, output] at decoded
  have firstSize := expanded_size appCommand application light.1
  have secondSize := expanded_size testCommand test light.2
  rcases firstSize with less | ⟨firstSame, firstFree⟩
  · rcases secondSize with lesser | ⟨secondSame, _⟩
    · omega
    · rw [secondSame] at decoded
      omega
  · rcases secondSize with lesser | ⟨secondSame, secondFree⟩
    · rw [firstSame] at decoded
      omega
    · rw [firstSame, secondSame] at decoded
      rcases decoded with less | ⟨_, _, words⟩
      · omega
      · refine ⟨?_, ?_⟩
        · intro item member
          exact ⟨words application List.mem_cons_self item member, fun equal => firstFree (equal ▸ member)⟩
        · intro item member
          refine ⟨?_, fun equal => secondFree (equal ▸ member)⟩
          rw [← joined] at member
          rcases mem_joined argv item member with rfl | ⟨word, inside, within⟩
          · decide
          · exact words word (List.mem_cons_of_mem _ inside) item within

theorem delivered_plain (docker : Docker) (application test : Bytes) (first : newline ∉ assigned.run application)
    (second : newline ∉ assigned.run test) (delivered : Delivered docker application test) :
    CommandsPlain application test := by
  obtain ⟨firstPlain, secondPlain⟩ := delivered_unchanged docker application test first second delivered
  refine ⟨firstPlain, secondPlain, ?_⟩
  intro occurs
  obtain ⟨fuel, same⟩ := delivered_iff docker application test first second
  obtain ⟨argv, read, joined, _⟩ := same.mp delivered
  have wordPlain := Json.plain_of_all testCommand (by decide)
  have wordValid : toValid.run testCommand = testCommand := by decide
  have replacedPlain : ∀ item ∈ replaceFirst testCommand test application, Json.plain item := by
    intro item member
    rcases mem_replace_first testCommand test application item test_letters.1 member with inTest | inApplication
    · exact (secondPlain item inTest).1
    · exact (firstPlain item inApplication).1
  rw [(expanded_plain appCommand application firstPlain).2, (expanded_plain testCommand test secondPlain).2,
    cmd_rest_inside application test occurs, elements_two fuel _ _ replacedPlain wordPlain, wordValid,
    Option.some.injEq] at read
  obtain ⟨_, rfl⟩ := List.cons.inj read
  rw [← joined]
  simp [List.intercalate]

-- The condition is enough for any commands; it is also needed whenever neither
-- command has an escape that awk turns into a line break.
theorem message_delivered_iff (docker : Docker) (application test : List Char) :
    (CommandsPlain (utf8 application) (utf8 test) → Delivered docker (utf8 application) (utf8 test)) ∧
      (newline ∉ assigned.run (utf8 application) → newline ∉ assigned.run (utf8 test) →
        (Delivered docker (utf8 application) (utf8 test) ↔ CommandsPlain (utf8 application) (utf8 test))) := by
  refine ⟨plain_delivered docker application test, ?_⟩
  intro first second
  exact ⟨delivered_plain docker _ _ first second, plain_delivered docker application test⟩

-- Docker as far as a Dockerfile goes whose last line is its CMD.
def lastLineDocker : Docker where
  command lines := lines.getLast?.bind fun line =>
    if (ascii "CMD ").isPrefixOf line then Json.array (line.drop (ascii "CMD ").length) else none
  json arguments _ _ := by
    have found : (ascii "CMD ").isPrefixOf (ascii "CMD " ++ arguments) = true :=
      List.isPrefixOf_iff_prefix.mpr (List.prefix_append _ _)
    rw [List.getLast?_append, List.getLast?_singleton, Option.some_or, Option.bind_some, if_pos found, List.drop_left]

theorem ordinary_of_all (text : Bytes)
    (checked : text.all (fun item => decide (Json.plain item ∧ item ≠ ampersand)) = true) :
    ∀ item ∈ text, Json.plain item ∧ item ≠ ampersand := by
  intro item member
  exact of_decide_eq_true (List.all_eq_true.mp checked item member)

theorem plain_commands_delivered :
    Delivered lastLineDocker (utf8 "./serve --port 80".toList) (utf8 "./load 'GET /'".toList) := by
  apply (message_delivered_iff lastLineDocker "./serve --port 80".toList "./load 'GET /'".toList).1
  refine ⟨ordinary_of_all _ (by decide), ordinary_of_all _ (by decide), ?_⟩
  intro occurs
  exact absurd occurs (absent_of_tails _ _ (by decide))

theorem commands_not_delivered :
    ¬ Delivered lastLineDocker (utf8 "./serve & ./watch".toList) (utf8 "./load".toList) ∧
      ¬ Delivered lastLineDocker (utf8 "./serve".toList) (utf8 "./load \"GET /\"".toList) ∧
      ¬ Delivered lastLineDocker (utf8 "./testCommand.sh".toList) (utf8 "./load".toList) := by
  refine ⟨?_, ?_, ?_⟩
  · intro delivered
    have plain := delivered_plain lastLineDocker _ _ (by decide) (by decide) delivered
    exact (plain.ordinaryApplication ampersand (by decide)).2 rfl
  · intro delivered
    have plain := delivered_plain lastLineDocker _ _ (by decide) (by decide) delivered
    exact (plain.ordinaryTest quote (by decide)).1.1 rfl
  · intro delivered
    have plain := delivered_plain lastLineDocker _ _ (by decide) (by decide) delivered
    have occurs : testCommand <:+: utf8 "./testCommand.sh".toList := ⟨ascii "./", ascii ".sh", by decide⟩
    exact absurd (plain.placeholder occurs) (by decide)

end AppFit.Agent
