import AppFit.Agent.ReportText
import AppFit.Agent.SlotOrder
import AppFit.Browser.PlotData
import AppFit.Server.Response

/- What travels from the agents to the browser: the report files, the list of
   their contents as comments_handler dumps it, and the two levels of JSON.parse
   in getMetrics. A result is read field by field, as plotData uses it. How the
   browser reads a number is a parameter, as Python's repr is one: that it gives
   back the number that repr wrote is assumed where it is used. -/
set_option autoImplicit false

namespace AppFit.Browser

open AppFit.Shell AppFit.JsonText AppFit.Dict AppFit.Agent AppFit.Server

section Reading

variable (reader : NumberReader)

def numberOf : Value → Option ℚ
  | .literal literal => reader.read literal.text
  | _ => none

def countOf (item : Value) : Option Nat :=
  (numberOf reader item).bind fun number => if number.den = 1 ∧ 0 ≤ number.num then some number.num.toNat else none

end Reading

theorem digits_of_all (text : Text) (digits : (!text.isEmpty && text.all Char.isDigit) = true) :
    text ≠ [] ∧ ∀ digit ∈ text, digit.isDigit = true := by
  rw [Bool.and_eq_true, Bool.not_eq_true', List.isEmpty_eq_false_iff, List.all_eq_true] at digits
  exact digits

def counterOf : Value → Option Counter
  | .str text =>
      if digits : (!text.isEmpty && text.all Char.isDigit) = true then
        some ⟨text, (digits_of_all text digits).1, (digits_of_all text digits).2⟩
      else none
  | _ => none

def field (key : Text) : Value → Option Value
  | .dict members => lookup key (ofPairs members)
  | _ => none

def itemsOf {β : Type} (read : Value → Option β) : Value → Option (List β)
  | .list items => items.mapM read
  | _ => none

section Parsing

variable (reader : NumberReader)

def seriesOf {β : Type} (read : Value → Option β) (item : Value) : Option (Series β) := do
  let x ← (field "x".toList item).bind (itemsOf (countOf reader))
  let y ← (field "y".toList item).bind (itemsOf read)
  some ⟨x, y⟩

def resultOf (item : Value) : Option JsonData := do
  let cpuData ← (field "cpuData".toList item).bind (seriesOf reader (numberOf reader))
  let meanCpu ← (field "meanCpu".toList item).bind (numberOf reader)
  let cpuCores ← (field "cpuCores".toList item).bind (countOf reader)
  let memoryData ← (field "memoryData".toList item).bind (seriesOf reader (countOf reader))
  let meanMemory ← (field "meanMemory".toList item).bind (numberOf reader)
  let udpPacketsSent ← (field "udpPacketsSent".toList item).bind (seriesOf reader counterOf)
  let udpPacketsRcvd ← (field "udpPacketsRcvd".toList item).bind (seriesOf reader counterOf)
  let tcpPacketsSent ← (field "tcpPacketsSent".toList item).bind (seriesOf reader counterOf)
  let tcpPacketsRcvd ← (field "tcpPacketsRcvd".toList item).bind (seriesOf reader counterOf)
  some ⟨cpuData, meanCpu, cpuCores, memoryData, meanMemory, udpPacketsSent, udpPacketsRcvd, tcpPacketsSent, tcpPacketsRcvd⟩

-- JSON.parse(data[i]); an index past the end is undefined, on which it throws.
def parseResult (data : List Value) (index : Nat) : Option JsonData :=
  match data[index]? with
  | some (.str text) => (parse text).bind (resultOf reader)
  | _ => none

def parseData (data : List Value) : Option Results := do
  let result0 ← parseResult reader data 0
  let result1 ← parseResult reader data 1
  let result2 ← parseResult reader data 2
  let result3 ← parseResult reader data 3
  some ⟨result0, result1, result2, result3⟩

-- The success handler's argument is what jQuery parsed; none is the error
-- handler or an exception, after which nothing is plotted.
def parseResponse (text : Text) : Option Results :=
  match parse text with
  | some (.list data) => parseData reader data
  | _ => none

end Parsing

theorem count_natural (reader : NumberReader) (number : Nat) (safe : number ≤ 2 ^ 53) :
    countOf reader (.literal (natural number)) = some number := by
  rw [countOf, numberOf, reader.whole number safe, Option.bind_some, if_pos ⟨rfl, Int.natCast_nonneg number⟩]
  rfl

theorem counter_text (counter : Counter) : counterOf (.str counter.text) = some counter := by
  have digits : (!counter.text.isEmpty && counter.text.all Char.isDigit) = true := by
    rw [Bool.and_eq_true, Bool.not_eq_true', List.isEmpty_eq_false_iff, List.all_eq_true]
    exact ⟨counter.nonempty, counter.decimal⟩
  rw [counterOf, dif_pos digits]

theorem items_read {β : Type} (read : Value → Option β) (item : β → Value) (elements : List β)
    (inverse : ∀ element ∈ elements, read (item element) = some element) :
    itemsOf read (.list (elements.map item)) = some elements := by
  rw [itemsOf]
  induction elements with
  | nil => rfl
  | cons element rest ih =>
      obtain ⟨here, later⟩ := List.forall_mem_cons.mp inverse
      rw [List.map_cons, List.mapM_cons, here, ih later]
      rfl

section RoundTrip

variable (order : WalkOrder Text Value) (reader : NumberReader)

theorem field_arranged (members : List (Text × Value)) (distinct : Distinct members) (key : Text) :
    field key (.dict (order.arrange members)) = lookup key members :=
  lookup_arranged order members distinct key

theorem series_read {β : Type} (read : Value → Option β) (item : β → Value) (data : Series β)
    (safe : ∀ index ∈ data.x, index ≤ 2 ^ 53) (inverse : ∀ element ∈ data.y, read (item element) = some element) :
    seriesOf reader read (seriesValue order item data) = some data := by
  have x := items_read (countOf reader) (fun index => .literal (natural index)) data.x fun index member =>
    count_natural reader index (safe index member)
  have y := items_read read item data.y inverse
  have keys : ∀ x y : Value, Distinct [("x".toList, x), ("y".toList, y)] := fun _ _ =>
    show ["x".toList, "y".toList].Nodup by decide
  rw [seriesOf, seriesValue, field_arranged order _ (keys _ _), field_arranged order _ (keys _ _)]
  simp only [lookup, if_true]
  rw [if_neg (by decide), Option.bind_some, Option.bind_some, x, y]
  rfl

theorem counter_series_read (data : Series Counter) (safe : ∀ index ∈ data.x, index ≤ 2 ^ 53) :
    seriesOf reader counterOf (counterSeries order data) = some data :=
  series_read order reader counterOf _ data safe fun counter _ => counter_text counter

theorem json_keys_distinct (floatRepr : ℚ → Literal) (data : JsonData) : Distinct (jsonMembers order floatRepr data) :=
  show ["cpuData".toList, "meanCpu".toList, "cpuCores".toList, "memoryData".toList, "meanMemory".toList,
    "udpPacketsSent".toList, "udpPacketsRcvd".toList, "tcpPacketsSent".toList, "tcpPacketsRcvd".toList].Nodup by decide

-- Every number of the data survives: the browser reads back what repr wrote, and
-- whole numbers are small enough to be exact.
structure Readable (floatRepr : ℚ → Literal) (data : JsonData) : Prop where
  roundTrip : ∀ number ∈ data.floats, reader.read (floatRepr number).text = some number
  safe : ∀ count ∈ data.counts, count ≤ 2 ^ 53

theorem result_read (floatRepr : ℚ → Literal) (data : JsonData) (readable : Readable reader floatRepr data) :
    resultOf reader (jsonValue order floatRepr data) = some data := by
  have find := field_arranged order (jsonMembers order floatRepr data) (json_keys_distinct order floatRepr data)
  have indices : ∀ x ∈ [data.cpuData.x, data.memoryData.x, data.udpPacketsSent.x, data.udpPacketsRcvd.x,
      data.tcpPacketsSent.x, data.tcpPacketsRcvd.x], ∀ index ∈ x, index ≤ 2 ^ 53 := by
    intro x listed index member
    apply readable.safe
    simp only [List.mem_cons, List.not_mem_nil, or_false] at listed
    rcases listed with rfl | rfl | rfl | rfl | rfl | rfl <;> simp [JsonData.counts, member]
  have cpuData : seriesOf reader (numberOf reader) (seriesValue order (fun cpu => .literal (floatRepr cpu)) data.cpuData) =
      some data.cpuData :=
    series_read order reader (numberOf reader) _ data.cpuData (indices _ (by simp)) fun cpu member =>
      readable.roundTrip cpu (by simp [JsonData.floats, member])
  have meanCpu : numberOf reader (.literal (floatRepr data.meanCpu)) = some data.meanCpu :=
    readable.roundTrip _ (by simp [JsonData.floats])
  have cpuCores := count_natural reader data.cpuCores (readable.safe _ (by simp [JsonData.counts]))
  have memoryData : seriesOf reader (countOf reader)
      (seriesValue order (fun memory => .literal (natural memory)) data.memoryData) = some data.memoryData :=
    series_read order reader (countOf reader) _ data.memoryData (indices _ (by simp)) fun memory member =>
      count_natural reader memory (readable.safe memory (by simp [JsonData.counts, member]))
  have meanMemory : numberOf reader (.literal (floatRepr data.meanMemory)) = some data.meanMemory :=
    readable.roundTrip _ (by simp [JsonData.floats])
  have udpPacketsSent := counter_series_read order reader data.udpPacketsSent (indices _ (by simp))
  have udpPacketsRcvd := counter_series_read order reader data.udpPacketsRcvd (indices _ (by simp))
  have tcpPacketsSent := counter_series_read order reader data.tcpPacketsSent (indices _ (by simp))
  have tcpPacketsRcvd := counter_series_read order reader data.tcpPacketsRcvd (indices _ (by simp))
  have members : ∀ key value, lookup key (jsonMembers order floatRepr data) = some value →
      field key (jsonValue order floatRepr data) = some value := fun key value found => (find key).trans found
  rw [resultOf, members "cpuData".toList _ rfl, members "meanCpu".toList _ rfl, members "cpuCores".toList _ rfl,
    members "memoryData".toList _ rfl, members "meanMemory".toList _ rfl, members "udpPacketsSent".toList _ rfl,
    members "udpPacketsRcvd".toList _ rfl, members "tcpPacketsSent".toList _ rfl, members "tcpPacketsRcvd".toList _ rfl]
  simp only [Option.bind_some, cpuData, meanCpu, cpuCores, memoryData, meanMemory, udpPacketsSent, udpPacketsRcvd,
    tcpPacketsSent, tcpPacketsRcvd]
  rfl

theorem series_standard {β : Type} (item : β → Value) (data : Series β)
    (good : ∀ element ∈ data.y, standard (item element) = true) : standard (seriesValue order item data) = true := by
  rw [seriesValue, standard, standard_members_all, (order.perm _).all_eq]
  have y : (data.y.map item).all standard = true := by
    rw [List.all_map, List.all_eq_true]
    exact good
  have x : (data.x.map fun index => Value.literal (natural index)).all standard = true := by
    rw [List.all_map, List.all_eq_true]
    exact fun index _ => natural_standard index
  rw [List.all_cons, List.all_cons, List.all_nil, standard, standard, standard_items_all, standard_items_all, x, y]
  rfl

theorem json_standard (floatRepr : ℚ → Literal) (data : JsonData)
    (numbers : ∀ number ∈ data.floats, standard (.literal (floatRepr number)) = true) :
    standard (jsonValue order floatRepr data) = true := by
  have cpuData : standard (seriesValue order (fun cpu => .literal (floatRepr cpu)) data.cpuData) = true :=
    series_standard order _ data.cpuData fun cpu member => numbers cpu (by simp [JsonData.floats, member])
  have memoryData : standard (seriesValue order (fun memory => .literal (natural memory)) data.memoryData) = true :=
    series_standard order _ data.memoryData fun memory _ => natural_standard memory
  have counters : ∀ data, standard (counterSeries order data) = true := fun data =>
    series_standard order _ data fun counter _ => by rw [standard]
  rw [jsonValue, standard, standard_members_all, (order.perm _).all_eq]
  simp [jsonMembers, cpuData, memoryData, counters, natural_standard, numbers data.meanCpu (by simp [JsonData.floats]),
    numbers data.meanMemory (by simp [JsonData.floats])]

-- A report of which only a part was written is no JSON text at all.
theorem report_cut_read (floatRepr : ℚ → Literal) (data : JsonData) (cut : Nat)
    (readable : Readable reader floatRepr data) :
    (parse ((reportText order floatRepr data).text.take cut)).bind (resultOf reader) =
      if (reportText order floatRepr data).text.length ≤ cut then some data else none := by
  have done := report_text_completed order floatRepr data
  have standards := json_standard order floatRepr data fun number member =>
    read_standard reader _ number (readable.roundTrip number member)
  rw [reportText, jsonValue] at done
  rw [parse, reportText, jsonValue, loads_cut, done]
  by_cases whole : (dump none 0 (.dict (order.arrange (jsonMembers order floatRepr data)))).text.length ≤ cut
  · rw [if_pos ⟨rfl, whole⟩, if_pos whole, ← jsonValue, Option.filter_some, if_pos standards, Option.bind_some,
      result_read order reader floatRepr data readable]
  · rw [if_neg (fun both => whole both.2), if_neg whole]
    rfl

theorem report_read (floatRepr : ℚ → Literal) (data : JsonData) (readable : Readable reader floatRepr data) :
    (parse (reportText order floatRepr data).text).bind (resultOf reader) = some data := by
  have cut := report_cut_read order reader floatRepr data (reportText order floatRepr data).text.length readable
  rwa [List.take_length, if_pos (Nat.le_refl _)] at cut

end RoundTrip

theorem response_parsed (contents : List Text) : parse (responseText contents) = some (.list (contents.map .str)) := by
  have standards : standard (.list (contents.map .str)) = true := by
    rw [standard, standard_items_all, List.all_map, List.all_eq_true]
    intro text _
    rw [Function.comp_apply, standard]
  rw [parse, response_loads, Option.filter_some, if_pos standards]

theorem parse_results (reader : NumberReader) (content : Nat → Text) :
    parseResponse reader (responseText ([1, 2, 3, 4].map content)) =
      ((parse (content 1)).bind (resultOf reader)).bind fun result0 =>
        ((parse (content 2)).bind (resultOf reader)).bind fun result1 =>
          ((parse (content 3)).bind (resultOf reader)).bind fun result2 =>
            ((parse (content 4)).bind (resultOf reader)).bind fun result3 =>
              some ⟨result0, result1, result2, result3⟩ := by
  rw [parseResponse, response_parsed]
  simp only [parseData, parseResult, List.map_cons, List.map_nil, List.getElem?_cons_zero, List.getElem?_cons_succ]
  rfl

-- All or nothing: the browser has the four reports as the agents computed them,
-- or the handler ends with an exception before anything is plotted.
theorem reports_delivered_iff_whole (order : WalkOrder Text Value) (floatRepr : ℚ → Literal) (reader : NumberReader)
    (numCores : Nat) (server : ServerState) (request : Request) (outcome : Outcome) (data : Nat → JsonData)
    (cut : Nat → Nat) (tabled : numCores = 1 ∨ numCores = 4 ∨ numCores = 8) (normal : request.debugMode = false)
    (launched : launchable request = true) (completed : exitStatus (handlerWords server.cacheFile request) outcome = 0)
    (clean : ∀ file ∈ server.directory.files, plotMatch file.name = false)
    (copied : ∀ runId ∈ [1, 2, 3, 4],
      outcome.copied runId = some ((reportText order floatRepr (data runId)).text.take (cut runId)))
    (readable : ∀ runId ∈ [1, 2, 3, 4], Readable reader floatRepr (data runId)) :
    (answerText numCores server (request, outcome)).bind (parseResponse reader) =
      if [1, 2, 3, 4].all fun runId => (reportText order floatRepr (data runId)).text.length ≤ cut runId then
        some ⟨data 1, data 2, data 3, data 4⟩
      else none := by
  have read := fun runId member => report_cut_read order reader floatRepr (data runId) (cut runId) (readable runId member)
  rw [answer_of_runs numCores server request outcome _ tabled normal launched completed clean copied, Option.bind_some,
    parse_results, read 1 (by simp), read 2 (by simp), read 3 (by simp), read 4 (by simp)]
  simp only [List.all_cons, List.all_nil, Bool.and_true]
  by_cases first : (reportText order floatRepr (data 1)).text.length ≤ cut 1
  · by_cases second : (reportText order floatRepr (data 2)).text.length ≤ cut 2
    · by_cases third : (reportText order floatRepr (data 3)).text.length ≤ cut 3
      · by_cases fourth : (reportText order floatRepr (data 4)).text.length ≤ cut 4 <;>
          simp [first, second, third, fourth]
      · simp [first, second, third]
    · simp [first, second]
  · simp [first]

def insertionOrder : WalkOrder Text Value := ⟨id, fun dict => .refl dict⟩

-- Some floats as Python writes them, and a browser that reads them back: a third
-- has no finite decimal, so its text says only which float it is.
def printedFloats : List (ℚ × Text) :=
  [(20, "20.0".toList), (30, "30.0".toList), (40, "40.0".toList), (50, "50.0".toList), (60, "60.0".toList),
    (98, "98.0".toList), (100, "100.0".toList), (298 / 3, "99.33333333333333".toList),
    (160 / 3, "53.333333333333336".toList), (100 / 3, "33.333333333333336".toList),
    (80 / 3, "26.666666666666668".toList), (4194304, "4194304.0".toList)]

theorem printed_texts : ∀ entry ∈ printedFloats,
    isLiteral entry.2 = true ∧ isNumber entry.2 = true ∧ entry.2.all Char.isDigit = false := by
  decide

def printedRepr (number : ℚ) : Literal :=
  match found : printedFloats.find? fun entry => entry.1 = number with
  | some entry => ⟨entry.2, (printed_texts entry (List.mem_of_find?_eq_some found)).1⟩
  | none => natural 0

def printedReader : NumberReader where
  read text := ((printedFloats.find? fun entry => entry.2 = text).map Prod.fst).or (exactReader.read text)
  number := by
    intro text value read
    cases found : printedFloats.find? fun entry => entry.2 = text with
    | none =>
        rw [found] at read
        exact exactReader.number text value read
    | some entry =>
        have same : entry.2 = text := by simpa using List.find?_some found
        exact same ▸ (printed_texts entry (List.mem_of_find?_eq_some found)).2.1
  whole := by
    intro count safe
    have missing : (printedFloats.find? fun entry => entry.2 = (natural count).text) = none := by
      rw [List.find?_eq_none]
      intro entry member same
      have notDigits := (printed_texts entry member).2.2
      rw [of_decide_eq_true same, natural, List.all_eq_true.mpr (to_digits_digit count)] at notDigits
      cases notDigits
    rw [missing]
    exact exactReader.whole count safe

theorem printed_round_trip :
    ∀ number ∈ printedFloats.map Prod.fst, printedReader.read (printedRepr number).text = some number := by
  decide +kernel

def cpuLoads : Nat → List ℚ
  | 1 => [98, 100, 100]
  | 2 => [60, 50, 50]
  | 3 => [30, 30, 40]
  | _ => [20, 30, 30]

def loadedData (runId : Nat) : JsonData :=
  let packets : Series Counter := ⟨[0, 1, 2], [fivePackets, fivePackets, ninePackets]⟩
  ⟨⟨[0, 1, 2], cpuLoads runId⟩, (cpuLoads runId).sum / 3, runId, ⟨[0, 1, 2], [4194304, 4194304, 4194304]⟩, 4194304,
    packets, packets, packets, packets⟩

theorem loaded_readable (runId : Nat) (member : runId ∈ [1, 2, 3, 4]) :
    Readable printedReader printedRepr (loadedData runId) := by
  have printed : ∀ runId ∈ [1, 2, 3, 4], ∀ number ∈ (loadedData runId).floats, number ∈ printedFloats.map Prod.fst := by
    decide +kernel
  have safe : ∀ runId ∈ [1, 2, 3, 4], ∀ count ∈ (loadedData runId).counts, count ≤ 2 ^ 53 := by decide
  exact ⟨fun number float => printed_round_trip number (printed runId member number float), safe runId member⟩

def loadedReport (runId : Nat) : Text := (reportText insertionOrder printedRepr (loadedData runId)).text

def copiedRuns (cut : Nat → Nat) : Outcome := ⟨true, fun runId => some ((loadedReport runId).take (cut runId)), 0⟩

-- docker cp takes the whole file of each run, or only half of the third.
def wholeFiles (runId : Nat) : Nat := (loadedReport runId).length
def thirdHalved (runId : Nat) : Nat := if runId = 3 then wholeFiles 3 / 2 else wholeFiles runId

theorem loaded_reports_delivered :
    (answerText 4 emptyServer (plainRequest, copiedRuns wholeFiles)).bind (parseResponse printedReader) =
        some ⟨loadedData 1, loadedData 2, loadedData 3, loadedData 4⟩ ∧
      (answerText 4 emptyServer (plainRequest, copiedRuns thirdHalved)).bind (parseResponse printedReader) = none := by
  have delivered : ∀ cut : Nat → Nat,
      (answerText 4 emptyServer (plainRequest, copiedRuns cut)).bind (parseResponse printedReader) =
        if [1, 2, 3, 4].all fun runId => wholeFiles runId ≤ cut runId then
          some ⟨loadedData 1, loadedData 2, loadedData 3, loadedData 4⟩
        else none := fun cut =>
    reports_delivered_iff_whole insertionOrder printedRepr printedReader 4 emptyServer plainRequest (copiedRuns cut)
      loadedData cut (by decide) rfl (by decide) rfl (by decide) (fun _ _ => rfl) loaded_readable
  have written : ¬ wholeFiles 3 ≤ wholeFiles 3 / 2 := by decide +kernel
  rw [delivered, delivered, if_pos (by simp), if_neg (by simp [thirdHalved, written])]
  exact ⟨rfl, rfl⟩

end AppFit.Browser
