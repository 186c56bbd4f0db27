import AppFit.Agent.Report
import AppFit.Lib.Dict
import AppFit.Lib.JsonNumber
import AppFit.Lib.JsonRoundTrip

/- temp-plot.html, the file ComputePerformanceReport leaves: json.dump of the
   report's data. A rational stands for the float that Python computes in its place,
   and how this float is written is up to Python's repr. -/
set_option autoImplicit false

namespace AppFit.Agent

open AppFit.Shell AppFit.JsonText AppFit.Dict

section Text

variable (order : WalkOrder Text Value) (floatRepr : ℚ → Literal)

def seriesValue {β : Type} (item : β → Value) (data : Series β) : Value :=
  .dict (order.arrange
    [("x".toList, .list (data.x.map fun index => .literal (natural index))), ("y".toList, .list (data.y.map item))])

def counterSeries (data : Series Counter) : Value := seriesValue order (fun counter => .str counter.text) data

def jsonMembers (data : JsonData) : List (Text × Value) :=
  [("cpuData".toList, seriesValue order (fun cpu => .literal (floatRepr cpu)) data.cpuData),
    ("meanCpu".toList, .literal (floatRepr data.meanCpu)),
    ("cpuCores".toList, .literal (natural data.cpuCores)),
    ("memoryData".toList, seriesValue order (fun memory => .literal (natural memory)) data.memoryData),
    ("meanMemory".toList, .literal (floatRepr data.meanMemory)),
    ("udpPacketsSent".toList, counterSeries order data.udpPacketsSent),
    ("udpPacketsRcvd".toList, counterSeries order data.udpPacketsRcvd),
    ("tcpPacketsSent".toList, counterSeries order data.tcpPacketsSent),
    ("tcpPacketsRcvd".toList, counterSeries order data.tcpPacketsRcvd)]

def jsonValue (data : JsonData) : Value := .dict (order.arrange (jsonMembers order floatRepr data))

def reportText (data : JsonData) : Written := dump none 0 (jsonValue order floatRepr data)

end Text

def JsonData.floats (data : JsonData) : List ℚ := data.meanCpu :: data.meanMemory :: data.cpuData.y

def JsonData.counts (data : JsonData) : List Nat :=
  data.cpuCores :: data.memoryData.y ++ (data.cpuData.x ++ data.memoryData.x ++ data.udpPacketsSent.x ++
    data.udpPacketsRcvd.x ++ data.tcpPacketsSent.x ++ data.tcpPacketsRcvd.x)

theorem series_encodable {β : Type} (order : WalkOrder Text Value) (item : β → Value) (data : Series β)
    (good : ∀ element, encodable (item element) = true) : encodable (seriesValue order item data) = true := by
  rw [seriesValue, encodable, encodable_members_all, (order.perm _).all_eq]
  simp [encodable, encodable_items_all, good]

theorem json_encodable (order : WalkOrder Text Value) (floatRepr : ℚ → Literal) (data : JsonData) :
    encodable (jsonValue order floatRepr data) = true := by
  have literals : ∀ write : ℚ → Literal, ∀ data : Series ℚ,
      encodable (seriesValue order (fun number => .literal (write number)) data) = true :=
    fun _ data => series_encodable order _ data fun _ => by rw [encodable]
  have naturals : ∀ data : Series Nat, encodable (seriesValue order (fun number => .literal (natural number)) data) = true :=
    fun data => series_encodable order _ data fun _ => by rw [encodable]
  have counters : ∀ data : Series Counter, encodable (counterSeries order data) = true :=
    fun data => series_encodable order _ data fun _ => by rw [encodable]
  rw [jsonValue, encodable, encodable_members_all, (order.perm _).all_eq]
  simp [jsonMembers, encodable, literals, naturals, counters]

theorem report_text_completed (order : WalkOrder Text Value) (floatRepr : ℚ → Literal) (data : JsonData) :
    (reportText order floatRepr data).completed = true := by
  rw [reportText, dump_completed, json_encodable]

end AppFit.Agent
