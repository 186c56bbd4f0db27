import AppFit.Browser.Requests
import AppFit.Browser.Response
import AppFit.Browser.Shown
import AppFit.Server.Service

/- The page and the server with its disk as one system, beside other clients of the
   same server: what the page draws is the server's answer to a request that a
   submission of this page asked for. -/
set_option autoImplicit false

namespace AppFit.Browser

open AppFit.Shell AppFit.Runs AppFit.JsonText AppFit.Server AppFit.Server.CacheText

-- replies are on their way back, one for each instance in awaiting.
structure World where
  session : Session
  host : Host
  replies : List Reply

-- Everything in the browser except for the arrival of what the server answers.
def SessionEvent.isLocal : SessionEvent → Bool
  | .tabClick _ => true
  | .submit => true
  | event => event.edits

inductive WorldEvent where
  | user (event : SessionEvent)
  | uploadHandled (index : Nat) (content : Text) (members : List Member) (tarFailed : Option Nat)
  | analyticsHandled (index : Nat) (outcome : Outcome)
  | replyArrives (index : Nat)
  | replyLost (index : Nat)
  | otherClient (call : Call)

-- The form data hold the first of the files; without one there is no file part.
def uploadedArchive (files : FileList) (content : Text) (members : List Member) (tarFailed : Option Nat) :
    Option Archive :=
  files.head?.map fun file => ⟨file.name, content, members, tarFailed⟩

-- The request that the server handles in this event.
def callOf (session : Session) : WorldEvent → Option Call
  | .uploadHandled index content members tarFailed =>
      session.uploads[index]?.map fun entry => .upload (uploadedArchive entry.2 content members tarFailed)
  | .analyticsHandled index outcome => session.analytics[index]?.map fun entry => .analytics entry.2 outcome
  | .otherClient call => some call
  | _ => none

def accepts : Reply → Bool
  | .error => false
  | _ => true

-- An error page, and a body that cannot be read, end in no results.
def received (reader : NumberReader) (index : Nat) : Reply → SessionEvent
  | .page body =>
      match parseResponse reader body with
      | some results => .responseArrives index results
      | none => .responseUnusable index
  | _ => .responseUnusable index

-- What other clients do to the server's cache and files.
def elsewhere (session : Session) (reply : Reply) : Call → Session
  | .analytics request _ => { session with cacheFile := nextCache session.cacheFile request }
  | .upload (some archive) =>
      if accepts reply then { session with completed := archive.filename :: session.completed } else session
  | _ => session

section Steps

variable (reader : NumberReader) (numCores : Nat) (order : DictOrder) (names : SecureFilename)

def pageEvent (world : World) : WorldEvent → Option SessionEvent
  | .user event => if event.isLocal then some event else none
  | .uploadHandled index content members tarFailed =>
      world.session.uploads[index]?.map fun entry =>
        .uploadAnswered index (accepts (respond numCores order names world.host
          (.upload (uploadedArchive entry.2 content members tarFailed))).2)
  | .analyticsHandled index _ => world.session.analytics[index]?.map fun _ => .analyticsHandled index
  | .replyArrives index => world.replies[index]?.map (received reader index)
  | .replyLost index => world.replies[index]?.map fun _ => .responseUnusable index
  | .otherClient _ => none

def nextSession (world : World) (event : WorldEvent) : Session :=
  match pageEvent reader numCores order names world event, event with
  | some seen, _ => sessionStep world.session seen
  | none, .otherClient call => elsewhere world.session (respond numCores order names world.host call).2 call
  | none, _ => world.session

def nextReplies (world : World) : WorldEvent → List Reply
  | .analyticsHandled index outcome =>
      match world.session.analytics[index]? with
      | none => world.replies
      | some entry => world.replies ++ [(respond numCores order names world.host (.analytics entry.2 outcome)).2]
  | .replyArrives index => world.replies.eraseIdx index
  | .replyLost index => world.replies.eraseIdx index
  | _ => world.replies

def worldStep (world : World) (event : WorldEvent) : World :=
  { session := nextSession reader numCores order names world event
    host := (callOf world.session event).elim world.host (hostStep numCores order names world.host)
    replies := nextReplies numCores order names world event }

-- A request of this page, with what the server had handled before it.
structure Handled where
  inst : Nat
  request : Request
  outcome : Outcome
  earlier : List Call

structure History where
  log : Log
  calls : List Call
  handled : List Handled

def loggedBy (world : World) (log : Log) (event : WorldEvent) : Log :=
  match pageEvent reader numCores order names world event with
  | none => log
  | some seen => ⟨log.submissions ++ submissionOf world.session seen, log.sent ++ emitted world.session seen⟩

def handledBy (world : World) (calls : List Call) : WorldEvent → List Handled
  | .analyticsHandled index outcome =>
      (world.session.analytics[index]?.map fun entry => ⟨entry.1, entry.2, outcome, calls⟩).toList
  | _ => []

-- The history is kept beside the system and changes nothing in it.
def recordedStep (state : World × History) (event : WorldEvent) : World × History :=
  (worldStep reader numCores order names state.1 event,
    { log := loggedBy reader numCores order names state.1 state.2.log event
      calls := state.2.calls ++ (callOf state.1.session event).toList
      handled := state.2.handled ++ handledBy state.1 state.2.calls event })

def recordedRun (start : Host) (events : List WorldEvent) : World × History :=
  run (recordedStep reader numCores order names) (⟨startSession, start, []⟩, ⟨⟨[], []⟩, [], []⟩) events

end Steps

-- The arrival of an answer to an analytics request, or its handling.
def SessionEvent.answers : SessionEvent → Bool
  | .analyticsHandled _ => true
  | .responseArrives _ _ => true
  | .responseUnusable _ => true
  | _ => false

theorem did_mount_analytics (session : Session) (page : PageState) :
    ∃ new, (componentDidMount (mount session page) session.instances).analytics = session.analytics ++ new := by
  obtain ⟨sent, analytics, _⟩ | ⟨files, analytics, _⟩ := did_mount_requests session page
  · exact ⟨_, analytics⟩
  · exact ⟨[], by rw [analytics, List.append_nil]⟩

theorem upload_analytics (session : Session) (index : Nat) (accepted : Bool) :
    ∃ new, (answerUpload session index accepted).analytics = session.analytics ++ new := by
  rw [answerUpload]
  cases session.uploads[index]? with
  | none => exact ⟨[], (List.append_nil _).symm⟩
  | some entry =>
      simp only [handleUploadAnswer]
      split
      · rw [get_metrics_eq]
        exact ⟨_, rfl⟩
      · exact ⟨[], (List.append_nil _).symm⟩
      · rw [get_metrics_eq]
        exact ⟨_, rfl⟩

-- Requests are only added, no answer is taken, and the server does nothing.
structure Unanswered (session next : Session) : Prop where
  awaiting : next.awaiting = session.awaiting
  cacheFile : next.cacheFile = session.cacheFile
  analytics : ∃ new, next.analytics = session.analytics ++ new

theorem unanswered_same (session next : Session) (awaiting : next.awaiting = session.awaiting)
    (cacheFile : next.cacheFile = session.cacheFile) (analytics : next.analytics = session.analytics) :
    Unanswered session next :=
  ⟨awaiting, cacheFile, [], by rw [analytics, List.append_nil]⟩

theorem did_mount_unanswered (session : Session) (page : PageState) :
    Unanswered session (componentDidMount (mount session page) session.instances) := by
  obtain ⟨uploads, analytics, canvas, same⟩ := did_mount_frame (mount session page) session.instances
  have grown := did_mount_analytics session page
  rw [same] at grown ⊢
  exact ⟨rfl, rfl, grown⟩

theorem quiet_unanswered (session : Session) (event : SessionEvent) (quiet : event.answers = false) :
    Unanswered session (sessionStep session event) := by
  have edited (edits : event.edits = true) : Unanswered session (sessionStep session event) := by
    obtain ⟨form, appState, files, step, _⟩ := edit_step session event edits
    rw [step]
    exact unanswered_same _ _ rfl rfl rfl
  cases event with
  | tabClick tab =>
      by_cases same : tab = session.page.currentTab
      · subst same
        rw [tab_click_same]
        exact unanswered_same _ _ rfl rfl rfl
      · by_cases results : tab = .results
        · subst results
          rw [tab_click_mounts session (Ne.symm same)]
          exact did_mount_unanswered session _
        · obtain ⟨form, step⟩ := tab_click_leaves session tab same results
          rw [step]
          exact unanswered_same _ _ rfl rfl rfl
  | submit =>
      rw [submit_step]
      split
      · exact did_mount_unanswered session _
      · exact unanswered_same _ _ rfl rfl rfl
  | uploadAnswered index accepted =>
      obtain ⟨uploads, analytics, completed, step⟩ := upload_answer_frame session index accepted
      have grown := upload_analytics session index accepted
      rw [step] at grown
      rw [sessionStep, step]
      exact ⟨rfl, rfl, grown⟩
  | analyticsHandled index => cases quiet
  | responseArrives index results => cases quiet
  | responseUnusable index => cases quiet
  | _ => exact edited rfl

theorem local_quiet (event : SessionEvent) (isLocal : event.isLocal = true) : event.answers = false := by
  cases event with
  | uploadAnswered index accepted => rfl
  | analyticsHandled index => cases isLocal
  | responseArrives index results => cases isLocal
  | responseUnusable index => cases isLocal
  | _ => rfl

theorem unrecorded (session : Session) (event : SessionEvent) (unread : arrivedResults event = none) :
    (sessionStep session event).page.resultsState = session.page.resultsState := by
  obtain ⟨records, _⟩ | ⟨_, kept⟩ := stored_change session event
  · cases event with
    | responseArrives index results => cases unread
    | _ => exact records.elim
  · exact kept

theorem quiet_unread (event : SessionEvent) (quiet : event.answers = false) : arrivedResults event = none := by
  cases event with
  | responseArrives index results => cases quiet
  | _ => rfl

def cacheAfter (cacheFile : CacheFile) : Call → CacheFile
  | .analytics request _ => nextCache cacheFile request
  | _ => cacheFile

theorem elsewhere_frame (session : Session) (reply : Reply) (call : Call) :
    ∃ completed, elsewhere session reply call =
      { session with cacheFile := cacheAfter session.cacheFile call, completed := completed } := by
  cases call with
  | analytics request outcome => exact ⟨session.completed, rfl⟩
  | analyticsGet => exact ⟨session.completed, rfl⟩
  | fetchCache => exact ⟨session.completed, rfl⟩
  | upload archive =>
      cases archive with
      | none => exact ⟨session.completed, rfl⟩
      | some archive =>
          rw [elsewhere]
          split
          · exact ⟨_, rfl⟩
          · exact ⟨session.completed, rfl⟩

section Provenance

variable (reader : NumberReader) (numCores : Nat) (order : DictOrder) (names : SecureFilename) (start : Host)

-- The plain server of Service, after the calls.
def plainService (calls : List Call) : Service :=
  run (serviceStep numCores names) ⟨⟨.missing, start.images, start.directory, start.handled⟩, [], fun _ => none⟩ calls

theorem service_cache (calls : List Call) (call : Call) :
    (plainService numCores names start (calls ++ [call])).server.cacheFile =
      cacheAfter (plainService numCores names start calls).server.cacheFile call := by
  rw [plainService, run_append]
  change (serviceStep numCores names (plainService numCores names start calls) call).server.cacheFile = _
  cases call with
  | analytics request outcome => exact serve_cache numCores _ (request, outcome)
  | analyticsGet => rfl
  | fetchCache => rfl
  | upload archive => rfl

-- The reply is the server's to the one request of the instance.
def Answered (handled : List Handled) (inst : Nat) (reply : Reply) : Prop :=
  ∃ entry ∈ handled, entry.inst = inst ∧
    reply = (respond numCores order names (run (hostStep numCores order names) start entry.earlier)
      (.analytics entry.request entry.outcome)).2

structure Sound (world : World) (history : History) : Prop where
  requests : RequestsLogged world.session history.log
  canvas : CanvasStored world.session
  host : world.host = run (hostStep numCores order names) start history.calls
  sent : (history.handled.map (fun entry => (entry.inst, entry.request)) ++ world.session.analytics).Perm history.log.sent
  waiting : ∃ waiting : List (Nat × Reply), world.session.awaiting = waiting.map Prod.fst ∧
    world.replies = waiting.map Prod.snd ∧
    ∀ entry ∈ waiting, Answered numCores order names start history.handled entry.1 entry.2
  stored : ∀ results, world.session.page.resultsState = some results →
    ∃ inst body, Answered numCores order names start history.handled inst (.page body) ∧
      parseResponse reader body = some results
  earlier : ∀ entry ∈ history.handled, entry.earlier ++ [.analytics entry.request entry.outcome] <+: history.calls
  cache : world.session.cacheFile = (plainService numCores names start history.calls).server.cacheFile

def loggedEvent (session : Session) (log : Log) (seen : SessionEvent) : Log :=
  ⟨log.submissions ++ submissionOf session seen, log.sent ++ emitted session seen⟩

theorem logged_event (session : Session) (log : Log) (seen : SessionEvent) (logged : RequestsLogged session log) :
    RequestsLogged (sessionStep session seen) (loggedEvent session log seen) :=
  logged_change session _ log _ _ logged (mount_valid_step session seen logged.toMountValid)
    (request_change session seen logged.toMountValid)

theorem host_called (host : Host) (calls : List Call) (call : Option Call)
    (reached : host = run (hostStep numCores order names) start calls) :
    call.elim host (hostStep numCores order names host) =
      run (hostStep numCores order names) start (calls ++ call.toList) := by
  cases call with
  | none =>
      rw [Option.toList_none, List.append_nil]
      exact reached
  | some call =>
      rw [Option.toList_some, run_append, ← reached]
      rfl

-- The page does something that takes no answer; meanwhile the server may handle a call.
theorem sound_quiet (world : World) (history : History) (seen : SessionEvent) (call : Option Call)
    (sound : Sound reader numCores order names start world history) (quiet : seen.answers = false)
    (idle : ∀ given cacheFile, call = some given → cacheAfter cacheFile given = cacheFile) :
    Sound reader numCores order names start
      ⟨sessionStep world.session seen, call.elim world.host (hostStep numCores order names world.host), world.replies⟩
      ⟨loggedEvent world.session history.log seen, history.calls ++ call.toList, history.handled⟩ := by
  obtain ⟨awaiting, cacheFile, new, grown⟩ := quiet_unanswered world.session seen quiet
  obtain ⟨waiting, instances, replies, answered⟩ := sound.waiting
  refine
    { requests := logged_event world.session history.log seen sound.requests
      canvas := canvas_step world.session seen sound.canvas
      host := host_called numCores order names start world.host history.calls call sound.host
      sent := ?_
      waiting := ⟨waiting, by rw [awaiting, instances], replies, answered⟩
      stored := ?_
      earlier := fun entry member => (sound.earlier entry member).trans (List.prefix_append _ _)
      cache := ?_ }
  · dsimp only [loggedEvent]
    rw [grown, emitted_append world.session seen new grown, ← List.append_assoc]
    exact sound.sent.append_right new
  · intro results kept
    rw [unrecorded world.session seen (quiet_unread seen quiet)] at kept
    exact sound.stored results kept
  · rw [cacheFile, sound.cache]
    cases call with
    | none => rw [Option.toList_none, List.append_nil]
    | some given => rw [Option.toList_some, service_cache, idle given _ rfl]

theorem sound_elsewhere (world : World) (history : History) (reply : Reply) (call : Call)
    (sound : Sound reader numCores order names start world history) :
    Sound reader numCores order names start
      ⟨elsewhere world.session reply call, hostStep numCores order names world.host call, world.replies⟩
      ⟨history.log, history.calls ++ [call], history.handled⟩ := by
  obtain ⟨completed, same⟩ := elsewhere_frame world.session reply call
  have logged := sound.requests
  rw [same]
  exact
    { requests := ⟨⟨logged.shown, logged.fresh⟩, logged.numbered, logged.distinct, logged.current, logged.uploading,
        logged.uploadsOnce, logged.sentOnce, logged.matched⟩
      canvas := sound.canvas
      host := host_called numCores order names start world.host history.calls (some call) sound.host
      sent := sound.sent
      waiting := sound.waiting
      stored := sound.stored
      earlier := fun entry member => (sound.earlier entry member).trans (List.prefix_append _ _)
      cache := by rw [service_cache, ← sound.cache] }

theorem answered_more (handled more : List Handled) (inst : Nat) (reply : Reply)
    (answered : Answered numCores order names start handled inst reply) :
    Answered numCores order names start (handled ++ more) inst reply := by
  obtain ⟨entry, member, same, given⟩ := answered
  exact ⟨entry, List.mem_append_left more member, same, given⟩

-- The server handles a request of the page, and its reply is on its way.
theorem sound_handled (world : World) (history : History) (index inst : Nat) (request : Request) (outcome : Outcome)
    (found : world.session.analytics[index]? = some (inst, request))
    (sound : Sound reader numCores order names start world history) :
    Sound reader numCores order names start
      ⟨sessionStep world.session (.analyticsHandled index),
        hostStep numCores order names world.host (.analytics request outcome),
        world.replies ++ [(respond numCores order names world.host (.analytics request outcome)).2]⟩
      ⟨loggedEvent world.session history.log (.analyticsHandled index), history.calls ++ [.analytics request outcome],
        history.handled ++ [⟨inst, request, outcome, history.calls⟩]⟩ := by
  have step : sessionStep world.session (.analyticsHandled index) =
      { world.session with
        analytics := world.session.analytics.eraseIdx index
        awaiting := world.session.awaiting ++ [inst]
        cacheFile := nextCache world.session.cacheFile request } := by
    rw [sessionStep, handleAnalytics, found]
  have silent : emitted world.session (.analyticsHandled index) = [] :=
    emitted_fewer world.session _ (by rw [step]; exact List.length_eraseIdx_le _ _)
  obtain ⟨inside, here⟩ := List.getElem?_eq_some_iff.mp found
  have taken : ((inst, request) :: world.session.analytics.eraseIdx index).Perm world.session.analytics := by
    rw [← here]
    exact List.getElem_cons_eraseIdx_perm inside
  obtain ⟨waiting, instances, replies, answered⟩ := sound.waiting
  refine
    { requests := logged_event world.session history.log (.analyticsHandled index) sound.requests
      canvas := canvas_step world.session (.analyticsHandled index) sound.canvas
      host := host_called numCores order names start world.host history.calls (some _) sound.host
      sent := ?_
      waiting := ?_
      stored := ?_
      earlier := ?_
      cache := by rw [service_cache, ← sound.cache, step, cacheAfter] }
  · dsimp only [loggedEvent]
    rw [silent, List.append_nil, step, List.map_append, List.map_singleton, List.append_assoc]
    exact (taken.append_left _).trans sound.sent
  · refine ⟨waiting ++ [(inst, (respond numCores order names world.host (.analytics request outcome)).2)], ?_, ?_, ?_⟩
    · rw [step, List.map_append, instances]
      rfl
    · rw [List.map_append, replies]
      rfl
    · intro entry member
      rcases List.mem_append.mp member with old | new
      · exact answered_more numCores order names start _ _ _ _ (answered entry old)
      · cases List.mem_singleton.mp new
        refine ⟨⟨inst, request, outcome, history.calls⟩, List.mem_append_right _ (List.mem_singleton_self _), rfl, ?_⟩
        rw [sound.host]
  · intro results kept
    rw [unrecorded world.session _ rfl] at kept
    obtain ⟨other, body, given, read⟩ := sound.stored results kept
    exact ⟨other, body, answered_more numCores order names start _ _ _ _ given, read⟩
  · intro entry member
    rcases List.mem_append.mp member with old | new
    · exact (sound.earlier entry old).trans (List.prefix_append _ _)
    · cases List.mem_singleton.mp new
      exact List.prefix_refl _

theorem handle_response_frame (session : Session) (inst : Nat) (results : Results) :
    (handleResponse session inst results).awaiting = session.awaiting := by
  rw [handleResponse]
  cases plotData (session.mounted == some inst) results with
  | none => rfl
  | some plot =>
      have step := render_same { session with canvas := some plot } (session.page.flush [.resultsState results]) rfl
      dsimp only
      rw [step]

theorem taken_awaiting (session : Session) (index : Nat) (results : Results) :
    (sessionStep session (.responseArrives index results)).awaiting = session.awaiting.eraseIdx index := by
  rw [sessionStep, deliverResponse]
  cases awaited : session.awaiting[index]? with
  | none => exact (List.eraseIdx_of_length_le (List.getElem?_eq_none_iff.mp awaited)).symm
  | some inst => exact handle_response_frame { session with awaiting := session.awaiting.eraseIdx index } inst results

theorem erased_pairs (waiting : List (Nat × Reply)) (index : Nat) (awaiting : List Nat) (replies : List Reply)
    (instances : awaiting = waiting.map Prod.fst) (sent : replies = waiting.map Prod.snd) :
    awaiting.eraseIdx index = (waiting.eraseIdx index).map Prod.fst ∧
      replies.eraseIdx index = (waiting.eraseIdx index).map Prod.snd := by
  rw [instances, sent, List.eraseIdx_map, List.eraseIdx_map]
  exact ⟨rfl, rfl⟩

-- The page takes a reply, or hears that there will be none.
theorem sound_taken (world : World) (history : History) (index : Nat) (seen : SessionEvent)
    (sound : Sound reader numCores order names start world history)
    (awaiting : (sessionStep world.session seen).awaiting = world.session.awaiting.eraseIdx index)
    (analytics : (sessionStep world.session seen).analytics = world.session.analytics)
    (cacheFile : (sessionStep world.session seen).cacheFile = world.session.cacheFile)
    (stored : ∀ results, (sessionStep world.session seen).page.resultsState = some results →
      ∃ inst body, Answered numCores order names start history.handled inst (.page body) ∧
        parseResponse reader body = some results) :
    Sound reader numCores order names start ⟨sessionStep world.session seen, world.host, world.replies.eraseIdx index⟩
      ⟨loggedEvent world.session history.log seen, history.calls, history.handled⟩ := by
  obtain ⟨waiting, instances, replies, answered⟩ := sound.waiting
  obtain ⟨fewer, less⟩ := erased_pairs waiting index _ _ instances replies
  refine
    { requests := logged_event world.session history.log seen sound.requests
      canvas := canvas_step world.session seen sound.canvas
      host := sound.host
      sent := ?_
      waiting := ⟨waiting.eraseIdx index, by rw [awaiting, fewer], less, fun entry member =>
        answered entry (List.mem_of_mem_eraseIdx member)⟩
      stored := stored
      earlier := sound.earlier
      cache := by rw [cacheFile, sound.cache] }
  dsimp only [loggedEvent]
  rw [emitted_fewer world.session seen (by rw [analytics]), List.append_nil, analytics]
  exact sound.sent

theorem sound_lost (world : World) (history : History) (index : Nat)
    (sound : Sound reader numCores order names start world history) :
    Sound reader numCores order names start
      ⟨sessionStep world.session (.responseUnusable index), world.host, world.replies.eraseIdx index⟩
      ⟨loggedEvent world.session history.log (.responseUnusable index), history.calls, history.handled⟩ :=
  sound_taken reader numCores order names start world history index _ sound rfl rfl rfl sound.stored

theorem sound_arrived (world : World) (history : History) (index : Nat) (body : Text) (results : Results)
    (sound : Sound reader numCores order names start world history) (found : world.replies[index]? = some (.page body))
    (read : parseResponse reader body = some results) :
    Sound reader numCores order names start
      ⟨sessionStep world.session (.responseArrives index results), world.host, world.replies.eraseIdx index⟩
      ⟨loggedEvent world.session history.log (.responseArrives index results), history.calls, history.handled⟩ := by
  have awaiting := taken_awaiting world.session index results
  obtain ⟨_, _, _, step⟩ := response_frame world.session index results
  refine sound_taken reader numCores order names start world history index _ sound awaiting (by rw [sessionStep, step])
    (by rw [sessionStep, step]) ?_
  intro other kept
  obtain ⟨records, arrived⟩ | ⟨_, same⟩ := stored_change world.session (.responseArrives index results)
  · rw [arrived] at kept
    cases kept
    obtain ⟨waiting, _, replies, answered⟩ := sound.waiting
    rw [replies, List.getElem?_map] at found
    obtain ⟨entry, here, page⟩ := Option.map_eq_some_iff.mp found
    exact ⟨entry.1, body, page ▸ answered entry (List.mem_of_getElem? here), read⟩
  · rw [same] at kept
    exact sound.stored other kept

theorem sound_step (state : World × History) (event : WorldEvent)
    (sound : Sound reader numCores order names start state.1 state.2) :
    Sound reader numCores order names start (recordedStep reader numCores order names state event).1
      (recordedStep reader numCores order names state event).2 := by
  obtain ⟨world, history⟩ := state
  cases event with
  | user event =>
      simp only [recordedStep, worldStep, nextSession, nextReplies, loggedBy, pageEvent, callOf, handledBy, List.append_nil]
      cases isLocal : event.isLocal with
      | true =>
          refine sound_quiet reader numCores order names start world history event none sound (local_quiet event isLocal) ?_
          intro given cacheFile none
          cases none
      | false =>
          rw [Option.toList_none, List.append_nil]
          exact sound
  | uploadHandled index content members tarFailed =>
      simp only [recordedStep, worldStep, nextSession, nextReplies, loggedBy, pageEvent, callOf, handledBy, List.append_nil]
      cases world.session.uploads[index]? with
      | none =>
          simp only [Option.map_none, Option.toList_none, List.append_nil]
          exact sound
      | some entry =>
          refine sound_quiet reader numCores order names start world history _ (some _) sound rfl ?_
          intro given cacheFile same
          cases same
          rfl
  | analyticsHandled index outcome =>
      simp only [recordedStep, worldStep, nextSession, nextReplies, loggedBy, pageEvent, callOf, handledBy]
      cases found : world.session.analytics[index]? with
      | none =>
          simp only [Option.map_none, Option.toList_none, List.append_nil]
          exact sound
      | some entry =>
          exact sound_handled reader numCores order names start world history index entry.1 entry.2 outcome found sound
  | replyArrives index =>
      simp only [recordedStep, worldStep, nextSession, nextReplies, loggedBy, pageEvent, callOf, handledBy, List.append_nil,
        Option.toList_none]
      cases found : world.replies[index]? with
      | none =>
          rw [List.eraseIdx_of_length_le (List.getElem?_eq_none_iff.mp found)]
          exact sound
      | some reply =>
          have lost := sound_lost reader numCores order names start world history index sound
          cases reply with
          | page body =>
              rw [Option.map_some, received]
              cases read : parseResponse reader body with
              | none => exact lost
              | some results =>
                  exact sound_arrived reader numCores order names start world history index body results sound found read
          | stored answer => exact lost
          | error => exact lost
  | replyLost index =>
      simp only [recordedStep, worldStep, nextSession, nextReplies, loggedBy, pageEvent, callOf, handledBy, List.append_nil,
        Option.toList_none]
      cases found : world.replies[index]? with
      | none =>
          rw [List.eraseIdx_of_length_le (List.getElem?_eq_none_iff.mp found)]
          exact sound
      | some reply => exact sound_lost reader numCores order names start world history index sound
  | otherClient call =>
      simp only [recordedStep, worldStep, nextSession, nextReplies, loggedBy, pageEvent, callOf, handledBy, List.append_nil]
      exact sound_elsewhere reader numCores order names start world history _ call sound

theorem sound_start : Sound reader numCores order names start ⟨startSession, start, []⟩ ⟨⟨[], []⟩, [], []⟩ := by
  refine
    { requests := logged_start
      canvas := ?_
      host := rfl
      sent := .refl _
      waiting := ⟨[], rfl, rfl, ?_⟩
      stored := ?_
      earlier := ?_
      cache := rfl }
  · intro plot shown
    cases shown
  · intro entry member
    cases member
  · intro results kept
    cases kept
  · intro entry member
    cases member

theorem sound_run (events : List WorldEvent) :
    Sound reader numCores order names start (recordedRun reader numCores order names start events).1
      (recordedRun reader numCores order names start events).2 :=
  run_invariant (recordedStep reader numCores order names)
    (fun state => Sound reader numCores order names start state.1 state.2) _ events
    (sound_start reader numCores order names start) (sound_step reader numCores order names start)

theorem handled_sent (world : World) (history : History) (sound : Sound reader numCores order names start world history)
    (entry : Handled) (member : entry ∈ history.handled) : (entry.inst, entry.request) ∈ history.log.sent :=
  sound.sent.subset (List.mem_append_left _ (List.mem_map.mpr ⟨entry, member, rfl⟩))

theorem handled_once (world : World) (history : History) (sound : Sound reader numCores order names start world history) :
    (history.handled.map Handled.inst).Nodup := by
  have distinct := (sound.sent.map Prod.fst).nodup_iff.mpr sound.requests.sentOnce
  rw [List.map_append, List.map_map] at distinct
  exact (List.nodup_append.mp distinct).1

section Plain

variable (keeps : KeepsExtension names) (absent : start.fs uploadFolder = none)
  (unbuilt : ∀ image, start.sources image = none)

include keeps absent unbuilt in
theorem answered_plain (earlier : List Call) (request : Request) (outcome : Outcome) :
    (respond numCores order names (run (hostStep numCores order names) start earlier) (.analytics request outcome)).2 =
      pageReply (answerText numCores (plainService numCores names start earlier).server (request, outcome)) :=
  reply_agrees numCores order names _ _ (.analytics request outcome)
    (host_refines numCores order names keeps start absent unbuilt earlier)

theorem page_reply_body (answer : Option Text) (body : Text) (replied : Reply.page body = pageReply answer) :
    answer = some body := by
  cases answer with
  | none => cases replied
  | some text =>
      cases replied
      rfl

include keeps absent unbuilt in
-- What is drawn is the server's answer to a request that this page's submission
-- asked for, each submission is analysed once at most, and the cache that the
-- session knows is the one on the server's disk.
theorem shown_plot_from_submission (events : List WorldEvent) :
    let reached := recordedRun reader numCores order names start events
    (∀ plot, reached.1.session.canvas = some plot → ∃ entry ∈ reached.2.handled, ∃ body results,
        answerText numCores (plainService numCores names start entry.earlier).server (entry.request, entry.outcome) =
          some body ∧
        parseResponse reader body = some results ∧ plotData true results = some plot) ∧
      (∀ entry ∈ reached.2.handled, (entry.inst, some entry.request) ∈ reached.2.log.submissions ∧
        entry.earlier ++ [.analytics entry.request entry.outcome] <+: reached.2.calls) ∧
      (reached.2.handled.map Handled.inst).Nodup ∧ Stores reached.1.host.fs reached.1.session.cacheFile := by
  intro reached
  have sound := sound_run reader numCores order names start events
  refine ⟨?_, ?_, handled_once reader numCores order names start _ _ sound, ?_⟩
  · intro plot shown
    obtain ⟨results, kept, drawn⟩ := sound.canvas plot shown
    obtain ⟨inst, body, ⟨entry, member, _, replied⟩, read⟩ := sound.stored results kept
    rw [answered_plain numCores order names start keeps absent unbuilt] at replied
    exact ⟨entry, member, body, results, page_reply_body _ _ replied, read, drawn⟩
  · intro entry member
    exact ⟨sound.requests.matched _ _ (handled_sent reader numCores order names start _ _ sound entry member),
      sound.earlier entry member⟩
  · have refined := host_refines numCores order names keeps start absent unbuilt reached.2.calls
    rw [sound.host, sound.cache]
    exact refined.cache

end Plain

end Provenance

theorem response_drawn (session : Session) (index inst : Nat) (results : Results) (plot : Plot)
    (awaited : session.awaiting[index]? = some inst)
    (plotted : plotData (session.mounted == some inst) results = some plot) :
    (sessionStep session (.responseArrives index results)).canvas = some plot := by
  have step := render_same { session with awaiting := session.awaiting.eraseIdx index, canvas := some plot }
    (session.page.flush [.resultsState results]) rfl
  rw [sessionStep, deliverResponse, awaited]
  dsimp only
  rw [handleResponse, plotted]
  dsimp only
  rw [step]

def loadedResults : Results := ⟨loadedData 1, loadedData 2, loadedData 3, loadedData 4⟩

def loadedRequest : Request := ⟨"app.tar.gz".toList, "./serve".toList, "./load".toList, true, false⟩

def loadedRuns : Outcome := ⟨true, fun runId => some (loadedReport runId), 0⟩

-- The cache box stays checked, so nothing is uploaded; meanwhile someone else asks for the cache.
def loadedSubmission : List WorldEvent :=
  [.user (.appCommandChange "./serve".toList), .user (.testCommandChange "./load".toList), .user chosenPackage,
    .user .submit, .otherClient .fetchCache, .analyticsHandled 0 loadedRuns]

theorem loaded_replies : (recordedRun printedReader 4 asListed asciiNames freshHost loadedSubmission).1.replies =
    [(respond 4 asListed asciiNames (run (hostStep 4 asListed asciiNames) freshHost [.fetchCache])
      (.analytics loadedRequest loadedRuns)).2] := rfl

theorem loaded_answer_read : ∃ body,
    (respond 4 asListed asciiNames (run (hostStep 4 asListed asciiNames) freshHost [.fetchCache])
      (.analytics loadedRequest loadedRuns)).2 = .page body ∧
    parseResponse printedReader body = some loadedResults := by
  have plain := answered_plain 4 asListed asciiNames freshHost ascii_keeps_extension rfl (fun _ => rfl) [.fetchCache]
    loadedRequest loadedRuns
  rw [answer_of_runs 4 _ loadedRequest loadedRuns loadedReport (by decide) rfl (by decide) rfl (by decide)
    (fun _ _ => rfl)] at plain
  have read := fun runId member => report_read insertionOrder printedReader printedRepr (loadedData runId)
    (loaded_readable runId member)
  refine ⟨_, plain, ?_⟩
  simp only [parse_results, loadedReport, read 1 (by simp), read 2 (by simp), read 3 (by simp), read 4 (by simp),
    Option.bind_some]
  rfl

theorem loaded_canvas (plot : Plot) (drawn : plotData true loadedResults = some plot) :
    (recordedRun printedReader 4 asListed asciiNames freshHost (loadedSubmission ++ [.replyArrives 0])).1.session.canvas =
      some plot := by
  obtain ⟨body, replied, read⟩ := loaded_answer_read
  have seen : pageEvent printedReader 4 asListed asciiNames
      (recordedRun printedReader 4 asListed asciiNames freshHost loadedSubmission).1 (.replyArrives 0) =
        some (.responseArrives 0 loadedResults) := by
    rw [pageEvent, loaded_replies, replied, List.getElem?_cons_zero, Option.map_some, received, read]
  rw [recordedRun, run_append]
  change (nextSession printedReader 4 asListed asciiNames
    (recordedRun printedReader 4 asListed asciiNames freshHost loadedSubmission).1 (.replyArrives 0)).canvas = _
  rw [nextSession.eq_def, seen]
  exact response_drawn _ 0 0 loadedResults plot rfl drawn

theorem loaded_plot_from_submission :
    let reached := recordedRun printedReader 4 asListed asciiNames freshHost (loadedSubmission ++ [.replyArrives 0])
    ∃ plot, reached.1.session.canvas = some plot ∧ plot.recommendation = ⟨2, 160 / 3, 4194304⟩ ∧
      ∃ entry ∈ reached.2.handled, ∃ body results,
        answerText 4 (plainService 4 asciiNames freshHost entry.earlier).server (entry.request, entry.outcome) =
          some body ∧
        parseResponse printedReader body = some results ∧ plotData true results = some plot := by
  intro reached
  have best : (plotData true loadedResults).map Plot.recommendation = some ⟨2, 160 / 3, 4194304⟩ := by decide +kernel
  obtain ⟨plot, drawn, recommended⟩ := Option.map_eq_some_iff.mp best
  have canvas : reached.1.session.canvas = some plot := loaded_canvas plot drawn
  exact ⟨plot, canvas, recommended, (shown_plot_from_submission printedReader 4 asListed asciiNames freshHost
    ascii_keeps_extension rfl (fun _ => rfl) (loadedSubmission ++ [.replyArrives 0])).1 plot canvas⟩

end AppFit.Browser
