import AppFit.Browser.PlotData
import AppFit.Lib.Shell

/- The state of the Page and AppForm components and their event handlers. React
   queues the setState calls of an event handler and applies them in order after
   it, so a handler is the list of updates it queues, computed from the old state. -/
set_option autoImplicit false

namespace AppFit.Browser

open AppFit.Shell

inductive Tab where
  | application
  | tests
  | results
deriving DecidableEq

structure File where
  name : Text
  nonempty : name ≠ []
deriving DecidableEq

abbrev FileList := List File

-- What updateState hands to the page; its fileToUpload is never set in the form.
structure AppState where
  appCommand : Text
  testCommand : Text
  debugMode : Bool
  useCache : Bool
deriving DecidableEq

-- The four request fields are undefined until the first submission; {} is none.
structure PageState where
  currentTab : Tab
  analyze : Bool
  appState : Option AppState
  resultsState : Option Results
  fileToUpload : Option FileList
  submitted : AppState

def initialPage : PageState := ⟨.application, false, none, none, none, ⟨[], [], false, false⟩⟩

inductive PageUpdate where
  | currentTab (tab : Tab)
  | analyze (flag : Bool)
  | appState (state : AppState)
  | resultsState (results : Results)
  | fileToUpload (files : FileList)
  | appCommand (command : Text)
  | testCommand (command : Text)
  | debugMode (flag : Bool)
  | useCache (flag : Bool)

def PageState.set (page : PageState) : PageUpdate → PageState
  | .currentTab tab => { page with currentTab := tab }
  | .analyze flag => { page with analyze := flag }
  | .appState state => { page with appState := some state }
  | .resultsState results => { page with resultsState := some results }
  | .fileToUpload files => { page with fileToUpload := some files }
  | .appCommand command => { page with submitted := { page.submitted with appCommand := command } }
  | .testCommand command => { page with submitted := { page.submitted with testCommand := command } }
  | .debugMode flag => { page with submitted := { page.submitted with debugMode := flag } }
  | .useCache flag => { page with submitted := { page.submitted with useCache := flag } }

def PageState.flush (page : PageState) (updates : List PageUpdate) : PageState := updates.foldl PageState.set page

def handleTabClick (tab : Tab) : List PageUpdate :=
  .currentTab tab :: if tab = .results then [.analyze false] else []

-- The flag is toggled from the old state, not set.
def handleAnalyze (page : PageState) (appCommand testCommand : Text) (debugMode useCache : Bool) : List PageUpdate :=
  [.appCommand appCommand, .testCommand testCommand, .debugMode debugMode, .useCache useCache,
    .currentTab .results, .analyze (!page.analyze)]

structure AppForm where
  appCommand : Text
  testCommand : Text
  useCache : Bool
  debugMode : Bool
  appPackage : Option FileList
  submitButtonDisabledState : Bool
deriving DecidableEq

-- getInitialState; the appState object carries no appPackage.
def initialForm : Option AppState → AppForm
  | none => ⟨[], [], true, false, none, true⟩
  | some state => ⟨state.appCommand, state.testCommand, state.useCache, state.debugMode, none, true⟩

inductive FormUpdate where
  | appCommand (command : Text)
  | testCommand (command : Text)
  | useCache (flag : Bool)
  | debugMode (flag : Bool)
  | appPackage (files : FileList)
  | submitButtonDisabledState (flag : Bool)

def AppForm.set (form : AppForm) : FormUpdate → AppForm
  | .appCommand command => { form with appCommand := command }
  | .testCommand command => { form with testCommand := command }
  | .useCache flag => { form with useCache := flag }
  | .debugMode flag => { form with debugMode := flag }
  | .appPackage files => { form with appPackage := some files }
  | .submitButtonDisabledState flag => { form with submitButtonDisabledState := flag }

def AppForm.flush (form : AppForm) (updates : List FormUpdate) : AppForm := updates.foldl AppForm.set form

def updateState (form : AppForm) : PageUpdate :=
  .appState ⟨form.appCommand, form.testCommand, form.debugMode, form.useCache⟩

structure Queued where
  form : List FormUpdate
  page : List PageUpdate

def handleAppCommandChange (form : AppForm) (value : Text) : Queued := ⟨[.appCommand value], [updateState form]⟩
def handleTestCommandChange (form : AppForm) (value : Text) : Queued := ⟨[.testCommand value], [updateState form]⟩
def handleUseCacheChange (form : AppForm) : Queued := ⟨[.useCache (!form.useCache)], [updateState form]⟩
def handleDebugModeChange (form : AppForm) : Queued := ⟨[.debugMode (!form.debugMode)], [updateState form]⟩
def handleAppPackageChange (form : AppForm) (files : FileList) : Queued :=
  ⟨[.submitButtonDisabledState false, .appPackage files], [.fileToUpload files, updateState form]⟩
def handleSubmit (page : PageState) (form : AppForm) : Queued :=
  ⟨[], handleAnalyze page form.appCommand form.testCommand form.debugMode form.useCache ++ [updateState form]⟩

-- cacheHit runs in an AJAX callback, where setState takes effect at once.
def cacheHit (form : AppForm) (appCommand testCommand : Text) : AppForm × List PageUpdate :=
  let first := form.set (.appCommand appCommand)
  let second := first.set (.testCommand testCommand)
  (second, [updateState second])

end AppFit.Browser
