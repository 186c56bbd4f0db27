import AppFit.Browser.Session

/- With which analyze flag a ResultsForm is mounted. The instance counter of a
   session grows exactly when one is. -/
set_option autoImplicit false

namespace AppFit.Browser

open AppFit.Runs

-- The button exists while the form is shown, and is enabled by selecting a package.
def SubmitPossible (session : Session) (event : SessionEvent) : Prop := event = .submit → canSubmit session = true

def MountRight (session : Session) (event : SessionEvent) : Prop :=
  (sessionStep session event).instances ≠ session.instances →
    (event = .submit → (sessionStep session event).page.analyze = true) ∧
      (event = .tabClick .results → (sessionStep session event).page.analyze = false)

def ClickBetweenSubmits (events : List SessionEvent) : Prop :=
  ∀ before between after, events = before ++ .submit :: (between ++ .submit :: after) →
    SessionEvent.tabClick .results ∈ between

theorem submit_mounts (session : Session) (possible : canSubmit session = true) :
    (sessionStep session .submit).instances = session.instances + 1 ∧
      (sessionStep session .submit).page.analyze = !session.page.analyze := by
  rw [submit_step, if_pos possible]
  exact ⟨did_mount_instances _ _, congrArg PageState.analyze (did_mount_page _ _)⟩

-- Whether an analysis was submitted since the last click on the Results tab.
def pendingNext (pending : Bool) : SessionEvent → Bool
  | .submit => true
  | .tabClick .results => false
  | _ => pending

theorem mount_right_iff (session : Session) (event : SessionEvent) (possible : SubmitPossible session event) :
    MountRight session event ↔ (event = .submit → session.page.analyze = false) := by
  constructor
  · rintro right rfl
    obtain ⟨mounted, toggled⟩ := submit_mounts session (possible rfl)
    have analyze := (right (by omega)).1 rfl
    rwa [toggled, Bool.not_eq_true'] at analyze
  · intro reset _
    refine ⟨?_, ?_⟩
    · intro submits
      subst submits
      rw [(submit_mounts session (possible rfl)).2, reset rfl]
      rfl
    · intro clicks
      subst clicks
      rw [tab_click_page]
      rfl

theorem analyze_step (session : Session) (event : SessionEvent) (possible : SubmitPossible session event)
    (reset : event = .submit → session.page.analyze = false) :
    (sessionStep session event).page.analyze = pendingNext session.page.analyze event := by
  cases event with
  | tabClick tab =>
      rw [tab_click_page]
      cases tab <;> rfl
  | submit =>
      rw [(submit_mounts session (possible rfl)).2, reset rfl]
      rfl
  | _ => exact (quiet_step session _ rfl).analyze

theorem pending_iff (pending : Bool) (events : List SessionEvent) :
    run pendingNext pending events = true ↔
      (pending = true ∧ SessionEvent.tabClick .results ∉ events) ∨
        ∃ before between, events = before ++ .submit :: between ∧ SessionEvent.tabClick .results ∉ between := by
  induction events generalizing pending with
  | nil => simp [run_nil]
  | cons event rest ih =>
      rw [run_cons, ih, exists_split_cons .submit event rest (SessionEvent.tabClick .results ∉ ·)]
      cases event with
      | tabClick tab => cases tab <;> simp [pendingNext]
      | submit =>
          have shorter : SessionEvent.tabClick .results ∉ .submit :: rest → SessionEvent.tabClick .results ∉ rest :=
            fun absent member => absent (List.mem_cons_of_mem _ member)
          simp only [pendingNext, true_and]
          tauto
      | _ => simp [pendingNext]

def Reset (pending : Bool) (event : SessionEvent) : Prop := event = .submit → pending = false

theorem reset_iff_click_between (events : List SessionEvent) :
    Along pendingNext Reset false events ↔ ClickBetweenSubmits events := by
  rw [along_iff_split]
  constructor
  · intro reset before between after split
    by_contra noClick
    have pending := (pending_iff false (before ++ .submit :: between)).mpr (.inr ⟨before, between, rfl, noClick⟩)
    have settled := reset (before ++ .submit :: between) .submit after (by rw [split, List.append_assoc]; rfl) rfl
    rw [pending] at settled
    cases settled
  · rintro clicked before event after split rfl
    by_contra pending
    rw [Bool.not_eq_false, pending_iff] at pending
    rcases pending with ⟨started, _⟩ | ⟨earlier, between, same, noClick⟩
    · cases started
    · exact noClick (clicked earlier between after (by rw [split, same, List.append_assoc]; rfl))

theorem mounts_right_iff (events : List SessionEvent)
    (possible : Along sessionStep SubmitPossible startSession events) :
    Along sessionStep MountRight startSession events ↔ ClickBetweenSubmits events := by
  rw [← reset_iff_click_between]
  refine along_iff_of_legal_simulation sessionStep pendingNext (fun session pending => session.page.analyze = pending)
    SubmitPossible MountRight Reset ?_ ?_ startSession false events rfl possible
  · intro session pending event same legal
    rw [← same]
    exact mount_right_iff session event legal
  · intro session pending event same legal right
    rw [← same]
    exact analyze_step session event legal ((mount_right_iff session event legal).mp right)

def reviewedRun : List SessionEvent :=
  [chosenPackage, .submit, .tabClick .tests, .tabClick .results, .tabClick .application, chosenPackage, .submit]

def hurriedRun : List SessionEvent :=
  [chosenPackage, .submit, .tabClick .application, chosenPackage, .submit]

instance (session : Session) (event : SessionEvent) : Decidable (SubmitPossible session event) :=
  inferInstanceAs (Decidable (event = .submit → canSubmit session = true))

instance (pending : Bool) (event : SessionEvent) : Decidable (Reset pending event) :=
  inferInstanceAs (Decidable (event = .submit → pending = false))

theorem reviewed_run_mounts_right :
    Along sessionStep SubmitPossible startSession reviewedRun ∧ Along sessionStep MountRight startSession reviewedRun := by
  have possible : Along sessionStep SubmitPossible startSession reviewedRun := by decide
  have clicked : ClickBetweenSubmits reviewedRun := (reset_iff_click_between reviewedRun).mp (by decide)
  exact ⟨possible, (mounts_right_iff reviewedRun possible).mpr clicked⟩

theorem second_submit_replots :
    Along sessionStep SubmitPossible startSession hurriedRun ∧ ¬ Along sessionStep MountRight startSession hurriedRun := by
  refine ⟨by decide, ?_⟩
  intro right
  exact absurd ((right.2.2.2.2.1 (by decide)).1 rfl) (by decide)

end AppFit.Browser
