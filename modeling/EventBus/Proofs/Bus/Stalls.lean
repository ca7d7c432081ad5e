import EventBus.Proofs.Bus.Settling

/-!
What keeps the coordinator from taking the next command. When no party can go on and the store has
answered its calls, a coordinator that has been started either has no command to take, or waits
for a worker token, for less than the timeout of the workers so far, while every token is held by a
task that has not ended. Nothing else holds it up: neither full feeds nor dropped subscriptions
nor streams that stay open, unless they take all the tokens. A bus that is driven by calls and turns
comes to that point by itself, and the turn of the coordinator does not end before it.
-/

namespace EventBus.Bus

section Tokens

variable {l l' : Ledger}

/-- No one waits for a token while one is free. -/
theorem Change.tokens_orderly (change : Change l l') (orderly : l.pool.tokens.Orderly) :
    l'.pool.tokens.Orderly := by
  cases change with
  | report _ => exact orderly
  | call change => cases change <;> exact orderly
  | coordinate change =>
    cases change with
    | ask _ _ _ hnone => exact Semaphore.orderly_wait hnone ()
    | launch _ _ htoken => exact Semaphore.orderly_of_take? htoken orderly
    | redeem _ _ => exact Semaphore.orderly_redeem orderly ()
    | desist _ => exact Semaphore.orderly_leave orderly ()
    | _ => exact orderly
  | work change =>
    cases change with
    | look _ _ hlook =>
      rw [hlook.eq]
      exact orderly
    | proceed _ _ => exact orderly
    | finish _ _ => exact Semaphore.orderly_release orderly

/-- A token is free only if the coordinator does not wait for one. -/
theorem TokenLaw.available_eq_zero {job : Job} {deadline : Nat} (tokens : TokenLaw l)
    (orderly : l.pool.tokens.Orderly) (hgranted : l.pool.tokens.granted = [])
    (h : l.coordinator = .acquiring job deadline) : l.pool.available = 0 := by
  have hasked := tokens.asked
  refine orderly.resolve_left fun hnone => ?_
  rw [h, Semaphore.claims, hnone, hgranted] at hasked
  cases hasked

end Tokens

variable {σ : Type} {bus : Bus σ}

section Settled

variable {job : Job} {deadline : Nat}

theorem isAcquiring_of_due (h : bus.canceled = true ∨ deadline ≤ bus.now) :
    (bus.reviewAcquire job deadline).land.coordinator.isAcquiring = false := by
  unfold reviewAcquire
  split
  next heq =>
    simp only [Pool.review] at heq
    split at heq
    next => cases heq
    next hlive =>
      split at heq
      next => cases heq
      next =>
        split at heq
        next => cases heq
        next hearly =>
          rcases h with hcanceled | hdue
          · exact absurd hcanceled hlive
          · simp [hdue] at hearly
  next acquired pool next? hwaits heq => exact isAcquiring_conclude rfl hwaits

variable [Store σ]

/-- A coordinator that waits for a token would stop waiting if it had any reason to. -/
theorem Settled.still_waits (settled : Settled bus) (h : bus.coordinator = .acquiring job deadline) :
    bus.canceled = false ∧ bus.now < deadline := by
  by_contra hnot
  have hdue : bus.canceled = true ∨ deadline ≤ bus.now := by
    by_cases hcanceled : bus.canceled = true
    · exact Or.inl hcanceled
    · refine Or.inr (Nat.le_of_not_lt fun hearly => hnot ⟨?_, hearly⟩)
      exact Bool.eq_false_iff.mpr hcanceled
  have hover := @isAcquiring_of_due σ bus job deadline hdue
  rw [settled _ (.review h), h] at hover
  cases hover

/-- One that waits for a command would take one that is there. -/
theorem Settled.commands_eq_nil (settled : Settled bus) (answered : Answered bus)
    (h : bus.coordinator = .receiving) : bus.commands = [] := by
  cases hcommands : bus.commands with
  | nil => rfl
  | cons command rest =>
    have hsame : (bus.take command rest).land = bus := by
      by_cases hwritten : bus.written command = []
      · exact settled _ (.take h hcommands hwritten)
      · exact answered _ (.write h hcommands hwritten)
    have hqueue : bus.commands = rest ∨ bus.commands = [] := by
      have htaken := (@agenda_take σ bus _ command rest).commands
      rw [hsame] at htaken
      exact htaken
    rw [hcommands] at hqueue
    simp at hqueue

end Settled

section Runs

/-- The coordinator began to wait for a token for the job at the time, and has not stopped since. -/
inductive WaitsSince [Store σ] (settings : Settings) (store? : Option σ) (job : Job)
    (deadline since : Nat) : List Mark → World σ → Prop where
  | begins {trace world marks world'} (run : Run settings store? trace world)
      (h : world.bus.coordinator = .receiving) (hnow : world.bus.now = since)
      (step : Step world marks world') (h' : world'.bus.coordinator = .acquiring job deadline) :
      WaitsSince settings store? job deadline since (trace ++ marks ++ news world.bus world'.bus)
        world'
  | goesOn {trace world marks world'}
      (waits : WaitsSince settings store? job deadline since trace world)
      (step : Step world marks world') (h' : world'.bus.coordinator = .acquiring job deadline) :
      WaitsSince settings store? job deadline since (trace ++ marks ++ news world.bus world'.bus)
        world'

variable [Store σ] {settings : Settings} {store? : Option σ} {job : Job} {deadline : Nat}
  {trace : List Mark} {world : World σ}

theorem Run.waitsSince (run : Run settings store? trace world)
    (h : world.bus.coordinator = .acquiring job deadline) :
    ∃ since, WaitsSince settings store? job deadline since trace world ∧
      deadline = since + settings.workersTimeout := by
  induction run with
  | refl => cases h
  | @tail trace middle marks world run step ih =>
    have hsettings : middle.bus.settings = settings := run.settings
    rcases step.agenda.acquiring h with hstill | ⟨hreceiving, hdeadline⟩
    · obtain ⟨since, waits, hsince⟩ := ih hstill
      exact ⟨since, waits.goesOn step h, hsince⟩
    · refine ⟨middle.bus.now, .begins run hreceiving rfl step h, ?_⟩
      rw [← hsettings]
      exact hdeadline

theorem Run.tokens_orderly (run : Run settings store? trace world) :
    world.bus.pool.tokens.Orderly :=
  run.changes.invariant (P := fun l => l.pool.tokens.Orderly) (Or.inl rfl) fun h change =>
    change.tokens_orderly h

/-- The coordinator has no command to take, or no token for the one it has taken. In the latter case
every token is held by a task, and the wait has lasted less than the timeout of the workers. So no
command is left in the queue while a token is free. -/
def Stalled (settings : Settings) (store? : Option σ) (trace : List Mark) (world : World σ) : Prop :=
  (world.bus.coordinator = .receiving ∧ world.bus.commands = [] ∨
    ∃ job deadline since, world.bus.coordinator = .acquiring job deadline ∧
      world.bus.pool.available = 0 ∧ world.bus.tasks.length = world.bus.pool.size ∧
      WaitsSince settings store? job deadline since trace world ∧
      deadline = since + settings.workersTimeout ∧ world.bus.now < deadline) ∧
  (0 < world.bus.pool.available → world.bus.commands = [])

theorem stalled_of_receiving (h : world.bus.coordinator = .receiving)
    (hcommands : world.bus.commands = []) : Stalled settings store? trace world :=
  ⟨Or.inl ⟨h, hcommands⟩, fun _ => hcommands⟩

theorem Run.stalled_of_acquiring (run : Run settings store? trace world)
    (h : world.bus.coordinator = .acquiring job deadline)
    (hgranted : world.bus.pool.tokens.granted = []) (hearly : world.bus.now < deadline) :
    Stalled settings store? trace world := by
  have tokens := run.ledgerLaws.tokens
  obtain ⟨since, waits, hsince⟩ := run.waitsSince h
  have hnone : world.bus.pool.available = 0 := tokens.available_eq_zero run.tokens_orderly hgranted h
  have hall : world.bus.pool.available + world.bus.tasks.length = world.bus.pool.size :=
    tokens.available_add hgranted
  refine ⟨Or.inr ⟨job, deadline, since, h, hnone, ?_, waits, hsince, hearly⟩, fun hfree => ?_⟩
  · rw [← hall, hnone, Nat.zero_add]
  · exact absurd hnone (Nat.ne_of_gt hfree)

/-- When no party can go on and the store has answered its calls, a coordinator that has been
started and has not ended is held up. -/
theorem Run.stalled_of_settled (run : Run settings store? trace world)
    (settled : Settled world.bus) (answered : Answered world.bus)
    (hstarted : world.bus.coordinator ≠ .idle) (hgoing : world.bus.coordinator.isGone = false) :
    Stalled settings store? trace world := by
  cases h : world.bus.coordinator with
  | idle => exact absurd h hstarted
  | absent | stopped _ =>
    rw [h] at hgoing
    cases hgoing
  | starting =>
    have hbegun := congrArg Bus.coordinator (settled _ (.begin h))
    rw [h] at hbegun
    cases hbegun
  | receiving => exact stalled_of_receiving h (settled.commands_eq_nil answered h)
  | acquiring job deadline =>
    obtain ⟨-, hearly⟩ := settled.still_waits h
    exact run.stalled_of_acquiring h (settled.tokens_granted run.ledgerLaws.tokens) hearly

/-- A coordinator that has had its turn is held up, or has ended. -/
theorem Run.stalled_of_sleeps (run : Run settings store? trace world)
    (sleeps : world.bus.Sleeps .coordinator) (hstarted : world.bus.coordinator ≠ .idle)
    (hgoing : world.bus.coordinator.isGone = false) : Stalled settings store? trace world := by
  have hidle : ¬world.bus.CoordinatorStirs := sleeps.idle
  cases h : world.bus.coordinator with
  | idle => exact absurd h hstarted
  | absent | stopped _ =>
    rw [h] at hgoing
    cases hgoing
  | starting =>
    rw [CoordinatorStirs, h] at hidle
    exact absurd trivial hidle
  | receiving =>
    rw [coordinatorStirs_receiving_iff h, not_or, not_or, not_not] at hidle
    exact stalled_of_receiving h hidle.2.1
  | acquiring job deadline =>
    rw [coordinatorStirs_acquiring_iff h, not_or, not_or, not_not, Nat.not_le] at hidle
    exact run.stalled_of_acquiring h hidle.2.2 hidle.2.1

end Runs

section Inputs

variable [Store σ]

/-- The coordinator stalls only for lack of workers. In every state of every run in which no party
can go on and the store has answered its calls, a coordinator that has been started and has not
ended is held up for want of a command or of a token. A bus that is driven from outside in whatever
way comes to such a state when it settles, and then no one is left in line for a turn. The turn of
its coordinator takes commands until it is held up or ends. -/
theorem coordinator_waits_for_tokens_only (settings : Settings) (store? : Option σ) :
    (∀ trace world, Run settings store? trace world → Settled world.bus → Answered world.bus →
      world.bus.coordinator ≠ .idle → world.bus.coordinator.isGone = false →
      Stalled settings store? trace world) ∧
    ∀ inputs : List (Input σ),
      let bus := inputs.foldl perform (create settings store?)
      bus.settle.isSettled = true ∧
      (bus.isSettled = true → Settled bus ∧ Answered bus ∧
        (bus.coordinator ≠ .idle → bus.coordinator.isGone = false →
          ∃ trace, Run settings store? trace ⟨bus, []⟩ ∧
            trace.filter Mark.isOfCall = (create settings store?).seenOfAll inputs ∧
            Stalled settings store? trace ⟨bus, []⟩)) ∧
      (bus.coordinator ≠ .idle → bus.turnCoordinator.coordinator.isGone = false →
        ∃ trace, Run settings store? trace ⟨bus.turnCoordinator, []⟩ ∧
          trace.filter Mark.isOfCall = (create settings store?).seenOfAll inputs ∧
          Stalled settings store? trace ⟨bus.turnCoordinator, []⟩) := by
  refine ⟨fun trace world run => run.stalled_of_settled, fun inputs => ?_⟩
  have driven : Driven (inputs.foldl perform (create settings store?)) :=
    (driven_create settings store?).foldl_perform inputs
  obtain ⟨trace, stored, hseen, -⟩ : ∃ trace, StoredSteps (fun _ => True) _ trace _ ∧ _ :=
    exists_run_of_inputs settings store? inputs fun _ _ => trivial
  intro bus
  have hrun : Run settings store? trace ⟨bus, []⟩ := stored.steps
  refine ⟨driven.isSettled_settle, fun hsettled => ?_, fun hstarted hgoing => ?_⟩
  · obtain ⟨settled, answered⟩ := driven.settled_of_isSettled hsettled
    refine ⟨settled, answered, fun hstarted hgoing => ⟨trace, hrun, hseen, ?_⟩⟩
    exact hrun.stalled_of_settled settled answered hstarted hgoing
  · have hturn : Leads (fun _ => True) [] bus bus.turnCoordinator :=
      (turn_reaches bus .coordinator).leads
    obtain ⟨more, stored', hnothing⟩ := hturn []
    have hrun' : Run settings store? (trace ++ more) ⟨bus.turnCoordinator, []⟩ :=
      Steps.trans hrun stored'.steps
    have hsleeps : bus.turnCoordinator.Sleeps .coordinator :=
      turn_sleeps driven.reached (driven.vigil.hears .coordinator nofun)
    refine ⟨trace ++ more, hrun', ?_, ?_⟩
    · rw [List.filter_append, hseen, hnothing, List.append_nil]
    · exact hrun'.stalled_of_sleeps hsleeps (stored'.steps.started hstarted) hgoing

end Inputs

section Sample

def stalledInputs : List (Input Recorder) :=
  [.subscribe false shortQuery 1, .publish false (shortBatch 1), .publish false (shortBatch 2),
    .publish false (shortBatch 3), .publish false (shortBatch 4), .start, .settle]

/-- The only token is with a delivery that waits for room, another job waits for it, and a command
is left in the queue. -/
theorem stalled_without_token :
    let bus := stalledInputs.foldl perform (create ⟨1, 10, 5, 5⟩ none)
    bus.isSettled = true ∧ bus.commands = [.publish (shortBatch 4)] ∧
      ∃ trace, Run ⟨1, 10, 5, 5⟩ none trace ⟨bus, []⟩ ∧ Settled bus ∧ Answered bus ∧
        bus.pool.available = 0 ∧ ∃ job deadline, bus.coordinator = .acquiring job deadline := by
  intro bus
  obtain ⟨hruns, hinputs⟩ :=
    coordinator_waits_for_tokens_only ⟨1, 10, 5, 5⟩ (none : Option Recorder)
  obtain ⟨-, hsettled, -⟩ := hinputs stalledInputs
  obtain ⟨settled, answered, hstalled⟩ := hsettled rfl
  have hstarted : bus.coordinator ≠ .idle := nofun
  obtain ⟨trace, run, -, -⟩ := hstalled hstarted rfl
  obtain ⟨hwaits, -⟩ := hruns trace ⟨bus, []⟩ run settled answered hstarted rfl
  rcases hwaits with ⟨-, hnone⟩ | ⟨job, deadline, since, hacquiring, hnone, -⟩
  · cases hnone
  · exact ⟨rfl, rfl, trace, run, settled, answered, hnone, job, deadline, hacquiring⟩

end Sample

end EventBus.Bus
