import EventBus.Proofs.Bus.Agenda

/-!
A store that answers a read with a whole stream yields nothing later: no stream that a replay has
under way is open. Streams are with the tasks, and a task gets its stream by its one read and only
uses it up afterwards.
-/

namespace EventBus

/-- The streams that the store answers with have ended when it answers. -/
def Store.Whole (σ : Type) [Store σ] : Prop :=
  ∀ canceled query (store : σ) stream,
    (Store.read canceled query store).result = .ok stream → stream.ends = true

end EventBus

namespace EventBus.Bus

namespace Task

def stream? : Task → Option Stream
  | .replay _ phase => phase.stream?
  | .fanOut .. => none

def IsWhole (held : Task) : Prop := ∀ stream, held.stream? = some stream → stream.ends = true

theorem isWhole_of_none {held : Task} (h : held.stream? = none) : held.IsWhole := by
  intro stream hstream
  rw [h] at hstream
  cases hstream

theorem isWhole_setStream {consumer : Consumer} {phase : ReplayPhase} {stream : Stream}
    (h : stream.ends = true) : (Task.replay consumer (phase.setStream stream)).IsWhole := by
  intro other hother
  cases phase <;> cases hother <;> exact h

theorem isWhole_job (job : Job) : job.task.IsWhole := by
  cases job <;> exact isWhole_of_none rfl

end Task

variable {σ : Type} {bus bus' : Bus σ}

/-- The streams that the replays have under way have ended. -/
def Whole (bus : Bus σ) : Prop := ∀ entry ∈ bus.tasks, entry.2.IsWhole

namespace Whole

variable {task : TaskId} {held : Task} {consumer : Consumer}

theorem of_ledger {l : Ledger} (whole : bus.Whole) (h : bus'.ledger = l)
    (htasks : l.tasks = bus.tasks) : bus'.Whole := by
  have hsame : bus'.tasks = bus.tasks := (congrArg Ledger.tasks h).trans htasks
  intro entry hentry
  exact whole entry (hsame ▸ hentry)

theorem of_lookup (whole : bus.Whole) (h : bus.tasks.lookup task = some held) : held.IsWhole :=
  whole _ (mem_of_lookup h)

theorem setTask (whole : bus.Whole) (h : held.IsWhole) : (bus.setTask task held).Whole := by
  intro entry hentry
  obtain ⟨earlier, hearlier, rfl⟩ := List.mem_map.mp hentry
  split
  · exact h
  · exact whole earlier hearlier

theorem finish (whole : bus.Whole) : (bus.finish task held).Whole := by
  have htasks : (bus.finish task held).ledger.tasks = bus.tasks.filter (·.1 != task) :=
    congrArg Ledger.tasks (ledger_finish held)
  intro entry hentry
  have hmem : entry ∈ (bus.finish task held).ledger.tasks := hentry
  rw [htasks] at hmem
  exact whole entry (List.mem_of_mem_filter hmem)

theorem finishReplay (whole : bus.Whole) (sent : Nat) :
    (bus.finishReplay task consumer sent).Whole := by
  apply Whole.finish
  exact whole

theorem stop (whole : bus.Whole) (result : Except BusError Unit) : (bus.stop result).Whole :=
  whole.of_ledger (ledger_stop result) rfl

theorem conclude (whole : bus.Whole) (job : Job) (acquired : Acquired) :
    (bus.conclude job acquired).land.Whole := by
  have hletGo : (bus.letGoAll job.consumers).Whole :=
    whole.of_ledger (ledger_letGoAll _) rfl
  cases acquired with
  | token =>
    have htasks : (bus.spawn job.task).ledger.tasks = bus.tasks ++ [(bus.nextTask, job.task)] :=
      congrArg Ledger.tasks (ledger_spawn job.task)
    intro entry hentry
    have hmem : entry ∈ (bus.spawn job.task).ledger.tasks := hentry
    rw [htasks, List.mem_append, List.mem_singleton] at hmem
    rcases hmem with hmem | rfl
    · exact whole entry hmem
    · exact Task.isWhole_job job
  | waiting => exact whole
  | timedOut => exact hletGo
  | canceled =>
    cases job with
    | fanOut publish batch targets => exact hletGo.stop _
    | replay consumer => exact hletGo

theorem acquire (whole : bus.Whole) (job : Job) : (bus.acquire job).land.Whole := by
  unfold Bus.acquire
  split
  next => exact whole
  next =>
    apply Whole.conclude
    exact whole

theorem pruneEach (whole : bus.Whole) (consumers : List Consumer) :
    (bus.pruneEach consumers).Whole := by
  induction consumers generalizing bus with
  | nil => exact whole
  | cons consumer rest ih =>
    unfold Bus.pruneEach
    split
    · have hpruned : (bus.pruneOne consumer.id).Whole :=
        whole.of_ledger (ledger_pruneOne consumer.id) rfl
      exact ih hpruned
    · exact ih whole

theorem fanOut (whole : bus.Whole) (publish : Nat) (batch : List Event) :
    (bus.fanOut publish batch).land.Whole := by
  have hpruned : bus.prune.Whole := whole.pruneEach bus.registry
  unfold Bus.fanOut
  dsimp only
  split
  · exact hpruned
  · exact hpruned.acquire _

theorem take [Store σ] (whole : bus.Whole) (command : Command) (rest : List Command) :
    (bus.take command rest).land.Whole := by
  let taken := { bus with commands := rest }.note (.took command)
  have htaken : taken.Whole := whole
  change (taken.handle command).land.Whole
  cases command with
  | publish batch =>
    change (taken.handlePublish batch).land.Whole
    unfold handlePublish
    dsimp only
    split
    · apply Whole.fanOut
      exact htaken
    · split
      · apply Whole.fanOut
        exact htaken
      · apply Whole.stop
        exact htaken
  | subscribe id query =>
    change (taken.handleSubscribe id query).land.Whole
    unfold handleSubscribe
    split
    · exact htaken
    · dsimp only
      split
      · exact htaken
      · apply Whole.acquire
        exact htaken
  | unsubscribe id =>
    refine whole.of_ledger (ledger_take_unsubscribe bus id rest) ?_
    split <;> rfl

theorem review (whole : bus.Whole) (job : Job) (deadline : Nat) :
    (bus.reviewAcquire job deadline).land.Whole := by
  unfold reviewAcquire
  split
  next => exact whole
  next acquired pool _ _ _ =>
    apply Whole.conclude
    exact whole

theorem deliver (whole : bus.Whole) (publish : Nat) (batch : List Event)
    (seen : List (Consumer × Leg)) (leg : Leg) (legs : List (Consumer × Leg)) :
    (bus.deliver task publish batch seen consumer leg legs).2.Whole := by
  have hadvanced : (bus.advanceLeg task consumer (.live publish) batch leg).2.Whole :=
    whole.of_ledger rfl (advanceLeg_ledger bus (.live publish) task consumer batch leg).tasks
  exact hadvanced.setTask (Task.isWhole_of_none rfl)

theorem settleLeg {rest : Stream} (whole : bus.Whole) (hrest : rest.ends = true) (sent : Nat)
    (leg : Leg) : (bus.settleLeg task consumer rest sent leg).Whole := by
  have hkeep : ∀ {bus : Bus σ} {phase : ReplayPhase}, bus.Whole → phase.stream? = some rest →
      (bus.keepReplay task consumer phase).Whole := by
    intro bus phase whole hphase
    refine whole.setTask fun stream hstream => ?_
    cases hphase.symm.trans hstream
    exact hrest
  cases leg with
  | fresh => exact whole
  | waiting selected deadline => exact hkeep whole rfl
  | done outcome =>
    cases outcome with
    | delivered _ | skipped => exact hkeep whole rfl
    | timedOut =>
      have hnoted : (bus.note (.replayTimedOut consumer.id)).Whole := whole
      exact hkeep hnoted rfl
    | canceled | closed => exact whole.finishReplay sent

theorem sendBatch {rest : Stream} (whole : bus.Whole) (hrest : rest.ends = true)
    (batch : List Event) (sent : Nat) : (bus.sendBatch task consumer batch rest sent).2.Whole := by
  have hbegun : (bus.beginLeg task consumer .replay
      (batch.take (consumer.query.limit - sent))).2.Whole :=
    whole.of_ledger rfl (beginLeg_ledger bus .replay task consumer _).tasks
  exact hbegun.settleLeg hrest sent _

theorem resendBatch {rest : Stream} (whole : bus.Whole) (hrest : rest.ends = true)
    (selected : List Event) (deadline sent : Nat) :
    (bus.resendBatch task consumer selected deadline rest sent).2.Whole := by
  have hreviewed : (bus.reviewLeg task consumer .replay selected deadline).2.Whole :=
    whole.of_ledger rfl (reviewLeg_ledger bus .replay task consumer deadline).tasks
  unfold Bus.resendBatch
  split
  next h =>
    rw [h] at hreviewed
    exact hreviewed.settleLeg hrest sent _
  next h =>
    rw [h] at hreviewed
    exact hreviewed

theorem openStream {answer : Except StoreError Stream} (whole : bus.Whole)
    (hanswer : ∀ stream, answer = .ok stream → stream.ends = true) :
    (bus.openStream task consumer answer).Whole := by
  unfold Bus.openStream
  split
  next stream =>
    refine whole.setTask fun other hother => ?_
    cases hother
    exact hanswer stream rfl
  · exact whole.finish
  · apply Whole.finish
    exact whole

theorem readHistory [Store σ] (whole : bus.Whole) (hstore : Store.Whole σ) :
    (bus.readHistory task consumer).2.Whole := by
  unfold Bus.readHistory
  split
  next =>
    refine whole.openStream fun stream hstream => ?_
    cases hstream
    rfl
  next store _ =>
    refine Whole.openStream ?_ (hstore _ _ store)
    exact whole

theorem receive (whole : bus.Whole) (id : ConsumerId) : (bus.receive id).2.Whole := by
  unfold Bus.receive
  split
  · exact whole
  · split
    · exact whole.of_ledger (ledger_wakeIf _) rfl
    · exact whole

theorem closeFeed (whole : bus.Whole) (id : ConsumerId) : (bus.closeFeed id).Whole := by
  cases hfeed : bus.feed? id with
  | none =>
    rw [Bus.closeFeed, hfeed]
    exact whole
  | some feed => exact whole.of_ledger (ledger_closeFeed hfeed) rfl

theorem enter (whole : bus.Whole) (call : Call) : (bus.enter call).Whole := by
  have hqueued : (bus.enqueue call.command).Whole :=
    whole.of_ledger (ledger_enqueue call.command) rfl
  cases call <;> exact hqueued

theorem start (whole : bus.Whole) : bus.start.Whole := by
  unfold Bus.start
  split
  · exact whole.of_ledger (ledger_wake _) rfl
  · exact whole

theorem dropCoordinator (whole : bus.Whole) : bus.dropCoordinator.Whole := by
  unfold Bus.dropCoordinator
  split <;> exact whole

end Whole

section Steps

variable [Store σ] {world world' : World σ} {marks : List Mark}

/-- A store with whole streams leaves none open. -/
theorem Step.whole (step : Step world marks world') (hstore : Store.Whole σ)
    (whole : world.bus.Whole) : world'.bus.Whole := by
  cases step with
  | call _ _ | subscribe _ _ | giveUp | addHandle | mapStore _ | time _ | remark _ | schedule _ _
  | watch _ _ | begin _ => exact whole
  | enter _ => exact whole.enter _
  | @receive bus bus' calls id batch h =>
    have hreceived : (bus.receive id).2.Whole := whole.receive id
    rwa [h] at hreceived
  | close _ => exact whole.closeFeed _
  | dropHandle => exact whole.of_ledger ledger_dropHandle rfl
  | start => exact whole.start
  | dropCoordinator => exact whole.dropCoordinator
  | cancel => exact whole.of_ledger ledger_cancel rfl
  | take _ _ => exact whole.take _ _
  | interrupt _ _ | runOut _ _ _ => exact whole.stop _
  | review _ => exact whole.review _ _
  | deliver _ => exact whole.deliver _ _ _ _ _
  | report _ _ =>
    refine Whole.finish ?_
    exact whole
  | read _ => exact whole.readHistory hstore
  | yield h hstream hopen batch =>
    have hends := whole.of_lookup h _ hstream
    rw [hopen] at hends
    cases hends
  | hangUp _ _ => exact whole.setTask (Task.isWhole_setStream rfl)
  | send h _ =>
    have hends := whole.of_lookup h _ rfl
    apply whole.sendBatch
    exact hends
  | resend h => exact whole.resendBatch (whole.of_lookup h _ rfl) _ _ _
  | quit _ _ => exact whole.finishReplay _

end Steps

end EventBus.Bus
