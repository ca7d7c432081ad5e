import EventBus.Proofs.Bus.Outline
import Mathlib.Data.List.Nodup
import Mathlib.Tactic.Common

/-!
What any step of a run does to the outline, said once. A step is at most three moves: a
command is taken and its background work waits for a token, which is then had, or refused,
or the bus ends. Every law of runs is proved of the moves.
-/

namespace EventBus.Bus

@[simp] def Mark.notice? : Mark → Option Notice
  | .noted notice => some notice
  | _ => none

/-- What the bus has reported. -/
def reported (trace : List Mark) : List Notice := trace.filterMap Mark.notice?

@[simp] theorem reported_nil : reported [] = [] := rfl

@[simp] theorem reported_cons (mark : Mark) (trace : List Mark) :
    reported (mark :: trace) = mark.notice?.toList ++ reported trace := by
  unfold reported
  rw [List.filterMap_cons]
  split <;> simp_all

@[simp] theorem reported_append (trace marks : List Mark) :
    reported (trace ++ marks) = reported trace ++ reported marks :=
  List.filterMap_append

@[simp] theorem reported_noted (notices : List Notice) :
    reported (notices.map .noted) = notices := by
  rw [reported, List.filterMap_map]
  exact List.filterMap_some

namespace Notice

/-- Reports that say nothing of commands or of what is put into feeds. -/
def isPlain : Notice → Bool
  | .took _ => false
  | .alreadyRegistered _ => false
  | .queued .. => false
  | _ => true

def isQueued : Notice → Bool
  | .queued .. => true
  | _ => false

theorem isQueued_of_isPlain {notice : Notice} (h : notice.isPlain = true) :
    notice.isQueued = false := by
  cases notice with
  | queued _ _ _ => cases h
  | _ => rfl

end Notice

namespace Mark

/-- Left by a call or by the reader of a feed. -/
def isOfCall : Mark → Bool
  | .numbered _ => true
  | .sent _ => true
  | .gone _ => true
  | .received .. => true
  | _ => false

/-- Left by a background task or by the stream of a replay. -/
def isOfTask : Mark → Bool
  | .yielded .. => true
  | .attempted .. => true
  | .noted notice => notice.isQueued
  | _ => false

end Mark

namespace Coordinator

/-- Neither ended nor waiting for a token. -/
def isFree : Coordinator → Bool
  | .idle => true
  | .starting => true
  | .receiving => true
  | _ => false

variable {coordinator : Coordinator}

theorem isFree_of_receiving (h : coordinator = .receiving) : coordinator.isFree = true := by
  simp [h, isFree]

theorem not_gone_of_isFree (h : coordinator.isFree = true) : coordinator.isGone = false := by
  cases coordinator <;> simp_all [isFree, isGone]

theorem not_gone_of_acquiring {job : Job} {deadline : Nat}
    (h : coordinator = .acquiring job deadline) : coordinator.isGone = false := by
  simp [h, isGone]

end Coordinator

namespace Leg

/-- A look at a delivery of these events that puts nothing into the feed. -/
inductive Looks (selected : List Event) : Leg → Leg → Prop where
  | waits (deadline : Nat) (h : selected ≠ []) : Looks selected .fresh (.waiting selected deadline)
  | stays (leg : Leg) (h : leg ≠ .fresh) : Looks selected leg leg
  | ends (leg : Leg) (outcome : Outcome) (h : leg.isDone = false)
      (hfailed : ∀ events, outcome ≠ .delivered events) : Looks selected leg (.done outcome)

/-- A look that puts events into the feed. -/
inductive Puts (selected : List Event) : Leg → List Event → Prop where
  | atOnce (h : selected ≠ []) : Puts selected .fresh selected
  | afterWait (waiting : List Event) (deadline : Nat) :
      Puts selected (.waiting waiting deadline) waiting

end Leg

/-- A look at a delivery, what it does to the outline, and what is recorded of it. -/
inductive Looked (id : ConsumerId) (origin : Origin) (selected : List Event) (leg : Leg)
    (o : Outline) : List Mark → Leg → Outline → Prop where
  | without {after} (h : Leg.Looks selected leg after) : Looked id origin selected leg o [] after o
  | put {events queue} (h : Leg.Puts selected leg events)
      (hshelf : o.shelf id = some ⟨queue, false⟩) :
      Looked id origin selected leg o [.noted (.queued id events origin)]
        (.done (.delivered events.length))
        ((o.setShelf id ⟨queue ++ [events], false⟩).note [.queued id events origin])

namespace ReplayPhase

/-- How many events a replay has put into the feed. -/
def sent : ReplayPhase → Nat
  | .starting => 0
  | .taking _ sent => sent
  | .sending _ _ _ sent => sent

/-- The delivery that a replay looks at next, and the stream after it. A batch is begun only
while more is wanted, and is cut to what is. -/
inductive Sends (consumer : Consumer) : ReplayPhase → List Event → Leg → Stream → Prop where
  | first (batch : List Event) (batches : List (List Event)) (ends : Bool) (sent : Nat)
      (h : sent < consumer.query.limit) :
      Sends consumer (.taking ⟨batch :: batches, ends⟩ sent)
        (consumer.query.select (batch.take (consumer.query.limit - sent))) .fresh ⟨batches, ends⟩
  | again (selected : List Event) (deadline : Nat) (rest : Stream) (sent : Nat) :
      Sends consumer (.sending selected deadline rest sent) selected (.waiting selected deadline)
        rest

/-- Where a replay stands after a look at a delivery, unless that is its end. -/
inductive Settles (rest : Stream) (sent : Nat) : Leg → ReplayPhase → Prop where
  | waits (selected : List Event) (deadline : Nat) :
      Settles rest sent (.waiting selected deadline) (.sending selected deadline rest sent)
  | taken (leg : Leg) (events : Nat) (h : leg.passed? = some events) :
      Settles rest sent leg (.taking rest (sent + events))

end ReplayPhase

/-- All deliveries of a fan-out are over. A replay can end at any time. -/
def Task.CanEnd : Task → Prop
  | .fanOut _ _ legs => legs.all (·.2.isDone) = true
  | .replay .. => True

namespace Outline

@[simps] def enter (o : Outline) (call : Call) (calls : List Call) : Outline :=
  { o with
    calls
    commands := o.commands ++ [call.command]
    shelf := fun id => if call.number? = some id then some ⟨[], false⟩ else o.shelf id }

@[simps] def take (o : Outline) (command : Command) (rest : List Command) (notices : List Notice) :
    Outline :=
  { o with commands := rest, history := o.history ++ .took command :: notices }

/-- A publish is taken and counted, and what is reported of its write. -/
@[simps] def takePublish (o : Outline) (batch : List Event) (rest : List Command)
    (notices : List Notice) : Outline :=
  { o.take (.publish batch) rest notices with publishes := o.publishes + 1 }

/-- What the coordinator does once a publish has been written and the registry pruned. -/
inductive Launches (o : Outline) (publish : Nat) (batch : List Event) : Coordinator → Prop where
  | nothing (h : o.registry = [] ∨ batch = []) : Launches o publish batch .receiving
  | fanOut (deadline : Nat) (hregistry : o.registry ≠ []) (hbatch : batch ≠ []) :
      Launches o publish batch (.acquiring (.fanOut publish batch o.registry) deadline)

/-- The numbers of new consumers and tasks are used by no one yet. -/
structure Fresh (o : Outline) : Prop where
  task : ∀ id, o.nextTask ≤ id → o.task id = none
  shelf : ∀ id, o.nextId ≤ id → o.shelf id = none
  lt : ∀ id ∈ o.calls.filterMap Call.number?, id < o.nextId
  nodup : (o.calls.filterMap Call.number?).Nodup
  unopened : ∀ id ∈ o.calls.filterMap Call.number?, o.shelf id = none

end Outline

/-- What calls, and the readers of feeds, do. -/
inductive CallMove : Outline → List Mark → Outline → Prop where
  | ask {o} (call : Call) (h : call.number? = none) :
      CallMove o [] { o with calls := o.calls ++ [call] }
  | subscribe {o} (query : Query) (places : Nat) :
      CallMove o [.numbered o.nextId]
        { o with
          nextId := o.nextId + 1
          calls := o.calls ++ [.subscribe o.nextId query places] }
  | giveUp {o before call after} (h : o.calls = before ++ call :: after) :
      CallMove o [] { o with calls := before ++ after }
  | enter {o before call after} (h : o.calls = before ++ call :: after)
      (hgone : o.coordinator.isGone = false) :
      CallMove o [.sent call.command] (o.enter call (before ++ after))
  | receive {o id batch queue closed} (h : o.shelf id = some ⟨batch :: queue, closed⟩) :
      CallMove o [.received id batch] (o.setShelf id ⟨queue, closed⟩)
  | close {o id queue} (h : o.shelf id = some ⟨queue, false⟩) :
      CallMove o [.gone id] (o.setShelf id ⟨[], true⟩)

/-- What the coordinator does. -/
inductive CoordinatorMove : Outline → List Mark → Outline → Prop where
  | ready {o coordinator} (h : o.coordinator.isFree = true) (hnext : coordinator.isFree = true) :
      CoordinatorMove o [] (o.setCoordinator coordinator)
  | discard {o} (h : o.coordinator.isFree = true) :
      CoordinatorMove o [] { o with commands := [], coordinator := .absent }
  | stop {o result} (h : o.coordinator.isGone = false)
      (hresult : result = .error .canceled ∨
        result = .ok () ∧ o.coordinator = .receiving ∧ o.commands = []) :
      CoordinatorMove o [.noted (.stopped result)] (o.stop result)
  | refuse {o batch rest notices error} (h : o.coordinator = .receiving)
      (hcommands : o.commands = .publish batch :: rest) (hstored : o.stored = true)
      (hplain : ∀ notice ∈ notices, notice.isPlain = true) :
      CoordinatorMove o
        (.wrote batch (.error error)
          :: (Notice.took (.publish batch) :: notices
            ++ [Notice.stopped (.error (.ofStore error))]).map .noted)
        ((o.takePublish batch rest notices).stop (.error (.ofStore error)))
  | accept {o batch rest notices next} (h : o.coordinator = .receiving)
      (hcommands : o.commands = .publish batch :: rest)
      (hplain : ∀ notice ∈ notices, notice.isPlain = true)
      (hnext : (o.takePublish batch rest notices).prune.Launches o.publishes batch next) :
      CoordinatorMove o
        ((if o.stored then [.wrote batch (.ok ())] else [])
          ++ (Notice.took (.publish batch) :: (notices ++ o.pruned)).map .noted)
        ((o.takePublish batch rest notices).prune.setCoordinator next)
  | known {o id query rest} (h : o.coordinator = .receiving)
      (hcommands : o.commands = .subscribe id query :: rest)
      (hregistered : o.registry.any (·.id == id) = true) :
      CoordinatorMove o [.noted (.took (.subscribe id query)), .noted (.alreadyRegistered id)]
        (o.take (.subscribe id query) rest [.alreadyRegistered id])
  | enroll {o id query rest consumer next} (h : o.coordinator = .receiving)
      (hcommands : o.commands = .subscribe id query :: rest)
      (hnew : o.registry.any (·.id == id) = false)
      (hconsumer : consumer = ⟨id, query.clampLimit o.maxReplay⟩)
      (hnext : next = .receiving ∨
        consumer.query.replay = true ∧ ∃ deadline, next = .acquiring (.replay consumer) deadline) :
      CoordinatorMove o [.noted (.took (.subscribe id query)), .noted (.registered consumer)]
        (((o.take (.subscribe id query) rest [.registered consumer]).setRegistry
          (insertConsumer consumer o.registry)).setCoordinator next)
  | expel {o id rest notices} (h : o.coordinator = .receiving)
      (hcommands : o.commands = .unsubscribe id :: rest)
      (hplain : ∀ notice ∈ notices, notice.isPlain = true) :
      CoordinatorMove o ((Notice.took (.unsubscribe id) :: notices).map .noted)
        ((o.take (.unsubscribe id) rest notices).setRegistry (o.registry.filter (·.id != id)))
  | launch {o job deadline} (h : o.coordinator = .acquiring job deadline) :
      CoordinatorMove o [] ((o.setCoordinator .receiving).spawn job.task)
  | drop {o job deadline} (h : o.coordinator = .acquiring job deadline) :
      CoordinatorMove o [.noted (.noWorker job.name .timedOut)]
        ((o.note [.noWorker job.name .timedOut]).setCoordinator .receiving)
  | abandon {o consumer deadline} (h : o.coordinator = .acquiring (.replay consumer) deadline) :
      CoordinatorMove o [] (o.setCoordinator .receiving)

/-- What background tasks and the streams of their replays do. -/
inductive TaskMove : Outline → List Mark → Outline → Prop where
  | deliver {o task publish batch seen consumer leg legs marks leg' o'}
      (h : o.task task = some (.fanOut publish batch (seen ++ (consumer, leg) :: legs)))
      (hlook : Looked consumer.id (.live publish) (consumer.query.select batch) leg o marks
        leg' o') :
      TaskMove o (attempt publish consumer.id leg ++ marks)
        (o'.setTask task (some (.fanOut publish batch (seen ++ (consumer, leg') :: legs))))
  | read {o task consumer stream}
      (h : o.task task = some (.replay consumer .starting)) :
      TaskMove o (stream.batches.map (.yielded consumer.id))
        (o.setTask task (some (.replay consumer (.taking stream 0))))
  | grow {o task consumer phase stream} (batches : List (List Event)) (ends : Bool)
      (h : o.task task = some (.replay consumer phase)) (hstream : phase.stream? = some stream) :
      TaskMove o (batches.map (.yielded consumer.id))
        (o.setTask task
          (some (.replay consumer (phase.setStream ⟨stream.batches ++ batches, ends⟩))))
  | send {o task consumer phase selected leg rest marks leg' o' next}
      (h : o.task task = some (.replay consumer phase))
      (hsend : phase.Sends consumer selected leg rest)
      (hlook : Looked consumer.id .replay selected leg o marks leg' o')
      (hnext : ReplayPhase.Settles rest phase.sent leg' next) :
      TaskMove o marks (o'.setTask task (some (.replay consumer next)))
  | finish {o task held} (h : o.task task = some held) (hend : held.CanEnd) :
      TaskMove o [] (o.setTask task none)

inductive Move : Outline → List Mark → Outline → Prop where
  | report {o notices} (h : ∀ notice ∈ notices, notice.isPlain = true) :
      Move o (notices.map .noted) (o.note notices)
  | call {o marks o'} (move : CallMove o marks o') : Move o marks o'
  | coordinate {o marks o'} (move : CoordinatorMove o marks o') : Move o marks o'
  | work {o marks o'} (move : TaskMove o marks o') : Move o marks o'

inductive Moves : Outline → List Mark → Outline → Prop where
  | refl (o : Outline) : Moves o [] o
  | tail {o trace middle marks last} (moves : Moves o trace middle)
      (move : Move middle marks last) :
      Moves o (trace ++ marks) last

namespace Moves

variable {o o₁ o₂ o₃ : Outline} {trace trace₁ trace₂ marks : List Mark}

theorem single (move : Move o₁ marks o₂) : Moves o₁ marks o₂ := .tail (.refl o₁) move

theorem call (move : CallMove o₁ marks o₂) : Moves o₁ marks o₂ := single (.call move)

theorem coordinate (move : CoordinatorMove o₁ marks o₂) : Moves o₁ marks o₂ :=
  single (.coordinate move)

theorem work (move : TaskMove o₁ marks o₂) : Moves o₁ marks o₂ := single (.work move)

theorem of_eq (h : o₂ = o₁) : Moves o₁ [] o₂ := h ▸ .refl o₁

theorem report (o : Outline) {notices : List Notice}
    (h : ∀ notice ∈ notices, notice.isPlain = true) :
    Moves o (notices.map .noted) (o.note notices) :=
  single (.report h)

theorem trans (first : Moves o₁ trace₁ o₂) (second : Moves o₂ trace₂ o₃) :
    Moves o₁ (trace₁ ++ trace₂) o₃ := by
  induction second with
  | refl => rwa [List.append_nil]
  | tail _ move ih =>
      rw [← List.append_assoc]
      exact .tail ih move

end Moves

section Laws

variable {o o' : Outline} {marks : List Mark}

/-- What a look at a delivery leaves alone. -/
structure Looked.Frame (marks : List Mark) (o o' : Outline) : Prop where
  kind : ∀ mark ∈ marks, mark.isOfTask = true
  maxReplay : o'.maxReplay = o.maxReplay
  stored : o'.stored = o.stored
  history : o'.history = o.history ++ reported marks
  calls : o'.calls = o.calls
  nextId : o'.nextId = o.nextId
  commands : o'.commands = o.commands
  coordinator : o'.coordinator = o.coordinator
  publishes : o'.publishes = o.publishes
  registry : o'.registry = o.registry
  task : o'.task = o.task
  nextTask : o'.nextTask = o.nextTask

theorem Looked.frame {id : ConsumerId} {origin : Origin} {selected : List Event} {leg leg' : Leg}
    (hlook : Looked id origin selected leg o marks leg' o') : Looked.Frame marks o o' := by
  cases hlook with
  | without _ => constructor <;> simp
  | put _ _ =>
      constructor
      case kind => simp [Mark.isOfTask, Notice.isQueued]
      case history => simp
      all_goals rfl

/-- What calls and readers leave alone. -/
structure CallMove.Frame (marks : List Mark) (o o' : Outline) : Prop where
  kind : ∀ mark ∈ marks, mark.isOfCall = true
  maxReplay : o'.maxReplay = o.maxReplay
  stored : o'.stored = o.stored
  history : o'.history = o.history
  coordinator : o'.coordinator = o.coordinator
  publishes : o'.publishes = o.publishes
  registry : o'.registry = o.registry
  task : o'.task = o.task
  nextTask : o'.nextTask = o.nextTask

theorem CallMove.frame (move : CallMove o marks o') : CallMove.Frame marks o o' := by
  cases move
  all_goals
    constructor
    case kind => simp [Mark.isOfCall]
    all_goals rfl

/-- What the coordinator leaves alone. -/
structure CoordinatorMove.Frame (marks : List Mark) (o o' : Outline) : Prop where
  kind : ∀ mark ∈ marks, mark.isOfCall = false ∧ mark.isOfTask = false
  maxReplay : o'.maxReplay = o.maxReplay
  stored : o'.stored = o.stored
  history : o'.history = o.history ++ reported marks
  calls : o'.calls = o.calls
  nextId : o'.nextId = o.nextId
  shelf : o'.shelf = o.shelf

theorem kind_noted {notices : List Notice} (h : ∀ notice ∈ notices, notice.isQueued = false) :
    ∀ mark ∈ notices.map Mark.noted, mark.isOfCall = false ∧ mark.isOfTask = false := by
  intro mark hmark
  obtain ⟨notice, hnotice, rfl⟩ := List.mem_map.mp hmark
  exact ⟨rfl, h notice hnotice⟩

theorem isPlain_of_mem_append_pruned {notices : List Notice}
    (h : ∀ notice ∈ notices, notice.isPlain = true) :
    ∀ notice ∈ notices ++ o.pruned, notice.isPlain = true := by
  intro notice hnotice
  rcases List.mem_append.mp hnotice with hnotice | hnotice
  · exact h notice hnotice
  · obtain ⟨consumer, -, rfl⟩ := List.mem_map.mp hnotice
    rfl

theorem CoordinatorMove.frame (move : CoordinatorMove o marks o') :
    CoordinatorMove.Frame marks o o' := by
  cases move with
  | @refuse batch rest notices error h hcommands hstored hplain =>
      have hkind : ∀ notice ∈ Notice.took (.publish batch) :: notices
          ++ [Notice.stopped (.error (.ofStore error))], notice.isQueued = false := by
        simpa [or_imp, forall_and, Notice.isQueued] using
          fun notice hnotice => Notice.isQueued_of_isPlain (hplain notice hnotice)
      constructor
      case kind =>
        intro mark hmark
        rcases List.mem_cons.mp hmark with rfl | hmark
        · simp [Mark.isOfCall, Mark.isOfTask]
        · exact kind_noted hkind mark hmark
      case history => simp [Outline.take]
      all_goals rfl
  | @accept batch rest notices next h hcommands hplain hnext =>
      have hkind : ∀ notice ∈ Notice.took (.publish batch) :: (notices ++ o.pruned),
          notice.isQueued = false := by
        simpa [Notice.isQueued] using fun notice hnotice =>
          Notice.isQueued_of_isPlain (isPlain_of_mem_append_pruned hplain notice hnotice)
      constructor
      case kind =>
        intro mark hmark
        rcases List.mem_append.mp hmark with hmark | hmark
        · have hwrote : mark = .wrote batch (.ok ()) := by
            split at hmark <;> simp_all
          simp [hwrote, Mark.isOfCall, Mark.isOfTask]
        · exact kind_noted hkind mark hmark
      case history =>
        rw [reported_append, reported_noted]
        split <;> simp [Outline.pruned, Outline.isGone]
      all_goals rfl
  | @expel id rest notices h hcommands hplain =>
      have hkind : ∀ notice ∈ Notice.took (.unsubscribe id) :: notices,
          notice.isQueued = false := by
        simpa [Notice.isQueued] using
          fun notice hnotice => Notice.isQueued_of_isPlain (hplain notice hnotice)
      constructor
      case kind => exact kind_noted hkind
      case history => simp
      all_goals rfl
  | _ =>
      constructor
      case kind => simp [Mark.isOfCall, Mark.isOfTask, Notice.isQueued]
      case history => simp
      all_goals rfl

/-- The coordinator acts only while it works. -/
theorem CoordinatorMove.not_gone (move : CoordinatorMove o marks o') :
    o.coordinator.isGone = false := by
  cases move with
  | ready h | discard h => exact Coordinator.not_gone_of_isFree h
  | stop h _ => exact h
  | launch h | drop h | abandon h => exact Coordinator.not_gone_of_acquiring h
  | refuse h | accept h | known h | enroll h | expel h =>
      exact Coordinator.not_gone_of_isFree (Coordinator.isFree_of_receiving h)

/-- What background tasks leave alone. -/
structure TaskMove.Frame (marks : List Mark) (o o' : Outline) : Prop where
  kind : ∀ mark ∈ marks, mark.isOfTask = true
  maxReplay : o'.maxReplay = o.maxReplay
  stored : o'.stored = o.stored
  history : o'.history = o.history ++ reported marks
  calls : o'.calls = o.calls
  nextId : o'.nextId = o.nextId
  commands : o'.commands = o.commands
  coordinator : o'.coordinator = o.coordinator
  publishes : o'.publishes = o.publishes
  registry : o'.registry = o.registry
  nextTask : o'.nextTask = o.nextTask

theorem kind_yielded (id : ConsumerId) (batches : List (List Event)) :
    ∀ mark ∈ batches.map (Mark.yielded id), mark.isOfTask = true := by
  intro mark hmark
  obtain ⟨batch, -, rfl⟩ := List.mem_map.mp hmark
  rfl

theorem kind_attempt (publish : Nat) (id : ConsumerId) (leg : Leg) :
    ∀ mark ∈ attempt publish id leg, mark.isOfTask = true := by
  cases leg <;> simp [attempt, Mark.isOfTask]

@[simp] theorem reported_attempt (publish : Nat) (id : ConsumerId) (leg : Leg) :
    reported (attempt publish id leg) = [] := by
  cases leg <;> rfl

@[simp] theorem reported_yielded (id : ConsumerId) (batches : List (List Event)) :
    reported (batches.map (.yielded id)) = [] := by
  simp [reported, Mark.notice?]

theorem TaskMove.frame (move : TaskMove o marks o') : TaskMove.Frame marks o o' := by
  cases move with
  | deliver h hlook =>
      have frame := hlook.frame
      refine ⟨?_, frame.maxReplay, frame.stored, ?_, frame.calls, frame.nextId, frame.commands,
        frame.coordinator, frame.publishes, frame.registry, frame.nextTask⟩
      · exact List.forall_mem_append.mpr ⟨kind_attempt _ _ _, frame.kind⟩
      · simpa using frame.history
  | send h hsend hlook hnext =>
      have frame := hlook.frame
      exact ⟨frame.kind, frame.maxReplay, frame.stored, frame.history, frame.calls, frame.nextId,
        frame.commands, frame.coordinator, frame.publishes, frame.registry, frame.nextTask⟩
  | finish h hend => constructor <;> simp
  | _ =>
      constructor
      case kind => exact kind_yielded _ _
      all_goals simp

/-- The reports of a bus are recorded, and no others. -/
theorem Move.history_eq (move : Move o marks o') : o'.history = o.history ++ reported marks := by
  cases move with
  | report h =>
      rw [reported_noted]
      rfl
  | call move =>
      have hreported : reported marks = [] := by cases move <;> rfl
      rw [hreported, List.append_nil]
      exact move.frame.history
  | coordinate move => exact move.frame.history
  | work move => exact move.frame.history

theorem Moves.history_eq {trace : List Mark} (moves : Moves o trace o') :
    o'.history = o.history ++ reported trace := by
  induction moves with
  | refl => exact (List.append_nil _).symm
  | tail _ move ih => rw [move.history_eq, ih, reported_append, List.append_assoc]

namespace Outline.Fresh

variable {id : Nat}

/-- Nothing that freshness speaks of has changed. -/
theorem of_eq (fresh : o.Fresh) (htask : o'.task = o.task) (hnextTask : o'.nextTask = o.nextTask)
    (hshelf : o'.shelf = o.shelf) (hnextId : o'.nextId = o.nextId) (hcalls : o'.calls = o.calls) :
    o'.Fresh where
  task := by rw [htask, hnextTask]; exact fresh.task
  shelf := by rw [hshelf, hnextId]; exact fresh.shelf
  lt := by rw [hcalls, hnextId]; exact fresh.lt
  nodup := by rw [hcalls]; exact fresh.nodup
  unopened := by rw [hshelf, hcalls]; exact fresh.unopened

theorem note (fresh : o.Fresh) (notices : List Notice) : (o.note notices).Fresh :=
  fresh.of_eq rfl rfl rfl rfl rfl

theorem setShelf {old : Shelf} (fresh : o.Fresh) (h : o.shelf id = some old) (shelf : Shelf) :
    (o.setShelf id shelf).Fresh where
  task := fresh.task
  shelf other hother := by
    have hnone := fresh.shelf other hother
    have hne : other ≠ id := by
      rintro rfl
      simp [h] at hnone
    rw [setShelf_shelf, Function.update_of_ne hne, hnone]
  lt := fresh.lt
  nodup := fresh.nodup
  unopened other hother := by
    have hnone := fresh.unopened other hother
    have hne : other ≠ id := by
      rintro rfl
      simp [h] at hnone
    rw [setShelf_shelf, Function.update_of_ne hne, hnone]

theorem setTask {old : Task} (fresh : o.Fresh) (h : o.task id = some old) (task? : Option Task) :
    (o.setTask id task?).Fresh where
  task other hother := by
    have hnone := fresh.task other hother
    have hne : other ≠ id := by
      rintro rfl
      simp [h] at hnone
    rw [setTask_task, Function.update_of_ne hne, hnone]
  shelf := fresh.shelf
  lt := fresh.lt
  nodup := fresh.nodup
  unopened := fresh.unopened

theorem spawn (fresh : o.Fresh) (task : Task) : (o.spawn task).Fresh where
  task other hother := by
    have hne : other ≠ o.nextTask := Nat.ne_of_gt hother
    rw [spawn_task, setTask_task, Function.update_of_ne hne]
    exact fresh.task other (Nat.le_of_succ_le hother)
  shelf := fresh.shelf
  lt := fresh.lt
  nodup := fresh.nodup
  unopened := fresh.unopened

theorem withCalls (fresh : o.Fresh) {calls : List Call}
    (h : (calls.filterMap Call.number?).Sublist (o.calls.filterMap Call.number?)) :
    Outline.Fresh { o with calls } where
  task := fresh.task
  shelf := fresh.shelf
  lt id hid := fresh.lt id (h.subset hid)
  nodup := fresh.nodup.sublist h
  unopened id hid := fresh.unopened id (h.subset hid)

theorem subscribe (fresh : o.Fresh) (query : Query) (places : Nat) :
    Outline.Fresh { o with
      nextId := o.nextId + 1
      calls := o.calls ++ [.subscribe o.nextId query places] } where
  task := fresh.task
  shelf id hid := fresh.shelf id (Nat.le_of_succ_le hid)
  lt id hid := by
    have hmem : id ∈ o.calls.filterMap Call.number? ∨ id = o.nextId := by
      simpa [Call.number?] using hid
    rcases hmem with hmem | rfl
    · exact Nat.lt_succ_of_lt (fresh.lt id hmem)
    · exact Nat.lt_succ_self _
  nodup := by
    have hnew : o.nextId ∉ o.calls.filterMap Call.number? :=
      fun hmem => Nat.lt_irrefl _ (fresh.lt _ hmem)
    rw [List.filterMap_append]
    exact List.nodup_append'.mpr
      ⟨fresh.nodup, List.nodup_singleton _, List.disjoint_singleton.mpr hnew⟩
  unopened id hid := by
    have hmem : id ∈ o.calls.filterMap Call.number? ∨ id = o.nextId := by
      simpa [Call.number?] using hid
    rcases hmem with hmem | rfl
    · exact fresh.unopened id hmem
    · exact fresh.shelf _ (Nat.le_refl _)

theorem enter (fresh : o.Fresh) {before after : List Call} {call : Call}
    (h : o.calls = before ++ call :: after) : (o.enter call (before ++ after)).Fresh := by
  have hsublist : ((before ++ after).filterMap Call.number?).Sublist
      (o.calls.filterMap Call.number?) := by
    rw [h]
    exact (List.Sublist.append_left (List.sublist_cons_self _ _) _).filterMap _
  have hleft := fresh.withCalls hsublist
  refine ⟨fresh.task, ?_, hleft.lt, hleft.nodup, ?_⟩
  · intro other hother
    have hne : call.number? ≠ some other := by
      intro hnumber
      have hmem : other ∈ o.calls.filterMap Call.number? :=
        List.mem_filterMap.mpr ⟨call, by simp [h], hnumber⟩
      exact absurd (fresh.lt other hmem) (Nat.not_lt.mpr hother)
    rw [enter_shelf, if_neg hne]
    exact fresh.shelf other hother
  · intro other hother
    have hne : call.number? ≠ some other := by
      intro hnumber
      have hnodup := fresh.nodup
      rw [h, List.filterMap_append, List.filterMap_cons_some hnumber] at hnodup
      rw [enter_calls, List.filterMap_append] at hother
      exact (List.nodup_cons.mp (List.nodup_middle.mp hnodup)).1 hother
    rw [enter_shelf, if_neg hne]
    exact hleft.unopened other hother

end Outline.Fresh

theorem Looked.fresh {id : ConsumerId} {origin : Origin} {selected : List Event} {leg leg' : Leg}
    (hlook : Looked id origin selected leg o marks leg' o') (fresh : o.Fresh) : o'.Fresh := by
  cases hlook with
  | without _ => exact fresh
  | put _ hshelf => exact (fresh.setShelf hshelf _).note _

theorem Looked.ne_fresh {id : ConsumerId} {origin : Origin} {selected : List Event} {leg leg' : Leg}
    (hlook : Looked id origin selected leg o marks leg' o') : leg' ≠ .fresh := by
  cases hlook with
  | put _ _ => simp
  | without h =>
      cases h with
      | stays leg hfresh => exact hfresh
      | _ => simp

theorem Looked.eq_of_not_delivered {id : ConsumerId} {origin : Origin} {selected : List Event}
    {leg leg' : Leg} (hlook : Looked id origin selected leg o marks leg' o')
    (h : ∀ events, leg' ≠ .done (.delivered events)) : marks = [] ∧ o' = o := by
  cases hlook with
  | without _ => exact ⟨rfl, rfl⟩
  | put _ _ => exact absurd rfl (h _)

theorem CallMove.fresh (move : CallMove o marks o') (fresh : o.Fresh) : o'.Fresh := by
  cases move with
  | ask call h => exact fresh.withCalls (by simp [h])
  | subscribe query places => exact fresh.subscribe query places
  | giveUp h =>
      apply fresh.withCalls
      rw [h]
      exact (List.Sublist.append_left (List.sublist_cons_self _ _) _).filterMap _
  | enter h hgone => exact fresh.enter h
  | receive h => exact fresh.setShelf h _
  | close h => exact fresh.setShelf h _

theorem CoordinatorMove.fresh (move : CoordinatorMove o marks o') (fresh : o.Fresh) : o'.Fresh := by
  cases move with
  | @launch job _ h =>
      have hfree : (o.setCoordinator .receiving).Fresh := fresh.of_eq rfl rfl rfl rfl rfl
      exact hfree.spawn job.task
  | _ => exact fresh.of_eq rfl rfl rfl rfl rfl

theorem TaskMove.fresh (move : TaskMove o marks o') (fresh : o.Fresh) : o'.Fresh := by
  cases move with
  | deliver h hlook => exact (hlook.fresh fresh).setTask (by rw [hlook.frame.task, h]) _
  | read h => exact fresh.setTask h _
  | grow batches ends h hstream => exact fresh.setTask h _
  | send h hsend hlook hnext => exact (hlook.fresh fresh).setTask (by rw [hlook.frame.task, h]) _
  | finish h hend => exact fresh.setTask h _

theorem Move.fresh (move : Move o marks o') (fresh : o.Fresh) : o'.Fresh := by
  cases move with
  | report h => exact fresh.note _
  | call move => exact move.fresh fresh
  | coordinate move => exact move.fresh fresh
  | work move => exact move.fresh fresh

theorem Moves.fresh {trace : List Mark} (moves : Moves o trace o') (fresh : o.Fresh) :
    o'.Fresh := by
  induction moves with
  | refl => exact fresh
  | tail _ move ih => exact move.fresh ih

end Laws

end EventBus.Bus
