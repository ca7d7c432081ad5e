import EventBus.Proofs.Bus.Outline

/-!
The part of a bus that tells who holds what: worker tokens, places in feeds, and which
consumers may still be given something. Turns, timers and the audience only decide who is woken;
the ledger leaves them out. One lemma for each function of the bus says what it does to the
ledger.
-/

namespace EventBus.Bus

/-- A feed as those who put something into it find it. -/
structure Room where
  queue : List (List Event)
  places : Semaphore TaskId
  closed : Bool

def Feed.room (feed : Feed) : Room := ⟨feed.queue, feed.places, feed.closed⟩

structure Ledger where
  history : List Notice
  commands : List Command
  coordinator : Coordinator
  registry : List Consumer
  isCanceled : ConsumerId → Bool
  room : ConsumerId → Option Room
  pool : Pool Unit
  tasks : List (TaskId × Task)
  nextTask : TaskId

namespace Ledger

@[simps] def note (l : Ledger) (notices : List Notice) : Ledger :=
  { l with history := l.history ++ notices }

@[simps] def setRoom (l : Ledger) (id : ConsumerId) (room : Room) : Ledger :=
  { l with room := Function.update l.room id (some room) }

/-- A feed is opened, unless there is one. -/
@[simps] def openRoom (l : Ledger) (id : ConsumerId) (room : Room) : Ledger :=
  { l with room := Function.update l.room id (some ((l.room id).getD room)) }

@[simps] def setTask (l : Ledger) (id : TaskId) (task : Task) : Ledger :=
  { l with tasks := l.tasks.map fun entry => if entry.1 = id then (id, task) else entry }

/-- A task ends and gives its token back. -/
@[simps] def endTask (l : Ledger) (id : TaskId) : Ledger :=
  { l with tasks := l.tasks.filter (·.1 != id), pool := l.pool.release.1 }

@[simps] def spawn (l : Ledger) (task : Task) : Ledger :=
  { l with tasks := l.tasks ++ [(l.nextTask, task)], nextTask := l.nextTask + 1 }

@[simps] def setCoordinator (l : Ledger) (coordinator : Coordinator) : Ledger :=
  { l with coordinator }

@[simps] def setPool (l : Ledger) (pool : Pool Unit) : Ledger := { l with pool }

@[simps] def setCommands (l : Ledger) (commands : List Command) : Ledger := { l with commands }

@[simps] def setRegistry (l : Ledger) (registry : List Consumer) : Ledger := { l with registry }

/-- Consumers that have a feed are cancelled. -/
@[simps] def cancel (l : Ledger) (ids : ConsumerId → Bool) : Ledger :=
  { l with isCanceled := fun id => l.isCanceled id || ids id && (l.room id).isSome }

def isRegistered (l : Ledger) (id : ConsumerId) : Bool := l.registry.any (·.id == id)

/-- A consumer is taken out of the registry and cancelled. -/
def expel (l : Ledger) (id : ConsumerId) : Ledger :=
  (l.cancel (· == id)).setRegistry (l.registry.filter (·.id != id))

def stop (l : Ledger) (result : Except BusError Unit) : Ledger :=
  ((((l.cancel l.isRegistered).setRegistry []).note [.stopped result]).setCommands []).setCoordinator
    (.stopped result)

@[simp] theorem note_nil (l : Ledger) : l.note [] = l := by
  simp [note]

theorem setRoom_eq_self {l : Ledger} {id : ConsumerId} {room : Room} (h : l.room id = some room) :
    l.setRoom id room = l := by
  rw [setRoom, ← h, Function.update_eq_self]

/-- What a task was about to do is forgotten with the task. -/
theorem endTask_setTask (l : Ledger) (id : TaskId) (task : Task) :
    (l.setTask id task).endTask id = l.endTask id := by
  have hkept : ∀ tasks : List (TaskId × Task),
      (tasks.map fun entry => if entry.1 = id then (id, task) else entry).filter (·.1 != id)
        = tasks.filter (·.1 != id) := by
    intro tasks
    induction tasks with
    | nil => rfl
    | cons entry tasks ih =>
        by_cases hentry : entry.1 = id
        · rw [List.map_cons, if_pos hentry, List.filter_cons_of_neg (by simp),
            List.filter_cons_of_neg (by simp [hentry]), ih]
        · rw [List.map_cons, if_neg hentry, List.filter_cons_of_pos (by simpa using hentry),
            List.filter_cons_of_pos (by simpa using hentry), ih]
  exact congrArg (fun tasks => { l with tasks, pool := l.pool.release.1 }) (hkept l.tasks)

theorem cancel_cancel (l : Ledger) (ids ids' : ConsumerId → Bool) :
    (l.cancel ids).cancel ids' = l.cancel fun id => ids id || ids' id := by
  simp [cancel, Bool.or_assoc, ← Bool.and_or_distrib_right]

/-- Who has no feed, or is cancelled already, is left alone. -/
theorem cancel_eq_self {l : Ledger} {id : ConsumerId}
    (h : l.isCanceled id = true ∨ l.room id = none) : l.cancel (· == id) = l := by
  unfold cancel
  congr
  funext other
  by_cases hother : other = id
  · subst hother
    rcases h with h | h <;> simp [h]
  · simp [hother]

end Ledger

variable {σ : Type}

def ledger (bus : Bus σ) : Ledger where
  history := bus.history
  commands := bus.commands
  coordinator := bus.coordinator
  registry := bus.registry
  isCanceled := bus.isCanceled
  room id := (bus.feed? id).map Feed.room
  pool := bus.pool
  tasks := bus.tasks
  nextTask := bus.nextTask

variable {bus : Bus σ}

section Unseen

/-! What leaves the ledger as it is. -/

theorem ledger_foldl {α : Type} {f : Bus σ → α → Bus σ}
    (h : ∀ bus a, (f bus a).ledger = bus.ledger) (as : List α) (bus : Bus σ) :
    (as.foldl f bus).ledger = bus.ledger := by
  induction as generalizing bus with
  | nil => rfl
  | cons a as ih => rw [List.foldl_cons, ih, h]

@[simp] theorem ledger_wake (actor : Actor) : (bus.wake actor).ledger = bus.ledger := by
  unfold wake
  split <;> rfl

@[simp] theorem ledger_wakeTasks (tasks : List TaskId) :
    (bus.wakeTasks tasks).ledger = bus.ledger :=
  ledger_foldl (fun _ _ => ledger_wake _) tasks bus

@[simp] theorem ledger_wakeIf (task? : Option TaskId) :
    (bus.wakeIf task?).ledger = bus.ledger := by
  cases task? <;> simp [wakeIf]

@[simp] theorem ledger_wakeReceiver : bus.wakeReceiver.ledger = bus.ledger := by
  unfold wakeReceiver
  split <;> simp

@[simp] theorem ledger_clearTimer (deadline : Nat) (actor : Actor) :
    (bus.clearTimer deadline actor).ledger = bus.ledger := rfl

@[simp] theorem ledger_letGo (id : ConsumerId) : (bus.letGo id).ledger = bus.ledger := by
  unfold letGo
  split <;> rfl

@[simp] theorem ledger_letGoAll (consumers : List Consumer) :
    (bus.letGoAll consumers).ledger = bus.ledger :=
  ledger_foldl (fun _ _ => ledger_letGo _) consumers bus

@[simp] theorem ledger_dropHandle : bus.dropHandle.ledger = bus.ledger := by
  unfold dropHandle
  dsimp only
  split
  · exact ledger_wakeReceiver
  · rfl

end Unseen

section Reports

@[simp] theorem ledger_note (notice : Notice) :
    (bus.note notice).ledger = bus.ledger.note [notice] := rfl

@[simp] theorem ledger_noteAll (notices : List Notice) :
    (bus.noteAll notices).ledger = bus.ledger.note notices := rfl

end Reports

section Feeds

variable {id : ConsumerId}

theorem ledger_withFeeds {feeds : List (ConsumerId × Feed)} {isCanceled : ConsumerId → Bool}
    {room : ConsumerId → Option Room} (hcanceled : { bus with feeds }.isCanceled = isCanceled)
    (hroom : { bus with feeds }.ledger.room = room) :
    { bus with feeds }.ledger = { bus.ledger with isCanceled, room } := by
  subst hcanceled hroom
  rfl

theorem room_of_feed? {feed : Feed} (h : bus.feed? id = some feed) :
    bus.ledger.room id = some feed.room := by
  simp [ledger, h]

theorem feed?_setFeed {old : Feed} (feed : Feed) (h : bus.feed? id = some old) :
    (bus.setFeed id feed).feed? = Function.update bus.feed? id (some feed) := by
  funext other
  by_cases hother : other = id
  · subst hother
    rw [Function.update_self]
    exact lookup_map_replace feed h
  · rw [Function.update_of_ne hother]
    exact lookup_map_replace_of_ne feed hother

theorem room_setFeed {old : Feed} (feed : Feed) (h : bus.feed? id = some old) :
    (bus.setFeed id feed).ledger.room = Function.update bus.ledger.room id (some feed.room) := by
  funext other
  show ((bus.setFeed id feed).feed? other).map Feed.room = _
  rw [feed?_setFeed feed h]
  by_cases hother : other = id
  · subst hother
    rw [Function.update_self, Function.update_self]
    rfl
  · rw [Function.update_of_ne hother, Function.update_of_ne hother]
    rfl

theorem isCanceled_setFeed {old : Feed} (feed : Feed) (h : bus.feed? id = some old)
    (hcanceled : feed.canceled = old.canceled) :
    (bus.setFeed id feed).isCanceled = bus.isCanceled := by
  funext other
  unfold isCanceled
  rw [feed?_setFeed feed h]
  by_cases hother : other = id
  · subst hother
    rw [Function.update_self, h, Option.any_some, Option.any_some, hcanceled]
    rfl
  · rw [Function.update_of_ne hother]
    rfl

theorem ledger_setFeed {old : Feed} (feed : Feed) (h : bus.feed? id = some old)
    (hcanceled : feed.canceled = old.canceled) :
    (bus.setFeed id feed).ledger = bus.ledger.setRoom id feed.room :=
  ledger_withFeeds (isCanceled_setFeed feed h hcanceled) (room_setFeed feed h)

theorem ledger_setFeed_of_room_eq {old : Feed} (feed : Feed) (h : bus.feed? id = some old)
    (hcanceled : feed.canceled = old.canceled) (hroom : feed.room = old.room) :
    (bus.setFeed id feed).ledger = bus.ledger := by
  rw [ledger_setFeed feed h hcanceled, Ledger.setRoom, hroom, ← room_of_feed? h,
    Function.update_eq_self]

@[simp] theorem ledger_cancelConsumer (id : ConsumerId) :
    (bus.cancelConsumer id).ledger = bus.ledger.cancel (· == id) := by
  unfold cancelConsumer
  split
  next hcanceled => exact (Ledger.cancel_eq_self (Or.inl hcanceled)).symm
  next hcanceled =>
    split
    next hnone => exact (Ledger.cancel_eq_self (Or.inr (by simp [ledger, hnone]))).symm
    next feed hfeed =>
      let canceled : Feed := { feed with canceled := true }
      have hroom : (bus.setFeed id canceled).ledger.room = bus.ledger.room := by
        rw [room_setFeed canceled hfeed, show canceled.room = feed.room from rfl,
          ← room_of_feed? hfeed, Function.update_eq_self]
      have hisCanceled : (bus.setFeed id canceled).isCanceled
          = (bus.ledger.cancel (· == id)).isCanceled := by
        funext other
        show (_ || _) = (bus.isCanceled other || _)
        rw [feed?_setFeed canceled hfeed]
        by_cases hother : other = id
        · subst hother
          simp [canceled, ledger, hfeed]
        · simp [hother, isCanceled, setFeed]
      rw [ledger_wakeTasks]
      exact ledger_withFeeds hisCanceled hroom

theorem ledger_openFeed (id : ConsumerId) (places : Nat) :
    (bus.openFeed id places).ledger
      = bus.ledger.openRoom id (Feed.ofPlaces places).room := by
  have hfeed : ∀ other, (bus.openFeed id places).feed? other
      = (bus.feed? other).or (if other = id then some (Feed.ofPlaces places) else none) := by
    intro other
    show (bus.feeds ++ [(id, Feed.ofPlaces places)]).lookup other = _
    rw [List.lookup_append]
    by_cases hother : other = id
    · rw [hother, List.lookup_cons_self, if_pos rfl]
      rfl
    · rw [lookup_cons_of_ne _ hother, List.lookup_nil, if_neg hother]
      rfl
  have hisCanceled : (bus.openFeed id places).isCanceled = bus.isCanceled := by
    funext other
    show (bus.canceled || _) = (bus.canceled || _)
    rw [hfeed]
    cases bus.feed? other with
    | some feed => rfl
    | none =>
        by_cases hother : other = id
        · rw [if_pos hother]
          rfl
        · rw [if_neg hother]
          rfl
  have hroom : (bus.openFeed id places).ledger.room
      = (bus.ledger.openRoom id (Feed.ofPlaces places).room).room := by
    funext other
    show ((bus.openFeed id places).feed? other).map Feed.room = _
    rw [hfeed, Ledger.openRoom_room]
    by_cases hother : other = id
    · subst hother
      rw [Function.update_self, if_pos rfl]
      cases hold : bus.feed? other with
      | none => simp [ledger, hold]
      | some feed => simp [ledger, hold]
    · rw [Function.update_of_ne hother, if_neg hother, Option.or_none]
      rfl
  exact ledger_withFeeds hisCanceled hroom

theorem ledger_closeFeed {feed : Feed} (h : bus.feed? id = some feed) :
    (bus.closeFeed id).ledger
      = bus.ledger.setRoom id { feed.room with closed := true, queue := [] } := by
  have hset : (bus.setFeed id feed.close.1).ledger
      = bus.ledger.setRoom id { feed.room with closed := true, queue := [] } :=
    ledger_setFeed feed.close.1 h rfl
  unfold closeFeed
  simp only [h]
  split <;> simp only [ledger_wakeReceiver, ledger_wakeTasks] <;> exact hset

theorem ledger_cancel :
    bus.cancel.ledger = { bus.ledger with isCanceled := fun _ => true } := by
  have hcanceled : ({ bus with canceled := true }.wakeTasks bus.canceledTasks).ledger
      = { bus.ledger with isCanceled := fun _ => true } :=
    ledger_wakeTasks _
  unfold cancel
  dsimp only
  split
  next h =>
    have hall : bus.isCanceled = fun _ => true := by
      funext id
      simp [isCanceled, h]
    rw [← hall]
    rfl
  next =>
    split
    · rw [ledger_wake, hcanceled]
    · exact hcanceled

end Feeds

section Tasks

variable {id : TaskId}

@[simp] theorem ledger_spawn (task : Task) : (bus.spawn task).ledger = bus.ledger.spawn task := by
  unfold spawn
  rw [ledger_wake]
  rfl

@[simp] theorem ledger_releaseToken :
    bus.releaseToken.ledger = bus.ledger.setPool bus.pool.release.1 := by
  unfold releaseToken
  dsimp only
  split
  · rw [ledger_wake]
    rfl
  · rfl

@[simp] theorem ledger_finish (task : Task) :
    (bus.finish id task).ledger = bus.ledger.endTask id := by
  have hgone : ({ bus with tasks := bus.tasks.filter (·.1 != id) }.letGoAll task.consumers).ledger
      = { bus.ledger with tasks := bus.tasks.filter (·.1 != id) } := ledger_letGoAll _
  have hpool := congrArg Ledger.pool hgone
  unfold finish
  rw [ledger_releaseToken, hgone]
  exact congrArg (fun pool : Pool Unit =>
    { bus.ledger with tasks := bus.tasks.filter (·.1 != id), pool := pool.release.1 }) hpool

end Tasks

section Coordinator

theorem ledger_foldl_cancelConsumer (consumers : List Consumer) (bus : Bus σ) :
    (consumers.foldl (fun bus consumer => bus.cancelConsumer consumer.id) bus).ledger
      = bus.ledger.cancel fun id => consumers.any (·.id == id) := by
  induction consumers generalizing bus with
  | nil => simp [Ledger.cancel]
  | cons consumer consumers ih =>
      rw [List.foldl_cons, ih, ledger_cancelConsumer, Ledger.cancel_cancel]
      congr
      funext id
      rw [List.any_cons, BEq.comm]

theorem ledger_stop (result : Except BusError Unit) :
    (bus.stop result).ledger = bus.ledger.stop result := by
  let canceled := bus.registry.foldl (fun bus consumer => bus.cancelConsumer consumer.id) bus
  have hcanceled : canceled.ledger = bus.ledger.cancel bus.ledger.isRegistered :=
    ledger_foldl_cancelConsumer bus.registry bus
  have hcleared : ({ canceled with registry := [] }.letGoAll bus.registry).ledger
      = (bus.ledger.cancel bus.ledger.isRegistered).setRegistry [] := by
    rw [ledger_letGoAll, ← hcanceled]
    rfl
  exact congrArg (fun l : Ledger =>
    ((l.note [.stopped result]).setCommands []).setCoordinator (.stopped result)) hcleared

theorem ledger_pruneOne (id : ConsumerId) :
    (bus.pruneOne id).ledger = (bus.ledger.expel id).note [.pruned id] := by
  have hcanceled : (bus.cancelConsumer id).ledger = bus.ledger.cancel (· == id) :=
    ledger_cancelConsumer id
  have hexpelled : (bus.ledger.cancel (· == id)).setRegistry
        ((bus.ledger.cancel (· == id)).registry.filter (·.id != id))
      = bus.ledger.expel id := rfl
  rw [pruneOne, ledger_letGo, ledger_note, ← hexpelled, ← hcanceled]
  rfl

end Coordinator

end EventBus.Bus
