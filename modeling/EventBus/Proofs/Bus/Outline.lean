import EventBus.Proofs.Bus.Run
import Mathlib.Data.List.Basic
import Mathlib.Logic.Function.Basic
import Mathlib.Tactic.Simps.Basic

/-!
The part of a bus that commands, deliveries and reports are made of. Turns, timers, tokens
and the places of feeds only decide when something happens; the outline leaves them out. One
lemma for each function of the bus says what it does to the outline, so that nothing later
opens these functions again.
-/

namespace EventBus.Bus

section Lookup

variable {α : Type} {entries : List (Nat × α)} {key other : Nat}

theorem lookup_cons_of_ne {first : Nat} (value : α) (h : other ≠ first) :
    ((first, value) :: entries).lookup other = entries.lookup other := by
  rw [List.lookup_cons, beq_eq_false_iff_ne.mpr h]

theorem lookup_map_replace_of_ne (value : α) (h : other ≠ key) :
    (entries.map fun entry => if entry.1 = key then (key, value) else entry).lookup other
      = entries.lookup other := by
  induction entries with
  | nil => rfl
  | cons entry rest ih =>
      obtain ⟨first, held⟩ := entry
      by_cases hfirst : first = key
      · subst hfirst
        rw [List.map_cons, if_pos rfl, lookup_cons_of_ne value h, lookup_cons_of_ne held h, ih]
      · rw [List.map_cons, if_neg hfirst]
        by_cases hother : other = first
        · subst hother
          rw [List.lookup_cons_self, List.lookup_cons_self]
        · rw [lookup_cons_of_ne held hother, lookup_cons_of_ne held hother, ih]

theorem lookup_map_replace {old : α} (value : α) (h : entries.lookup key = some old) :
    (entries.map fun entry => if entry.1 = key then (key, value) else entry).lookup key
      = some value := by
  induction entries with
  | nil => cases h
  | cons entry rest ih =>
      obtain ⟨first, held⟩ := entry
      by_cases hfirst : first = key
      · rw [List.map_cons, if_pos hfirst, List.lookup_cons_self]
      · have hne : key ≠ first := Ne.symm hfirst
        rw [lookup_cons_of_ne held hne] at h
        rw [List.map_cons, if_neg hfirst, lookup_cons_of_ne held hne, ih h]

theorem keys_map_replace (value : α) :
    (entries.map fun entry => if entry.1 = key then (key, value) else entry).map (·.1)
      = entries.map (·.1) := by
  rw [List.map_map]
  refine List.map_congr_left fun entry _ => ?_
  simp only [Function.comp_apply]
  split
  next hkey => exact hkey.symm
  next => rfl

theorem map_replace_eq_self {value : α} (h : ∀ held, (key, held) ∈ entries → held = value) :
    (entries.map fun entry => if entry.1 = key then (key, value) else entry) = entries := by
  have hsame : ∀ entry ∈ entries, (if entry.1 = key then (key, value) else entry) = entry := by
    rintro ⟨other, held⟩ hentry
    split
    next hkey =>
      obtain rfl : other = key := hkey
      rw [h held hentry]
    next => rfl
  exact (List.map_congr_left hsame).trans (List.map_id entries)

theorem lookup_filter_ne :
    (entries.filter (·.1 != key)).lookup other
      = if other = key then none else entries.lookup other := by
  induction entries with
  | nil => simp
  | cons entry rest ih =>
      obtain ⟨first, held⟩ := entry
      by_cases hfirst : first = key
      · rw [List.filter_cons_of_neg (by simpa using hfirst), ih]
        by_cases hother : other = key
        · rw [if_pos hother, if_pos hother]
        · rw [if_neg hother, if_neg hother, lookup_cons_of_ne held (hfirst ▸ hother)]
      · rw [List.filter_cons_of_pos (by simpa using hfirst)]
        by_cases hother : other = first
        · subst hother
          rw [List.lookup_cons_self, List.lookup_cons_self, if_neg hfirst]
        · rw [lookup_cons_of_ne held hother, lookup_cons_of_ne held hother, ih]

theorem lookup_append_fresh (value : α) (h : entries.lookup key = none) :
    (entries ++ [(key, value)]).lookup other
      = if other = key then some value else entries.lookup other := by
  rw [List.lookup_append]
  by_cases hother : other = key
  · subst hother
    rw [h, if_pos rfl, List.lookup_cons_self, Option.none_or]
  · rw [if_neg hother, lookup_cons_of_ne value hother, List.lookup_nil, Option.or_none]

theorem mem_of_lookup {value : α} (h : entries.lookup key = some value) :
    (key, value) ∈ entries := by
  obtain ⟨before, after, hentries, -⟩ := List.lookup_eq_some_iff.mp h
  rw [hentries]
  exact List.mem_append_right _ List.mem_cons_self

theorem lookup_of_mem {value : α} (hdistinct : (entries.map (·.1)).Nodup)
    (h : (key, value) ∈ entries) : entries.lookup key = some value := by
  induction entries with
  | nil => cases h
  | cons entry rest ih =>
      rw [List.map_cons, List.nodup_cons] at hdistinct
      rcases List.mem_cons.mp h with rfl | hrest
      · exact List.lookup_cons_self
      · have hne : key ≠ entry.1 := by
          rintro rfl
          exact hdistinct.1 (List.mem_map.mpr ⟨_, hrest, rfl⟩)
        obtain ⟨first, held⟩ := entry
        rw [lookup_cons_of_ne held hne]
        exact ih hdistinct.2 hrest

end Lookup

/-- What a reader sees of a feed. -/
structure Shelf where
  queue : List (List Event)
  closed : Bool

def Feed.shelf (feed : Feed) : Shelf := ⟨feed.queue, feed.closed⟩

structure Outline where
  maxReplay : Nat
  stored : Bool
  history : List Notice
  calls : List Call
  nextId : ConsumerId
  commands : List Command
  coordinator : Coordinator
  publishes : Nat
  registry : List Consumer
  shelf : ConsumerId → Option Shelf
  task : TaskId → Option Task
  nextTask : TaskId

namespace Outline

@[simps] def note (o : Outline) (notices : List Notice) : Outline :=
  { o with history := o.history ++ notices }

@[simps] def setShelf (o : Outline) (id : ConsumerId) (shelf : Shelf) : Outline :=
  { o with shelf := Function.update o.shelf id (some shelf) }

@[simps] def setTask (o : Outline) (id : TaskId) (task? : Option Task) : Outline :=
  { o with task := Function.update o.task id task? }

@[simps] def spawn (o : Outline) (task : Task) : Outline :=
  { o.setTask o.nextTask (some task) with nextTask := o.nextTask + 1 }

@[simps] def setCoordinator (o : Outline) (coordinator : Coordinator) : Outline :=
  { o with coordinator }

@[simps] def setRegistry (o : Outline) (registry : List Consumer) : Outline := { o with registry }

@[simps] def stop (o : Outline) (result : Except BusError Unit) : Outline :=
  { o with
    history := o.history ++ [.stopped result]
    commands := []
    coordinator := .stopped result
    registry := [] }

/-- The subscription of the consumer was dropped. -/
def isGone (o : Outline) (id : ConsumerId) : Bool := (o.shelf id).any (·.closed)

/-- What pruning reports. -/
def pruned (o : Outline) : List Notice :=
  (o.registry.filter fun c => o.isGone c.id).map (.pruned ·.id)

@[simps] def prune (o : Outline) : Outline :=
  { o with
    history := o.history ++ o.pruned
    registry := o.registry.filter fun c => !o.isGone c.id }

end Outline

variable {σ : Type}

def outline (bus : Bus σ) (calls : List Call) : Outline where
  maxReplay := bus.settings.maxReplay
  stored := bus.store?.isSome
  history := bus.history
  calls := calls
  nextId := bus.nextId
  commands := bus.commands
  coordinator := bus.coordinator
  publishes := bus.publishes
  registry := bus.registry
  shelf id := (bus.feed? id).map Feed.shelf
  task id := bus.tasks.lookup id
  nextTask := bus.nextTask

def World.outline (world : World σ) : Outline := world.bus.outline world.calls

variable {bus : Bus σ} {calls : List Call}

section Unseen

/-! What leaves the outline as it is. -/

theorem outline_foldl {α : Type} {f : Bus σ → α → Bus σ}
    (h : ∀ bus a, (f bus a).outline calls = bus.outline calls) (as : List α) (bus : Bus σ) :
    (as.foldl f bus).outline calls = bus.outline calls := by
  induction as generalizing bus with
  | nil => rfl
  | cons a as ih => rw [List.foldl_cons, ih, h]

@[simp] theorem outline_wake (actor : Actor) :
    (bus.wake actor).outline calls = bus.outline calls := by
  unfold wake
  split <;> rfl

@[simp] theorem outline_wakeTasks (tasks : List TaskId) :
    (bus.wakeTasks tasks).outline calls = bus.outline calls :=
  outline_foldl (fun _ _ => outline_wake _) tasks bus

@[simp] theorem outline_wakeIf (task? : Option TaskId) :
    (bus.wakeIf task?).outline calls = bus.outline calls := by
  cases task? <;> simp [wakeIf]

@[simp] theorem outline_wakeReceiver : bus.wakeReceiver.outline calls = bus.outline calls := by
  unfold wakeReceiver
  split <;> simp

@[simp] theorem outline_setTimer (deadline : Nat) (actor : Actor) :
    (bus.setTimer deadline actor).outline calls = bus.outline calls := rfl

@[simp] theorem outline_clearTimer (deadline : Nat) (actor : Actor) :
    (bus.clearTimer deadline actor).outline calls = bus.outline calls := rfl

@[simp] theorem outline_letGo (id : ConsumerId) :
    (bus.letGo id).outline calls = bus.outline calls := by
  unfold letGo
  split <;> rfl

@[simp] theorem outline_letGoAll (consumers : List Consumer) :
    (bus.letGoAll consumers).outline calls = bus.outline calls :=
  outline_foldl (fun _ _ => outline_letGo _) consumers bus

@[simp] theorem outline_releaseToken : bus.releaseToken.outline calls = bus.outline calls := by
  unfold releaseToken
  dsimp only
  split
  · exact outline_wake _
  · rfl

@[simp] theorem outline_dropHandle : bus.dropHandle.outline calls = bus.outline calls := by
  unfold dropHandle
  dsimp only
  split
  · exact outline_wakeReceiver
  · rfl

@[simp] theorem outline_cancel : bus.cancel.outline calls = bus.outline calls := by
  have hcanceled : ({ bus with canceled := true }.wakeTasks bus.canceledTasks).outline calls
      = bus.outline calls :=
    outline_wakeTasks _
  unfold cancel
  dsimp only
  split
  · rfl
  · split
    · rw [outline_wake, hcanceled]
    · exact hcanceled

@[simp] theorem outline_mapStore (f : σ → σ) :
    (bus.mapStore f).outline calls = bus.outline calls := by
  simp [mapStore, outline, feed?]

end Unseen

section Feeds

variable {id : ConsumerId}

theorem shelf_of_feed? {feed : Feed} (calls : List Call) (h : bus.feed? id = some feed) :
    (bus.outline calls).shelf id = some feed.shelf := by
  simp [outline, h]

theorem outline_setFeed {old : Feed} (feed : Feed) (h : bus.feed? id = some old) :
    (bus.setFeed id feed).outline calls = (bus.outline calls).setShelf id feed.shelf := by
  have hshelf : (fun other => ((bus.setFeed id feed).feed? other).map Feed.shelf)
      = Function.update (bus.outline calls).shelf id (some feed.shelf) := by
    funext other
    by_cases hother : other = id
    · subst hother
      rw [Function.update_self]
      exact congrArg (Option.map Feed.shelf) (lookup_map_replace feed h)
    · rw [Function.update_of_ne hother]
      exact congrArg (Option.map Feed.shelf) (lookup_map_replace_of_ne feed hother)
  exact congrArg (fun shelf : ConsumerId → Option Shelf => { bus.outline calls with shelf }) hshelf

theorem outline_setFeed_of_shelf_eq {old : Feed} (feed : Feed) (h : bus.feed? id = some old)
    (hshelf : feed.shelf = old.shelf) :
    (bus.setFeed id feed).outline calls = bus.outline calls := by
  rw [outline_setFeed feed h, Outline.setShelf, hshelf, ← shelf_of_feed? calls h,
    Function.update_eq_self]

@[simp] theorem outline_cancelConsumer (id : ConsumerId) :
    (bus.cancelConsumer id).outline calls = bus.outline calls := by
  unfold cancelConsumer
  split
  · rfl
  · split
    next => rfl
    next feed hfeed =>
      rw [outline_wakeTasks]
      exact outline_setFeed_of_shelf_eq _ hfeed rfl

theorem outline_openFeed (places : Nat) (h : (bus.outline calls).shelf id = none) :
    (bus.openFeed id places).outline calls = (bus.outline calls).setShelf id ⟨[], false⟩ := by
  have hid : bus.feeds.lookup id = none := by simpa [outline, feed?] using h
  have hshelf : (fun other => ((bus.openFeed id places).feed? other).map Feed.shelf)
      = Function.update (bus.outline calls).shelf id (some ⟨[], false⟩) := by
    funext other
    simp only [openFeed, feed?, lookup_append_fresh _ hid]
    by_cases hother : other = id
    · subst hother
      rw [if_pos rfl, Function.update_self]
      rfl
    · rw [if_neg hother, Function.update_of_ne hother]
      rfl
  exact congrArg (fun shelf : ConsumerId → Option Shelf => { bus.outline calls with shelf }) hshelf

theorem outline_closeFeed {feed : Feed} (h : bus.feed? id = some feed) :
    (bus.closeFeed id).outline calls = (bus.outline calls).setShelf id ⟨[], true⟩ := by
  have hset : (bus.setFeed id feed.close.1).outline calls
      = (bus.outline calls).setShelf id ⟨[], true⟩ :=
    outline_setFeed feed.close.1 h
  unfold closeFeed
  simp only [h]
  split <;> simp only [outline_wakeReceiver, outline_wakeTasks] <;> exact hset

theorem isGone_outline (calls : List Call) (id : ConsumerId) :
    (bus.outline calls).isGone id = (bus.feed? id).any (·.closed) := by
  simp only [Outline.isGone, outline, Option.any_map]
  rfl

end Feeds

section Tasks

variable {id : TaskId}

theorem outline_setTask {old : Task} (task : Task) (h : bus.tasks.lookup id = some old) :
    (bus.setTask id task).outline calls = (bus.outline calls).setTask id (some task) := by
  have htask : (fun other => (bus.setTask id task).tasks.lookup other)
      = Function.update (bus.outline calls).task id (some task) := by
    funext other
    by_cases hother : other = id
    · subst hother
      rw [Function.update_self]
      exact lookup_map_replace task h
    · rw [Function.update_of_ne hother]
      exact lookup_map_replace_of_ne task hother
  exact congrArg (fun task : TaskId → Option Task => { bus.outline calls with task }) htask

theorem outline_finish (task : Task) :
    (bus.finish id task).outline calls = (bus.outline calls).setTask id none := by
  have htask : (fun other => (bus.tasks.filter (·.1 != id)).lookup other)
      = Function.update (bus.outline calls).task id none := by
    funext other
    rw [lookup_filter_ne, Function.update_apply]
    rfl
  unfold finish
  rw [outline_releaseToken, outline_letGoAll]
  exact congrArg (fun task : TaskId → Option Task => { bus.outline calls with task }) htask

theorem outline_startJob (job : Job) (h : (bus.outline calls).task bus.nextTask = none) :
    (bus.startJob job).outline calls = (bus.outline calls).spawn job.task := by
  have htask : (fun other => (bus.tasks ++ [(bus.nextTask, job.task)]).lookup other)
      = Function.update (bus.outline calls).task bus.nextTask (some job.task) := by
    funext other
    rw [lookup_append_fresh _ h, Function.update_apply]
    rfl
  unfold startJob spawn
  rw [outline_wake]
  exact congrArg (fun task : TaskId → Option Task =>
    { bus.outline calls with task, nextTask := bus.nextTask + 1 }) htask

end Tasks

section Reports

@[simp] theorem outline_note (notice : Notice) :
    (bus.note notice).outline calls = (bus.outline calls).note [notice] := rfl

@[simp] theorem outline_noteAll (notices : List Notice) :
    (bus.noteAll notices).outline calls = (bus.outline calls).note notices := rfl

theorem outline_finishReplay (task : TaskId) (consumer : Consumer) (sent : Nat) :
    (bus.finishReplay task consumer sent).outline calls
      = ((bus.outline calls).note [.replayFinished consumer.id sent]).setTask task none := by
  rw [finishReplay, outline_finish, outline_note]

theorem outline_dropJob (job : Job) :
    (bus.dropJob job).outline calls
      = (bus.outline calls).note [.noWorker job.name .timedOut] := by
  rw [dropJob, outline_note, outline_letGoAll]

theorem outline_stop (result : Except BusError Unit) :
    (bus.stop result).outline calls = (bus.outline calls).stop result := by
  let canceled := bus.registry.foldl (fun bus consumer => bus.cancelConsumer consumer.id) bus
  have hcanceled : canceled.outline calls = bus.outline calls :=
    outline_foldl (fun _ _ => outline_cancelConsumer _) _ bus
  have hcleared : ({ canceled with registry := [] }.letGoAll bus.registry).outline calls
      = (bus.outline calls).setRegistry [] := by
    rw [outline_letGoAll, ← hcanceled]
    rfl
  exact congrArg (fun o : Outline =>
    { o.note [.stopped result] with commands := [], coordinator := .stopped result }) hcleared

/-- What pruning does to a consumer that is gone. -/
def pruneOne (bus : Bus σ) (id : ConsumerId) : Bus σ :=
  let bus := bus.cancelConsumer id
  ({ bus with registry := bus.registry.filter (·.id != id) }.note (.pruned id)).letGo id

theorem outline_pruneOne (id : ConsumerId) :
    (bus.pruneOne id).outline calls
      = ((bus.outline calls).note [.pruned id]).setRegistry
          (bus.registry.filter (·.id != id)) := by
  have hcanceled : (bus.cancelConsumer id).outline calls = bus.outline calls :=
    outline_cancelConsumer _
  have hregistry : (bus.cancelConsumer id).registry = bus.registry :=
    congrArg Outline.registry hcanceled
  rw [pruneOne, outline_letGo, outline_note, ← hcanceled, ← hregistry]
  rfl

/-- Pruning takes out of the registry who is gone, and reports each. -/
theorem outline_pruneEach (consumers : List Consumer) :
    (bus.pruneEach consumers).outline calls
      = ((bus.outline calls).note
          ((consumers.filter fun c => (bus.outline calls).isGone c.id).map
            (.pruned ·.id))).setRegistry
          (bus.registry.filter fun c => !consumers.any fun other =>
            other.id == c.id && (bus.outline calls).isGone other.id) := by
  induction consumers generalizing bus with
  | nil => simp [pruneEach, Outline.note, Outline.setRegistry, outline]
  | cons consumer rest ih =>
      unfold pruneEach
      split
      next hgone =>
        rw [← isGone_outline calls] at hgone
        have hpruned : (bus.pruneOne consumer.id).outline calls = _ := outline_pruneOne _
        have hregistry : (bus.pruneOne consumer.id).registry
            = bus.registry.filter (·.id != consumer.id) := congrArg Outline.registry hpruned
        have hisGone : ((bus.pruneOne consumer.id).outline calls).isGone
            = (bus.outline calls).isGone := by
          rw [hpruned]
          rfl
        have hkept : (bus.registry.filter fun c =>
              (!rest.any fun other => other.id == c.id && (bus.outline calls).isGone other.id)
                && c.id != consumer.id)
            = bus.registry.filter fun c => !(consumer :: rest).any fun other =>
                other.id == c.id && (bus.outline calls).isGone other.id := by
          apply List.filter_congr
          intro other _
          rw [List.any_cons, hgone, Bool.and_true, Bool.not_or, Bool.and_comm, bne, BEq.comm]
        show ((bus.pruneOne consumer.id).pruneEach rest).outline calls = _
        rw [ih, hisGone, hpruned, hregistry, List.filter_filter, hkept]
        simp [hgone, Outline.note, Outline.setRegistry]
      next hgone =>
        rw [← isGone_outline calls] at hgone
        rw [ih]
        simp [hgone]

theorem outline_prune : bus.prune.outline calls = (bus.outline calls).prune := by
  have hkept : (bus.registry.filter fun c => !bus.registry.any fun other =>
        other.id == c.id && (bus.outline calls).isGone other.id)
      = bus.registry.filter fun c => !(bus.outline calls).isGone c.id := by
    apply List.filter_congr
    intro consumer hconsumer
    rw [Bool.not_inj_iff, Bool.eq_iff_iff]
    simp only [List.any_eq_true, Bool.and_eq_true, beq_iff_eq]
    constructor
    · rintro ⟨other, -, hid, hgone⟩
      rwa [hid] at hgone
    · exact fun hgone => ⟨consumer, hconsumer, rfl, hgone⟩
  rw [prune, outline_pruneEach, hkept]
  rfl

end Reports

end EventBus.Bus
