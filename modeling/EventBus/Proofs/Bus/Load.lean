import EventBus.Proofs.Bus.Spares

/-!
What a bus could still be made to do without anything from outside is a load, the bound on the turns
that can follow one another. Whoever wakes another takes something off the load for it: a delivery
that is over, a watcher of a feed that is cancelled, a task that ends. Here are the parts that turns
are made of, and the looks at deliveries.
-/

namespace EventBus.Bus

section Sums

variable {α β : Type} {load : β → Nat}

@[simp] theorem total_nil : total load ([] : List (α × β)) = 0 := rfl

@[simp] theorem total_cons (entry : α × β) (entries : List (α × β)) :
    total load (entry :: entries) = load entry.2 + total load entries := rfl

@[simp] theorem total_append (entries others : List (α × β)) :
    total load (entries ++ others) = total load entries + total load others := by
  induction entries with
  | nil => exact (Nat.zero_add _).symm
  | cons entry entries ih => rw [List.cons_append, total_cons, total_cons, ih, Nat.add_assoc]

variable {entries : List (Nat × β)} {key : Nat} {old : β}

/-- One summand takes the place of another. -/
theorem total_replace (load : β → Nat) (new : β) (hdistinct : (entries.map (·.1)).Nodup)
    (h : entries.lookup key = some old) :
    total load (entries.map fun entry => if entry.1 = key then (key, new) else entry) + load old
      = total load entries + load new := by
  induction entries with
  | nil => cases h
  | cons entry entries ih =>
    obtain ⟨other, held⟩ := entry
    rw [List.map_cons, List.nodup_cons] at hdistinct
    rw [List.map_cons, total_cons]
    by_cases hother : other = key
    · subst hother
      rw [List.lookup_cons_self] at h
      cases h
      have hothers : (entries.map fun entry => if entry.1 = other then (other, new) else entry)
          = entries :=
        map_replace_eq_self fun _ hheld => absurd (List.mem_map_of_mem hheld) hdistinct.1
      rw [hothers, if_pos rfl, total_cons]
      dsimp only
      omega
    · rw [lookup_cons_of_ne _ (Ne.symm hother)] at h
      rw [if_neg hother, total_cons]
      have := ih hdistinct.2 h
      dsimp only
      omega

theorem total_filter_le (keeps : Nat × β → Bool) (entries : List (Nat × β)) :
    total load (entries.filter keeps) ≤ total load entries := by
  induction entries with
  | nil => exact Nat.le_refl _
  | cons entry entries ih =>
    obtain ⟨other, held⟩ := entry
    rw [List.filter_cons, total_cons]
    split
    · rw [total_cons]
      exact Nat.add_le_add_left ih _
    · exact Nat.le_add_left_of_le ih

theorem total_filter_add_le (load : β → Nat) (h : entries.lookup key = some old) :
    total load (entries.filter (·.1 != key)) + load old ≤ total load entries := by
  induction entries with
  | nil => cases h
  | cons entry entries ih =>
    obtain ⟨other, held⟩ := entry
    rw [total_cons]
    by_cases hother : other = key
    · subst hother
      rw [List.lookup_cons_self] at h
      cases h
      rw [List.filter_cons_of_neg (by simp), Nat.add_comm]
      exact Nat.add_le_add_left (total_filter_le _ entries) _
    · rw [lookup_cons_of_ne _ (Ne.symm hother)] at h
      rw [List.filter_cons_of_pos (by simpa using hother), total_cons, Nat.add_assoc]
      exact Nat.add_le_add_left (ih h) _

end Sums

variable {σ : Type} {bus bus' bus'' : Bus σ}

/-- Tasks and feeds are told apart by their numbers, also from those to come. -/
structure Keyed (bus : Bus σ) : Prop where
  tasks : (bus.tasks.map (·.1)).Nodup
  fresh : ∀ entry ∈ bus.tasks, entry.1 < bus.nextTask
  feeds : (bus.feeds.map (·.1)).Nodup

/-- On the way from a bus to another some load is taken off, and some put on. -/
structure Shifts (less more : Nat) (bus bus' : Bus σ) : Prop where
  now : bus'.now = bus.now
  keyed : Keyed bus → Keyed bus'
  bound : Keyed bus → bus'.turnBound + less ≤ bus.turnBound + more

namespace Shifts

variable {less more less' more' : Nat}

theorem refl (bus : Bus σ) : Shifts 0 0 bus bus := ⟨rfl, id, fun _ => Nat.le_refl _⟩

theorem trans (first : Shifts less more bus bus') (second : Shifts less' more' bus' bus'') :
    Shifts (less + less') (more + more') bus bus'' where
  now := second.now.trans first.now
  keyed keyed := second.keyed (first.keyed keyed)
  bound keyed := by
    have hfirst := first.bound keyed
    have hsecond := second.bound (first.keyed keyed)
    omega

theorem after (quiet : Shifts 0 0 bus bus') (second : Shifts less more bus' bus'') :
    Shifts less more bus bus'' where
  now := second.now.trans quiet.now
  keyed keyed := second.keyed (quiet.keyed keyed)
  bound keyed := Nat.le_trans (second.bound (quiet.keyed keyed))
    (Nat.add_le_add_right (quiet.bound keyed) more)

/-- What is put on is made up for by what is taken off. -/
theorem weaken (shifts : Shifts less more bus bus') (h : more + less' ≤ less + more') :
    Shifts less' more' bus bus' where
  now := shifts.now
  keyed := shifts.keyed
  bound keyed := by
    have := shifts.bound keyed
    omega

end Shifts

section Parts

/-- What counts for the load. -/
def burden (bus : Bus σ) : Bus σ :=
  { create bus.settings none with
    now := bus.now
    commands := bus.commands
    coordinator := bus.coordinator
    registry := bus.registry
    feeds := bus.feeds
    tasks := bus.tasks
    nextTask := bus.nextTask
    ready := bus.ready }

theorem shifts_of_burden (h : bus'.burden = bus.burden) : Shifts 0 0 bus bus' := by
  have same : Shifts 0 0 bus.burden bus'.burden := h ▸ .refl _
  have hkeyed : Keyed bus → Keyed bus.burden := fun keyed =>
    ⟨keyed.tasks, keyed.fresh, keyed.feeds⟩
  refine ⟨same.now, fun keyed => ?_, fun keyed => same.bound (hkeyed keyed)⟩
  obtain ⟨tasks, fresh, feeds⟩ := same.keyed (hkeyed keyed)
  exact ⟨tasks, fresh, feeds⟩

theorem turnBound_ready (ready : List Actor) :
    { bus with ready }.turnBound + bus.ready.length = bus.turnBound + ready.length := by
  unfold turnBound
  dsimp only
  omega

theorem turnBound_tasks (tasks : List (TaskId × Task)) (nextTask : TaskId) :
    { bus with tasks, nextTask }.turnBound + total (Task.load bus.now) bus.tasks
      = bus.turnBound + total (Task.load bus.now) tasks := by
  unfold turnBound
  dsimp only
  omega

theorem turnBound_feeds (feeds : List (ConsumerId × Feed)) :
    { bus with feeds }.turnBound + total Feed.load bus.feeds
      = bus.turnBound + total Feed.load feeds := by
  unfold turnBound
  dsimp only
  omega

theorem shifts_ready {ready : List Actor} {more : Nat} (h : ready.length ≤ bus.ready.length + more) :
    Shifts 0 more bus { bus with ready } where
  now := rfl
  keyed keyed := ⟨keyed.tasks, keyed.fresh, keyed.feeds⟩
  bound _ := by
    have hbound := @turnBound_ready σ bus ready
    omega

theorem shifts_wake (actor : Actor) : Shifts 0 1 bus (bus.wake actor) := by
  unfold wake
  split
  · exact (Shifts.refl bus).weaken (Nat.zero_le _)
  · exact shifts_ready (Nat.le_of_eq List.length_append)

theorem shifts_wakeIf (task? : Option TaskId) :
    Shifts 0 task?.toList.length bus (bus.wakeIf task?) := by
  cases task? with
  | none => exact .refl bus
  | some task => exact shifts_wake _

theorem shifts_wakeTasks (tasks : List TaskId) : Shifts 0 tasks.length bus (bus.wakeTasks tasks) := by
  induction tasks generalizing bus with
  | nil => exact .refl bus
  | cons task tasks ih =>
    have hwoken : Shifts 0 1 bus (bus.wake (.task task)) := shifts_wake _
    exact (hwoken.trans ih).weaken (by rw [List.length_cons]; omega)

theorem shifts_setFeed {id : ConsumerId} {old : Feed} (feed : Feed) (h : bus.feed? id = some old) :
    Shifts old.load feed.load bus (bus.setFeed id feed) where
  now := rfl
  keyed keyed := ⟨keyed.tasks, keyed.fresh, (keys_setFeed bus id feed).symm ▸ keyed.feeds⟩
  bound keyed := by
    have hsum : total Feed.load (bus.setFeed id feed).feeds + old.load
        = total Feed.load bus.feeds + feed.load := total_replace Feed.load feed keyed.feeds h
    have hbound : (bus.setFeed id feed).turnBound + total Feed.load bus.feeds
        = bus.turnBound + total Feed.load (bus.setFeed id feed).feeds := turnBound_feeds _
    omega

theorem shifts_setTask {task : TaskId} {held : Task} (held' : Task)
    (h : bus.tasks.lookup task = some held) :
    Shifts (held.load bus.now) (held'.load bus.now) bus (bus.setTask task held') where
  now := rfl
  keyed keyed := by
    have hkeys : (bus.setTask task held').tasks.map (·.1) = bus.tasks.map (·.1) :=
      keys_map_replace held'
    refine ⟨hkeys.symm ▸ keyed.tasks, fun entry hentry => ?_, keyed.feeds⟩
    have hkey := hkeys ▸ List.mem_map_of_mem hentry
    obtain ⟨old, hold, hsame⟩ := List.mem_map.mp hkey
    exact hsame ▸ keyed.fresh old hold
  bound keyed := by
    have hsum : total (Task.load bus.now) (bus.setTask task held').tasks + held.load bus.now
        = total (Task.load bus.now) bus.tasks + held'.load bus.now :=
      total_replace (Task.load bus.now) held' keyed.tasks h
    have hbound : (bus.setTask task held').turnBound + total (Task.load bus.now) bus.tasks
        = bus.turnBound + total (Task.load bus.now) (bus.setTask task held').tasks :=
      turnBound_tasks _ _
    omega

theorem shifts_endTask {task : TaskId} {held : Task} (h : bus.tasks.lookup task = some held) :
    Shifts (held.load bus.now) 0 bus { bus with tasks := bus.tasks.filter (·.1 != task) } where
  now := rfl
  keyed keyed :=
    ⟨keyed.tasks.sublist (List.filter_sublist.map _),
      fun entry hentry => keyed.fresh entry (List.mem_filter.mp hentry).1, keyed.feeds⟩
  bound _ := by
    let ended : Bus σ := { bus with tasks := bus.tasks.filter (·.1 != task) }
    have hsum : total (Task.load bus.now) ended.tasks + held.load bus.now
        ≤ total (Task.load bus.now) bus.tasks := total_filter_add_le (Task.load bus.now) h
    have hbound : ended.turnBound + total (Task.load bus.now) bus.tasks
        = bus.turnBound + total (Task.load bus.now) ended.tasks := turnBound_tasks _ _
    show ended.turnBound + _ ≤ _
    omega

theorem shifts_note (notice : Notice) : Shifts 0 0 bus (bus.note notice) := shifts_of_burden rfl

theorem shifts_noteAll (notices : List Notice) : Shifts 0 0 bus (bus.noteAll notices) :=
  shifts_of_burden rfl

theorem shifts_setTimer (deadline : Nat) (actor : Actor) :
    Shifts 0 0 bus (bus.setTimer deadline actor) := shifts_of_burden rfl

theorem shifts_clearTimer (deadline : Nat) (actor : Actor) :
    Shifts 0 0 bus (bus.clearTimer deadline actor) := shifts_of_burden rfl

theorem shifts_letGo (id : ConsumerId) : Shifts 0 0 bus (bus.letGo id) := by
  unfold letGo
  split
  · exact .refl bus
  · exact shifts_of_burden rfl

theorem shifts_letGoAll (consumers : List Consumer) : Shifts 0 0 bus (bus.letGoAll consumers) := by
  induction consumers generalizing bus with
  | nil => exact .refl bus
  | cons consumer consumers ih => exact (shifts_letGo consumer.id).trans ih

theorem shifts_releaseToken : Shifts 0 1 bus bus.releaseToken := by
  unfold releaseToken
  dsimp only
  have hpool : Shifts 0 0 bus { bus with pool := bus.pool.release.1 } := shifts_of_burden rfl
  split
  · exact (hpool.trans (shifts_wake _)).weaken (Nat.le_refl _)
  · exact hpool.weaken (Nat.zero_le _)

/-- A task that ends makes up for the turn of whoever gets its token. -/
theorem shifts_finish {task : TaskId} {held : Task} (h : bus.tasks.lookup task = some held)
    (last : Task) : Shifts (held.load bus.now) 1 bus (bus.finish task last) := by
  have hended := (shifts_endTask h).trans (shifts_letGoAll last.consumers)
  exact (hended.trans shifts_releaseToken).weaken (by omega)

theorem shifts_spawn (task : Task) : Shifts 0 (task.load bus.now + 1) bus (bus.spawn task) := by
  let begun : Bus σ := { bus with
    tasks := bus.tasks ++ [(bus.nextTask, task)]
    nextTask := bus.nextTask + 1 }
  have hbegun : Shifts 0 (task.load bus.now) bus begun := by
    refine ⟨rfl, fun keyed => ⟨?_, fun entry hentry => ?_, keyed.feeds⟩, fun _ => ?_⟩
    · show ((bus.tasks ++ _).map _).Nodup
      rw [List.map_append]
      refine List.nodup_append.mpr ⟨keyed.tasks, List.nodup_singleton _, fun id hid other hother => ?_⟩
      obtain ⟨entry, hentry, rfl⟩ := List.mem_map.mp hid
      rw [List.mem_singleton.mp hother]
      exact Nat.ne_of_lt (keyed.fresh entry hentry)
    · rcases List.mem_append.mp hentry with hold | hnew
      · exact Nat.lt_succ_of_lt (keyed.fresh entry hold)
      · rw [List.mem_singleton.mp hnew]
        exact Nat.lt_succ_self _
    · have hbound : begun.turnBound + _ = _ := turnBound_tasks _ _
      rw [total_append] at hbound
      change _ = _ + (_ + task.load bus.now) at hbound
      omega
  exact (hbegun.trans (shifts_wake _)).weaken (by omega)

/-- Whoever gets a turn because a consumer is cancelled is no longer to be woken for that. -/
theorem shifts_cancelConsumer (id : ConsumerId) : Shifts 0 0 bus (bus.cancelConsumer id) := by
  unfold cancelConsumer
  split
  next => exact .refl bus
  next hlive =>
    split
    next => exact .refl bus
    next feed hfeed =>
      have hbefore : feed.canceled = false := by
        simp only [isCanceled, hfeed, Bool.or_eq_true, not_or] at hlive
        simpa using hlive.2
      refine ((shifts_setFeed _ hfeed).trans (shifts_wakeTasks feed.watchers)).weaken ?_
      simp only [Feed.load, hbefore, if_true, Bool.false_eq_true, if_false]
      omega

end Parts

section Looks

variable {task : TaskId} {consumer : Consumer} {origin : Origin} {batch selected : List Event}
  {deadline : Nat} {canceled : Bool} {now timeout : Nat}

/-- What the end of a delivery leaves for the next one, if that may follow. -/
def Leg.slack : Leg → Nat
  | .done (.delivered _) => 2
  | .done .skipped => 2
  | .done .timedOut => 2
  | _ => 0

theorem Leg.slack_of_passed {leg : Leg} {events : Nat} (h : leg.passed? = some events) :
    leg.slack = 2 := by
  unfold Leg.passed? at h
  split at h <;> first | rfl | cases h

@[simp] theorem Leg.load_done (now : Nat) (outcome : Outcome) :
    (Leg.done outcome).load now = 0 := rfl

theorem Leg.load_pos (now : Nat) : 0 < (Leg.waiting selected deadline).load now := by
  unfold Leg.load
  dsimp only
  split <;> omega

/-- Nothing is left of a look but a wait, or room for the next delivery. -/
theorem Feed.offer_load (feed : Feed) :
    (feed.offer task canceled now timeout selected).2.load
        + (feed.offer task canceled now timeout selected).1.load now
        + (feed.offer task canceled now timeout selected).1.slack
      ≤ feed.load + Leg.fresh.load now := by
  unfold Feed.offer
  split
  · exact Nat.le_refl _
  · split
    · exact Nat.le_add_right _ _
    · split
      · exact Nat.le_add_right _ _
      · split
        next places hplaces =>
          obtain ⟨-, -, hgranted⟩ := Semaphore.free_of_take? hplaces
          simp only [Feed.load, Feed.push, hgranted, Leg.load, Leg.slack]
          exact Nat.le_refl _
        next =>
          split
          · exact Nat.le_refl _
          next hpatient =>
            have hlate : ¬now + timeout ≤ now := by omega
            simp only [Feed.load, Semaphore.wait, Leg.load, Leg.slack, if_neg hlate,
              List.length_append, List.length_singleton]
            split <;> omega

theorem Feed.leave_load (feed : Feed) (task : TaskId) : (feed.leave task).1.load ≤ feed.load := by
  have hwatchers : (feed.watchers.erase task).length ≤ feed.watchers.length :=
    List.erase_sublist.length_le
  have hgranted := feed.places.length_granted_leave task
  unfold Feed.leave Feed.load
  dsimp only
  split <;> omega

theorem length_toList_le {α : Type} (a? : Option α) : a?.toList.length ≤ 1 := by
  cases a? <;> simp

/-- A batch that goes into a place kept for it wakes no one. -/
theorem Feed.redeem_load {feed : Feed} (h : feed.places.isGranted task = true) :
    Feed.load (Feed.push { feed with
      places := feed.places.redeem task
      watchers := feed.watchers.erase task } selected) + 1 ≤ feed.load := by
  have hmem := Semaphore.isGranted_iff.mp h
  have hpos := List.length_pos_of_mem hmem
  have hgranted : (feed.places.redeem task).granted.length = feed.places.granted.length - 1 :=
    List.length_erase_of_mem hmem
  have hwatchers : (feed.watchers.erase task).length ≤ feed.watchers.length :=
    List.erase_sublist.length_le
  unfold Feed.push Feed.load
  dsimp only
  rw [hgranted]
  split <;> omega

/-- A place that passes on gives its new owner a turn, in exchange for that of the party at work. -/
theorem Feed.retry_load (feed : Feed) :
    (feed.retry task canceled now selected deadline).2.1.load
        + (feed.retry task canceled now selected deadline).2.2.toList.length
        + (feed.retry task canceled now selected deadline).1.load now
        + (feed.retry task canceled now selected deadline).1.slack
      ≤ feed.load + (Leg.waiting selected deadline).load now := by
  have hleft := feed.leave_load task
  have hnext := length_toList_le (feed.leave task).2
  have hpos : 0 < (Leg.waiting selected deadline).load now := Leg.load_pos now
  have hover : (feed.leave task).1.load + (feed.leave task).2.toList.length
      ≤ feed.load + (Leg.waiting selected deadline).load now :=
    Nat.add_le_add hleft (Nat.le_trans hnext hpos)
  unfold Feed.retry
  split
  · exact hover
  · split
    · exact hover
    · split
      next hkept =>
        have hput := @Feed.redeem_load task selected feed hkept
        simp only [Option.toList_none, List.length_nil, Leg.slack, Leg.load_done]
        omega
      next hkept =>
        split
        next hdue =>
          have hnone : (feed.leave task).2 = none := by
            unfold Feed.leave Semaphore.leave
            rw [if_neg hkept]
          have hload : (Leg.waiting selected deadline).load now = 2 := if_pos hdue
          rw [hload, hnone]
          exact Nat.add_le_add_right hleft 2
        next => exact Nat.le_refl _

theorem shifts_recordLeg (id : ConsumerId) (selected : List Event) (origin : Origin) (leg : Leg) :
    Shifts 0 0 bus (bus.recordLeg id selected origin leg) := by
  unfold recordLeg
  split
  · exact shifts_note _
  · exact .refl bus

theorem shifts_beginLeg :
    Shifts ((bus.beginLeg task consumer origin batch).1.load bus.now
        + (bus.beginLeg task consumer origin batch).1.slack)
      (Leg.fresh.load bus.now) bus (bus.beginLeg task consumer origin batch).2 := by
  unfold beginLeg
  split
  next => exact (Shifts.refl bus).weaken (Nat.zero_le _)
  next feed hfeed =>
    let offered := feed.offer task (bus.isCanceled consumer.id) bus.now
      bus.settings.consumerTimeout (consumer.query.select batch)
    have hload : offered.2.load + offered.1.load bus.now + offered.1.slack
        ≤ feed.load + Leg.fresh.load bus.now := feed.offer_load
    have hset := shifts_setFeed offered.2 hfeed
    have hrecorded := hset.trans (shifts_recordLeg consumer.id (consumer.query.select batch) origin
      offered.1)
    have hlooked : Shifts (offered.1.load bus.now + offered.1.slack) (Leg.fresh.load bus.now) bus _ :=
      hrecorded.weaken (by omega)
    dsimp only
    split
    · exact hlooked.trans (shifts_setTimer _ _)
    · exact hlooked

theorem shifts_reviewLeg :
    Shifts ((bus.reviewLeg task consumer origin selected deadline).1.load bus.now
        + (bus.reviewLeg task consumer origin selected deadline).1.slack)
      ((Leg.waiting selected deadline).load bus.now) bus
      (bus.reviewLeg task consumer origin selected deadline).2 := by
  unfold reviewLeg
  split
  next => exact (Shifts.refl bus).weaken (Nat.zero_le _)
  next feed hfeed =>
    let retried := feed.retry task (bus.isCanceled consumer.id) bus.now selected deadline
    have hload : retried.2.1.load + retried.2.2.toList.length + retried.1.load bus.now
        + retried.1.slack ≤ feed.load + (Leg.waiting selected deadline).load bus.now :=
      feed.retry_load
    have hset := shifts_setFeed retried.2.1 hfeed
    have hrecorded := hset.trans (shifts_recordLeg consumer.id selected origin retried.1)
    have hwoken := hrecorded.trans (shifts_wakeIf retried.2.2)
    have hlooked : Shifts (retried.1.load bus.now + retried.1.slack)
        ((Leg.waiting selected deadline).load bus.now) bus _ := hwoken.weaken (by omega)
    dsimp only
    split
    · exact hlooked.trans (shifts_clearTimer _ _)
    · exact hlooked

theorem shifts_advanceLeg (leg : Leg) :
    Shifts ((bus.advanceLeg task consumer origin batch leg).1.load bus.now) (leg.load bus.now)
      bus (bus.advanceLeg task consumer origin batch leg).2 := by
  cases leg with
  | fresh => exact shifts_beginLeg.weaken (by simp only [advanceLeg]; omega)
  | waiting selected deadline => exact shifts_reviewLeg.weaken (by simp only [advanceLeg]; omega)
  | done outcome => exact .refl bus

end Looks

end EventBus.Bus
