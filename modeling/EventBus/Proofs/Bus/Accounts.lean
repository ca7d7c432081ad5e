import EventBus.Proofs.Bus.Changes
import Mathlib.Data.List.Nodup

/-!
Tokens and places are accounted for. Every task holds one worker token, and the other tokens are
free or kept for the coordinator. Whoever waits for a place in a feed is a delivery of a task
that has not ended, and as long as a feed is open its places are taken by batches, free, or kept
for a delivery.
-/

namespace EventBus.Bus

def Coordinator.isAcquiring : Coordinator → Bool
  | .acquiring _ _ => true
  | _ => false

/-- The places of a feed, those taken by batches included. -/
def Room.capacity (room : Room) : Nat := room.queue.length + room.places.spare

theorem capacity_ofPlaces (places : Nat) : (Feed.ofPlaces places).room.capacity = max 1 places := by
  simp [Feed.ofPlaces, Feed.room, Room.capacity, Semaphore.ofPermits, Semaphore.spare]

namespace Ledger

/-- How many deliveries of a task wait for a place in the feed of the consumer. -/
def waits (l : Ledger) (task : TaskId) (id : ConsumerId) : Nat :=
  ((l.tasks.lookup task).map fun held => waitsFor held.legs id).getD 0

/-- How often a task waits at the feed of the consumer, or has a place kept for it. -/
def claims (l : Ledger) (task : TaskId) (id : ConsumerId) : Nat :=
  ((l.room id).map fun room => room.places.claims task).getD 0

end Ledger

structure TokenLaw (l : Ledger) : Prop where
  distinct : (l.tasks.map (·.1)).Nodup
  fresh : ∀ entry ∈ l.tasks, entry.1 < l.nextTask
  conserved : l.pool.tokens.spare + l.tasks.length = l.pool.size
  asked : l.pool.tokens.claims () = if l.coordinator.isAcquiring then 1 else 0

structure PlaceLaw (l : Ledger) : Prop where
  claims : ∀ task id, l.claims task id = l.waits task id
  orderly : ∀ id room, l.room id = some room → room.places.Orderly
  space : ∀ id room, l.room id = some room → room.closed = false → 0 < room.capacity

variable {l l' : Ledger} {task : TaskId} {id : ConsumerId} {origin : Origin} {leg leg' : Leg}
  {held held' : Task}

/-- A look touches the feed and the reports only. -/
theorem Ledger.Looked.eq (hlook : l.Looked task id origin leg leg' l') :
    l' = { l with history := l'.history, room := l'.room } := by
  cases hlook <;> rfl

section Tokens

theorem TokenLaw.of_eq (law : TokenLaw l) (htasks : l'.tasks.map (·.1) = l.tasks.map (·.1))
    (hnextTask : l'.nextTask = l.nextTask) (hpool : l'.pool = l.pool)
    (hcoordinator : l'.coordinator.isAcquiring = l.coordinator.isAcquiring) : TokenLaw l' where
  distinct := htasks ▸ law.distinct
  fresh := by
    have hfresh : ∀ key ∈ l'.tasks.map (·.1), key < l'.nextTask := by
      rw [htasks, hnextTask]
      exact List.forall_mem_map.mpr law.fresh
    exact List.forall_mem_map.mp hfresh
  conserved := by
    have hlength := congrArg List.length htasks
    rw [List.length_map, List.length_map] at hlength
    rw [hpool, hlength]
    exact law.conserved
  asked := by
    rw [hpool, hcoordinator]
    exact law.asked

/-- A token is kept for the coordinator only while it waits for one. -/
theorem TokenLaw.granted_eq_nil (law : TokenLaw l) (h : l.coordinator.isAcquiring = false) :
    l.pool.tokens.granted = [] := by
  have hasked := law.asked
  rw [h, if_neg nofun, Semaphore.claims, List.count_eq_zero, List.mem_append, not_or] at hasked
  exact List.eq_nil_iff_forall_not_mem.mpr fun _ => hasked.2

theorem TokenLaw.available_add (law : TokenLaw l) (h : l.pool.tokens.granted = []) :
    l.pool.available + l.tasks.length = l.pool.size := by
  have hspare : l.pool.tokens.spare = l.pool.available := by
    rw [Semaphore.spare, h]
    rfl
  exact hspare ▸ law.conserved

theorem map_fst_setTask (l : Ledger) (task : TaskId) (held : Task) :
    (l.setTask task held).tasks.map (·.1) = l.tasks.map (·.1) := by
  rw [Ledger.setTask_tasks]
  exact keys_map_replace held

theorem TokenLaw.lookup_nextTask (law : TokenLaw l) : l.tasks.lookup l.nextTask = none := by
  rw [List.lookup_eq_none_iff]
  intro entry hentry
  simpa using Nat.ne_of_gt (law.fresh entry hentry)

theorem TokenLaw.spawn {without : Ledger} (law : TokenLaw l) (held : Task)
    (htasks : without.tasks = l.tasks) (hnextTask : without.nextTask = l.nextTask)
    (hsize : without.pool.size = l.pool.size)
    (hspare : without.pool.tokens.spare + 1 = l.pool.tokens.spare)
    (hasked : without.pool.tokens.claims () = if without.coordinator.isAcquiring then 1 else 0) :
    TokenLaw (without.spawn held) where
  distinct := by
    have hnew : l.nextTask ∉ l.tasks.map (·.1) := by
      intro hmem
      obtain ⟨entry, hentry, hkey⟩ := List.mem_map.mp hmem
      exact Nat.lt_irrefl _ (hkey ▸ law.fresh entry hentry)
    rw [Ledger.spawn_tasks, htasks, hnextTask, List.map_append]
    exact List.nodup_append'.mpr
      ⟨law.distinct, List.nodup_singleton _, List.disjoint_singleton.mpr hnew⟩
  fresh entry hentry := by
    rw [Ledger.spawn_tasks, htasks, hnextTask] at hentry
    rw [Ledger.spawn_nextTask, hnextTask]
    rcases List.mem_append.mp hentry with hentry | hentry
    · exact Nat.lt_succ_of_lt (law.fresh entry hentry)
    · rw [List.mem_singleton.mp hentry]
      exact Nat.lt_succ_self _
  conserved := by
    have hconserved := law.conserved
    rw [Ledger.spawn_tasks, Ledger.spawn_pool, htasks, List.length_append, List.length_singleton]
    omega
  asked := hasked

theorem length_endTask (hdistinct : (l.tasks.map (·.1)).Nodup)
    (h : l.tasks.lookup task = some held) :
    (l.endTask task).tasks.length + 1 = l.tasks.length := by
  obtain ⟨before, after, htasks, -⟩ := List.lookup_eq_some_iff.mp h
  rw [htasks, List.map_append, List.map_cons, List.nodup_middle, List.nodup_cons,
    ← List.map_append] at hdistinct
  have hothers : (before ++ after).filter (·.1 != task) = before ++ after := by
    rw [List.filter_eq_self]
    intro entry hentry
    have hkey : entry.1 ≠ task :=
      fun hkey => hdistinct.1 (List.mem_map.mpr ⟨entry, hentry, hkey⟩)
    simpa using hkey
  have hkept : (before ++ (task, held) :: after).filter (·.1 != task)
      = (before ++ after).filter (·.1 != task) := by
    simp [List.filter_append]
  rw [Ledger.endTask_tasks, htasks, hkept, hothers]
  simp only [List.length_append, List.length_cons]
  omega

theorem TokenLaw.finish (law : TokenLaw l) (h : l.tasks.lookup task = some held) :
    TokenLaw (l.endTask task) where
  distinct := law.distinct.sublist (List.filter_sublist.map _)
  fresh entry hentry := law.fresh entry (List.mem_of_mem_filter hentry)
  conserved := by
    have hconserved := law.conserved
    have hlength := length_endTask law.distinct h
    have hspare : (l.endTask task).pool.tokens.spare = l.pool.tokens.spare + 1 :=
      Semaphore.spare_release _
    have hsize : (l.endTask task).pool.size = l.pool.size := rfl
    omega
  asked := (Semaphore.claims_release _ _).trans law.asked

theorem TokenLaw.coordinate (law : TokenLaw l) (change : CoordinatorChange l l') : TokenLaw l' := by
  have hasked := law.asked
  cases change with
  | start h | begin h | discard h | stop h _ =>
      exact law.of_eq rfl rfl rfl (congrArg Coordinator.isAcquiring h).symm
  | publish _ _ | known _ _ _ | enroll _ _ _ | expel _ _ _ | ignore _ _ _ | prune _ _ =>
      exact law.of_eq rfl rfl rfl rfl
  | ask deadline h hheld hnone =>
      rw [h] at hasked
      exact ⟨law.distinct, law.fresh, law.conserved,
        (Semaphore.claims_wait_self _ _).trans (congrArg (· + 1) hasked)⟩
  | launch h hheld htoken =>
      exact law.spawn _ rfl rfl rfl (Semaphore.spare_of_take? htoken)
        ((Semaphore.claims_of_take? htoken ()).trans hasked)
  | redeem h hkept =>
      rw [h] at hasked
      have hclaims := Semaphore.claims_redeem_self hkept
      rw [hasked] at hclaims
      exact law.spawn _ rfl rfl rfl (Semaphore.spare_redeem hkept) (Nat.succ.inj hclaims)
  | desist h =>
      rw [h] at hasked
      have hclaims := Semaphore.claims_leave_self (Nat.lt_of_lt_of_eq Nat.one_pos hasked.symm)
      rw [hasked] at hclaims
      have hspare : (l.pool.leave ()).1.tokens.spare = l.pool.tokens.spare :=
        Semaphore.spare_leave _ _
      refine ⟨law.distinct, law.fresh, ?_, Nat.succ.inj hclaims⟩
      exact (congrArg (· + l.tasks.length) hspare).trans law.conserved

theorem TokenLaw.change (law : TokenLaw l) (change : Change l l') : TokenLaw l' := by
  cases change with
  | report _ => exact law.of_eq rfl rfl rfl rfl
  | call change => cases change <;> exact law.of_eq rfl rfl rfl rfl
  | coordinate change => exact law.coordinate change
  | work change =>
      cases change with
      | @look task held held' _ _ _ _ looked h hturn hlook =>
          rw [hlook.eq]
          exact law.of_eq (map_fst_setTask l task held') rfl rfl rfl
      | proceed h hnext => exact law.of_eq (map_fst_setTask l _ _) rfl rfl rfl
      | finish h hdone => exact law.finish h

/-- No token is made or destroyed. -/
theorem Change.size (change : Change l l') : l'.pool.size = l.pool.size := by
  cases change with
  | report _ => rfl
  | call change => cases change <;> rfl
  | coordinate change => cases change <;> rfl
  | work change =>
      cases change with
      | look _ _ hlook =>
          rw [hlook.eq]
          rfl
      | proceed _ _ | finish _ _ => rfl

end Tokens

section Places

/-- What can become of a feed that is there: its places are kept count of while it is open. -/
structure Room.Follows (room room' : Room) : Prop where
  orderly : room.places.Orderly → room'.places.Orderly
  closed : room'.closed = false → room.closed = false
  capacity : room'.closed = false → room'.capacity = room.capacity

/-- What can become of a feed, or of its not being there. -/
inductive RoomStep : Option Room → Option Room → Prop where
  | none : RoomStep none none
  | opened (places : Nat) : RoomStep none (some (Feed.ofPlaces places).room)
  | follows {room room' : Room} (h : room.Follows room') : RoomStep (some room) (some room')

variable {room room' : Room} {room? : Option Room} {put : List (List Event)} {canceled : Bool}

theorem Room.Follows.refl (room : Room) : room.Follows room := ⟨id, id, fun _ => rfl⟩

theorem Room.Follows.trans {room₁ room₂ room₃ : Room} (first : room₁.Follows room₂)
    (second : room₂.Follows room₃) : room₁.Follows room₃ where
  orderly orderly := second.orderly (first.orderly orderly)
  closed hopen := first.closed (second.closed hopen)
  capacity hopen := (second.capacity hopen).trans (first.capacity (second.closed hopen))

theorem RoomStep.refl (room? : Option Room) : RoomStep room? room? := by
  cases room? with
  | none => exact .none
  | some room => exact .follows (.refl room)

theorem RoomStep.isSome {room room' : Option Room} (step : RoomStep room room')
    (h : room.isSome = true) : room'.isSome = true := by
  cases step with
  | none => cases h
  | opened _ => rfl
  | follows _ => rfl

theorem Look.follows (hlook : Look task canceled room leg leg' room' put) : room.Follows room' := by
  cases hlook with
  | stays _ _ => exact .refl room
  | ends _ => exact .refl room
  | leaves _ _ _ =>
      exact ⟨fun orderly => Semaphore.orderly_leave orderly task, id,
        fun _ => congrArg (room.queue.length + ·) (Semaphore.spare_leave _ _)⟩
  | waits _ _ hfull => exact ⟨fun _ => Semaphore.orderly_wait hfull task, id, fun _ => rfl⟩
  | putsAtOnce selected hcanceled hopen hplace =>
      refine ⟨Semaphore.orderly_of_take? hplace, id, fun _ => ?_⟩
      have hspare := Semaphore.spare_of_take? hplace
      simp only [Room.capacity, List.length_append, List.length_singleton]
      omega
  | putsAfterWait selected deadline hcanceled hopen hkept =>
      refine ⟨fun orderly => Semaphore.orderly_redeem orderly task, id, fun _ => ?_⟩
      have hspare := Semaphore.spare_redeem hkept
      simp only [Room.capacity, List.length_append, List.length_singleton]
      omega

theorem RoomStep.update (h : RoomStep (l.room id) (some room)) (other : ConsumerId) :
    RoomStep (l.room other) (Function.update l.room id (some room) other) := by
  by_cases hother : other = id
  · subst hother
    rwa [Function.update_self]
  · rw [Function.update_of_ne hother]
    exact .refl _

theorem Change.roomStep (change : Change l l') (reader : ConsumerId) :
    RoomStep (l.room reader) (l'.room reader) := by
  cases change with
  | report _ => exact .refl _
  | coordinate change => cases change <;> exact .refl _
  | call change =>
      cases change with
      | send _ _ | cancel => exact .refl _
      | @subscribe other query _ places =>
          refine RoomStep.update ?_ reader
          show RoomStep (l.room other) (some ((l.room other).getD (Feed.ofPlaces places).room))
          cases l.room other with
          | none => exact .opened places
          | some room => exact .refl _
      | @receive other batch queue places closed h =>
          refine RoomStep.update ?_ reader
          rw [h]
          refine .follows ⟨Semaphore.orderly_release, id, fun _ => ?_⟩
          have hspare := Semaphore.spare_release places
          simp only [Room.capacity, List.length_cons]
          omega
      | @close other room h =>
          refine RoomStep.update ?_ reader
          rw [h]
          exact .follows ⟨id, nofun, nofun⟩
  | work change =>
      cases change with
      | proceed _ _ | finish _ _ => exact .refl _
      | look h hturn hlook =>
          cases hlook with
          | ended _ _ | without _ _ => exact .refl _
          | within hroom hlook => exact RoomStep.update (hroom ▸ .follows hlook.follows) reader

/-- A feed that is there stays, and has as many places as before while it is open. -/
theorem Changes.follows (changes : Changes l l') (h : l.room id = some room) :
    ∃ room', l'.room id = some room' ∧ room.Follows room' := by
  induction changes with
  | refl => exact ⟨room, h, .refl room⟩
  | @tail middle last _ change ih =>
      obtain ⟨between, hbetween, hfollows⟩ := ih
      have hstep := change.roomStep id
      rw [hbetween] at hstep
      generalize hlast : last.room id = room? at hstep
      cases hstep with
      | follows hnext => exact ⟨_, rfl, hfollows.trans hnext⟩

/-- A place is claimed for as long as the delivery waits. -/
theorem Look.claims_self (hlook : Look task canceled room leg leg' room' put)
    (consumer : Consumer)
    (hclaims : waitsFor [(consumer, leg)] consumer.id ≤ room.places.claims task) :
    room'.places.claims task + waitsFor [(consumer, leg)] consumer.id
      = room.places.claims task + waitsFor [(consumer, leg')] consumer.id := by
  have hidle : ∀ leg : Leg, leg.isWaiting = false → waitsFor [(consumer, leg)] consumer.id = 0 :=
    fun leg h => waitsFor_of_not_waiting h consumer.id
  cases hlook with
  | stays _ _ => rfl
  | ends outcome => rw [hidle .fresh rfl, hidle (.done outcome) rfl]
  | leaves selected deadline outcome =>
      rw [waitsFor_waiting] at hclaims
      rw [waitsFor_waiting, hidle (.done outcome) rfl]
      exact Semaphore.claims_leave_self hclaims
  | waits selected deadline _ =>
      rw [waitsFor_waiting, hidle .fresh rfl]
      exact Semaphore.claims_wait_self _ _
  | putsAtOnce selected _ _ hplace =>
      rw [hidle .fresh rfl, hidle (.done (.delivered selected.length)) rfl]
      exact Semaphore.claims_of_take? hplace task
  | putsAfterWait selected deadline _ _ hkept =>
      rw [waitsFor_waiting, hidle (.done (.delivered selected.length)) rfl]
      exact Semaphore.claims_redeem_self hkept

theorem Look.claims_of_ne {other : TaskId} (hlook : Look task canceled room leg leg' room' put)
    (h : other ≠ task) : room'.places.claims other = room.places.claims other := by
  cases hlook with
  | stays _ _ => rfl
  | ends _ => rfl
  | leaves _ _ _ => exact Semaphore.claims_leave_of_ne _ h
  | waits _ _ _ => exact Semaphore.claims_wait_of_ne _ h
  | putsAtOnce _ _ _ hplace => exact Semaphore.claims_of_take? hplace other
  | putsAfterWait _ _ _ _ _ => exact Semaphore.claims_redeem_of_ne _ h

theorem waits_setTask (l : Ledger) (h : l.tasks.lookup task = some held) (held' : Task)
    (other : TaskId) (id : ConsumerId) :
    (l.setTask task held').waits other id
      = if other = task then waitsFor held'.legs id else l.waits other id := by
  unfold Ledger.waits
  split
  next hother =>
    subst hother
    rw [Ledger.setTask_tasks, lookup_map_replace held' h]
    rfl
  next hother => rw [Ledger.setTask_tasks, lookup_map_replace_of_ne held' hother]

theorem waits_of_lookup (h : l.tasks.lookup task = some held) (id : ConsumerId) :
    l.waits task id = waitsFor held.legs id := by
  rw [Ledger.waits, h]
  rfl

theorem waitsFor_task (job : Job) (id : ConsumerId) : waitsFor job.task.legs id = 0 := by
  cases job with
  | fanOut publish batch targets =>
      simp [Job.task, Task.legs, waitsFor, List.countP_map, Function.comp_def, Leg.isWaiting]
  | replay consumer => rfl

/-- No delivery of a new task waits. -/
theorem TokenLaw.waits_spawn {without : Ledger} (law : TokenLaw l)
    (htasks : without.tasks = l.tasks) (hnextTask : without.nextTask = l.nextTask) (job : Job)
    (task : TaskId) (id : ConsumerId) :
    (without.spawn job.task).waits task id = l.waits task id := by
  unfold Ledger.waits
  rw [Ledger.spawn_tasks, htasks, hnextTask, lookup_append_fresh _ law.lookup_nextTask]
  split
  next hnew =>
    rw [hnew, law.lookup_nextTask]
    exact waitsFor_task job id
  next => rfl

theorem claims_of_room (h : l.room id = some room) (task : TaskId) :
    l.claims task id = room.places.claims task := by
  rw [Ledger.claims, h]
  rfl

theorem claims_setRoom (l : Ledger) (id other : ConsumerId) (room : Room) (task : TaskId) :
    (l.setRoom id room).claims task other
      = if other = id then room.places.claims task else l.claims task other := by
  unfold Ledger.claims
  rw [Ledger.setRoom_room, Function.update_apply]
  split <;> rfl

/-- What can become of a feed keeps the law, apart from the claims. -/
theorem PlaceLaw.of_claims (law : PlaceLaw l) (change : Change l l')
    (hclaims : ∀ task id, l'.claims task id = l'.waits task id) : PlaceLaw l' where
  claims := hclaims
  orderly id room hroom := by
    have hstep := change.roomStep id
    rw [hroom] at hstep
    generalize hearlier : l.room id = earlier at hstep
    cases hstep with
    | opened places => exact Or.inl rfl
    | follows h => exact h.orderly (law.orderly id _ hearlier)
  space id room hroom hopen := by
    have hstep := change.roomStep id
    rw [hroom] at hstep
    generalize hearlier : l.room id = earlier at hstep
    cases hstep with
    | opened places =>
        rw [capacity_ofPlaces]
        exact Nat.lt_of_lt_of_le Nat.one_pos (Nat.le_max_left 1 places)
    | follows h =>
        rw [h.capacity hopen]
        exact law.space id _ hearlier (h.closed hopen)

theorem PlaceLaw.call (law : PlaceLaw l) (change : CallChange l l') (task : TaskId)
    (reader : ConsumerId) : l'.claims task reader = l'.waits task reader := by
  have hwaits : l'.waits task reader = l.waits task reader := by cases change <;> rfl
  rw [hwaits, ← law.claims task reader]
  cases change with
  | send _ _ | cancel => rfl
  | @subscribe other query h places =>
      unfold Ledger.claims
      rw [Ledger.openRoom_room, Function.update_apply]
      split
      next hreader =>
        subst hreader
        show ((some ((l.room reader).getD (Feed.ofPlaces places).room)).map _).getD 0 = _
        cases l.room reader <;> rfl
      next => rfl
  | @receive other batch queue places closed h =>
      refine (claims_setRoom l other reader _ task).trans ?_
      split
      next hreader =>
        rw [hreader, claims_of_room h]
        exact Semaphore.claims_release places task
      next => rfl
  | @close other room h =>
      refine (claims_setRoom l other reader _ task).trans ?_
      split
      next hreader => rw [hreader, claims_of_room h]
      next => rfl

/-- After a look the feed and the task agree again on whether the delivery waits. -/
theorem PlaceLaw.look {consumer : Consumer} (law : PlaceLaw l)
    (h : l.tasks.lookup task = some held) (hturn : held.Turns held' consumer leg leg')
    (hlook : l.Looked task consumer.id origin leg leg' l') (other : TaskId) (reader : ConsumerId) :
    l'.claims other reader
      = if other = task then waitsFor held'.legs reader else l.waits other reader := by
  obtain ⟨others, hothers⟩ := hturn.others
  obtain ⟨hheld, hheld'⟩ := hothers reader
  have hclaims := law.claims task reader
  rw [waits_of_lookup h, hheld] at hclaims
  rw [hheld']
  cases hlook with
  | ended outcome hleg =>
      split
      next hother => rw [hother, hclaims]
      next => exact law.claims other reader
  | without outcome hroom =>
      have hidle : waitsFor [(consumer, .done outcome)] reader = 0 :=
        waitsFor_of_not_waiting rfl reader
      rw [hidle]
      split
      next hother =>
        rw [hother, hclaims]
        by_cases hreader : reader = consumer.id
        · rw [hreader, Ledger.claims, hroom, Option.map_none, Option.getD_none] at hclaims
          rw [hreader]
          omega
        · rw [waitsFor_of_ne _ hreader]
      next => exact law.claims other reader
  | @within room leg' room' put hroom hlook =>
      refine (claims_setRoom l consumer.id reader room' other).trans ?_
      by_cases hreader : reader = consumer.id
      · subst hreader
        rw [claims_of_room hroom] at hclaims
        rw [if_pos rfl]
        split
        next hother =>
          have hself := hlook.claims_self consumer (hclaims ▸ Nat.le_add_left _ _)
          rw [hother]
          omega
        next hother =>
          rw [hlook.claims_of_ne hother, ← claims_of_room hroom]
          exact law.claims other consumer.id
      · rw [waitsFor_of_ne _ hreader] at hclaims
        rw [if_neg hreader, waitsFor_of_ne _ hreader]
        split
        next hother => rw [hother, hclaims]
        next => exact law.claims other reader

theorem PlaceLaw.work (law : PlaceLaw l) (change : TaskChange l l') (other : TaskId)
    (reader : ConsumerId) : l'.claims other reader = l'.waits other reader := by
  have hclaims := law.claims other reader
  cases change with
  | @proceed task held held' h hnext =>
      rw [waits_setTask l h]
      refine hclaims.trans ?_
      split
      next hother => rw [hother, waits_of_lookup h, hnext.waits]
      next => rfl
  | @finish task held h hdone =>
      refine hclaims.trans ?_
      unfold Ledger.waits
      rw [Ledger.endTask_tasks, lookup_filter_ne]
      split
      next hother =>
        rw [hother, h]
        exact hdone reader
      next => rfl
  | @look task held held' consumer _ leg leg' looked h hturn hlook =>
      have hsame : looked.tasks.lookup task = some held := by
        rw [hlook.eq]
        exact h
      rw [waits_setTask looked hsame]
      refine (law.look h hturn hlook other reader).trans ?_
      rw [hlook.eq]
      rfl

theorem PlaceLaw.change (law : PlaceLaw l) (tokens : TokenLaw l) (change : Change l l') :
    PlaceLaw l' := by
  refine law.of_claims change fun task reader => ?_
  cases change with
  | report _ => exact law.claims task reader
  | call change => exact law.call change task reader
  | work change => exact law.work change task reader
  | coordinate change =>
      cases change with
      | launch _ _ _ | redeem _ _ =>
          exact (law.claims task reader).trans (tokens.waits_spawn rfl rfl _ task reader).symm
      | _ => exact law.claims task reader

end Places

end EventBus.Bus
