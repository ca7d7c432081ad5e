import EventBus.Proofs.Bus.Bookkeeping
import EventBus.Proofs.Bus.Laws

/-!
A bus is settled when none of its parties can go on by itself: the coordinator, every delivery
and every replay wait for something from outside. The store is outside: it may take its time to
answer the write of a publish or the read of a replay, and a stream that it gave for a replay may
stay open for ever without yielding anything. What each party waits for is read off the steps
that it cannot make.
-/

namespace EventBus.Bus

variable {σ : Type} {bus : Bus σ}

/-- A party of the bus makes a step without a call, a reader, the store or the time having any
part in it. -/
inductive Advance [Store σ] (bus : Bus σ) : Bus σ → Prop where
  | begin (h : bus.coordinator = .starting) : Advance bus bus.begin
  | take {command rest} (h : bus.coordinator = .receiving)
      (hcommands : bus.commands = command :: rest) (hwritten : bus.written command = []) :
      Advance bus (bus.take command rest).land
  | interrupt (h : bus.coordinator = .receiving) (hcanceled : bus.canceled = true) :
      Advance bus (bus.stop (.error .canceled))
  | runOut (h : bus.coordinator = .receiving) (hcommands : bus.commands = [])
      (hsenders : bus.senders = 0) : Advance bus (bus.stop (.ok ()))
  | review {job deadline} (h : bus.coordinator = .acquiring job deadline) :
      Advance bus (bus.reviewAcquire job deadline).land
  | deliver {task publish batch seen consumer leg legs}
      (h : bus.tasks.lookup task = some (.fanOut publish batch (seen ++ (consumer, leg) :: legs))) :
      Advance bus (bus.deliver task publish batch seen consumer leg legs).2
  | report {task publish batch legs}
      (h : bus.tasks.lookup task = some (.fanOut publish batch legs))
      (hdone : legs.all (·.2.isDone) = true) :
      Advance bus (bus.finishFanOut task publish batch legs)
  | send {task consumer batch batches ends sent}
      (h : bus.tasks.lookup task = some (.replay consumer (.taking ⟨batch :: batches, ends⟩ sent)))
      (hsated : bus.isSated consumer sent = false) :
      Advance bus (bus.sendBatch task consumer batch ⟨batches, ends⟩ sent).2
  | resend {task consumer selected deadline rest sent}
      (h : bus.tasks.lookup task = some (.replay consumer (.sending selected deadline rest sent))) :
      Advance bus (bus.resendBatch task consumer selected deadline rest sent).2
  | quit {task consumer rest sent}
      (h : bus.tasks.lookup task = some (.replay consumer (.taking rest sent)))
      (hover : bus.isSated consumer sent = true ∨ rest = ⟨[], true⟩) :
      Advance bus (bus.finishReplay task consumer sent)

/-- The store answers a call that a party waits for. -/
inductive Answer [Store σ] (bus : Bus σ) : Bus σ → Prop where
  | write {command rest} (h : bus.coordinator = .receiving)
      (hcommands : bus.commands = command :: rest) (hwritten : bus.written command ≠ []) :
      Answer bus (bus.take command rest).land
  | read {task consumer} (h : bus.tasks.lookup task = some (.replay consumer .starting)) :
      Answer bus (bus.readHistory task consumer).2

section Steps

variable [Store σ] {bus' : Bus σ}

/-- What a party does by itself is a step of a run, whatever calls are under way. -/
theorem Advance.step (advance : Advance bus bus') :
    ∃ marks, ∀ calls, Step ⟨bus, calls⟩ marks ⟨bus', calls⟩ := by
  cases advance with
  | begin h => exact ⟨_, fun _ => .begin h⟩
  | take h hcommands _ => exact ⟨_, fun _ => .take h hcommands⟩
  | interrupt h hcanceled => exact ⟨_, fun _ => .interrupt h hcanceled⟩
  | runOut h hcommands hsenders => exact ⟨_, fun _ => .runOut h hcommands hsenders⟩
  | review h => exact ⟨_, fun _ => .review h⟩
  | deliver h => exact ⟨_, fun _ => .deliver h⟩
  | report h hdone => exact ⟨_, fun _ => .report h hdone⟩
  | send h hsated => exact ⟨_, fun _ => .send h hsated⟩
  | resend h => exact ⟨_, fun _ => .resend h⟩
  | quit h hover => exact ⟨_, fun _ => .quit h hover⟩

theorem Answer.step (answer : Answer bus bus') :
    ∃ marks, ∀ calls, Step ⟨bus, calls⟩ marks ⟨bus', calls⟩ := by
  cases answer with
  | write h hcommands _ => exact ⟨_, fun _ => .take h hcommands⟩
  | read h => exact ⟨_, fun _ => .read h⟩

end Steps

/-- No party can go on: whatever one of them could still do changes nothing. -/
def Settled [Store σ] (bus : Bus σ) : Prop := ∀ bus', Advance bus bus' → bus' = bus

/-- No call to the store is under way. This is so of a settled bus whose store answers its calls
at once. -/
def Answered [Store σ] (bus : Bus σ) : Prop := ∀ bus', Answer bus bus' → bus' = bus

/-- As many batches as there are places, of which a feed has one at least. -/
def Feed.IsFull (feed : Feed) : Prop := feed.queue.length = feed.room.capacity ∧ feed.queue ≠ []

/-- The consumer is registered, its subscription has not been dropped, and its feed is full. -/
def HasFullFeed (bus : Bus σ) (id : ConsumerId) : Prop :=
  bus.isRegistered id = true ∧
    ∃ feed, bus.feed? id = some feed ∧ feed.closed = false ∧ feed.IsFull

/-- What a task waits for: room in full feeds, or a stream that has not ended. The wait for a
stream begins with that for the answer to the read. -/
inductive Awaits (bus : Bus σ) : Task → Prop where
  | room {held : Task} (hsome : ∃ entry ∈ held.legs, entry.2.isDone = false)
      (hfull : ∀ entry ∈ held.legs, entry.2.isDone = false → bus.HasFullFeed entry.1.id) :
      Awaits bus held
  | stream {consumer : Consumer} {sent : Nat} (hregistered : bus.isRegistered consumer.id = true) :
      Awaits bus (.replay consumer (.taking ⟨[], false⟩ sent))
  | answer {consumer : Consumer} : Awaits bus (.replay consumer .starting)

/-- The task is at a delivery that cannot go on: the consumer is neither gone nor cancelled, and
no place is kept for the task. -/
def HeldUp (bus : Bus σ) (task : TaskId) (id : ConsumerId) : Prop :=
  ∃ feed, bus.feed? id = some feed ∧ feed.closed = false ∧ bus.isCanceled id = false ∧
    feed.places.isGranted task = false

section Turns

/-! What a task or the coordinator would come to by the steps that it can make. -/

variable {task : TaskId} {publish : Nat} {batch : List Event} {consumer : Consumer} {leg : Leg}
  {seen legs : List (Consumer × Leg)} {held : Task} {rest : Stream} {sent : Nat}
  {selected : List Event} {deadline : Nat} {origin : Origin} {phase : ReplayPhase}

theorem lookup_finish (bus : Bus σ) (task : TaskId) (held : Task) :
    (bus.finish task held).tasks.lookup task = none := by
  have htasks : (bus.finish task held).tasks = (bus.ledger.endTask task).tasks :=
    congrArg Ledger.tasks (ledger_finish held)
  rw [htasks, Ledger.endTask_tasks, lookup_filter_ne, if_pos rfl]

theorem lookup_finishReplay (bus : Bus σ) (task : TaskId) (consumer : Consumer) (sent : Nat) :
    (bus.finishReplay task consumer sent).tasks.lookup task = none :=
  lookup_finish _ task _

theorem lookup_deliver
    (h : bus.tasks.lookup task = some (.fanOut publish batch (seen ++ (consumer, leg) :: legs))) :
    (bus.deliver task publish batch seen consumer leg legs).2.tasks.lookup task
      = some (.fanOut publish batch (seen ++
          (consumer, (bus.advanceLeg task consumer (.live publish) batch leg).1) :: legs)) := by
  have htasks : (bus.advanceLeg task consumer (.live publish) batch leg).2.tasks = bus.tasks :=
    (advanceLeg_ledger bus (.live publish) task consumer batch leg).tasks
  rw [← htasks] at h
  refine (lookup_map_replace _ h).trans ?_
  rw [List.append_assoc]
  rfl

/-- A replay goes on with the rest of the stream, between two batches if the delivery is over. -/
theorem lookup_settleLeg_some (h : bus.tasks.lookup task = some (.replay consumer phase))
    (hleg : leg ≠ .fresh)
    (hheld : (bus.settleLeg task consumer rest sent leg).tasks.lookup task = some held) :
    ∃ phase', held = .replay consumer phase' ∧ phase'.stream? = some rest ∧
      (leg.isDone = true → ∃ sent', phase' = .taking rest sent') := by
  have hkeep : ∀ {phase'}, some (Task.replay consumer phase') = some held →
      held = .replay consumer phase' := fun h => (Option.some.inj h).symm
  cases leg with
  | fresh => exact absurd rfl hleg
  | waiting selected deadline =>
      refine ⟨_, hkeep ((lookup_map_replace _ h).symm.trans hheld), rfl, nofun⟩
  | done outcome =>
      cases outcome with
      | delivered _ | skipped | timedOut =>
          exact ⟨_, hkeep ((lookup_map_replace _ h).symm.trans hheld), rfl, fun _ => ⟨_, rfl⟩⟩
      | canceled | closed =>
          rw [settleLeg, lookup_finishReplay] at hheld
          cases hheld

theorem lookup_openStream (answer : Except StoreError Stream)
    (h : bus.tasks.lookup task = some (.replay consumer phase))
    (hheld : (bus.openStream task consumer answer).tasks.lookup task = some held) :
    ∃ stream, held = .replay consumer (.taking stream 0) := by
  unfold openStream at hheld
  split at hheld
  next stream =>
    exact ⟨stream, (Option.some.inj ((lookup_map_replace _ h).symm.trans hheld)).symm⟩
  all_goals
    rw [lookup_finish] at hheld
    cases hheld

/-- Once its read is answered, a replay is at the stream or over. -/
theorem lookup_readHistory_some [Store σ]
    (h : bus.tasks.lookup task = some (.replay consumer phase))
    (hheld : (bus.readHistory task consumer).2.tasks.lookup task = some held) :
    ∃ stream, held = .replay consumer (.taking stream 0) := by
  unfold readHistory at hheld
  split at hheld
  next => exact lookup_openStream _ h hheld
  next store hstore =>
    let answer := Store.read (bus.isCanceled consumer.id) consumer.query store
    let answered := { bus with store? := some answer.store }.noteAll (answer.notices.map .store)
    have hsame : answered.tasks.lookup task = some (.replay consumer phase) := h
    exact lookup_openStream answer.result hsame hheld

/-- A delivery that goes on waiting has no reason not to. -/
theorem heldUp_of_reviewLeg
    (h : (bus.reviewLeg task consumer origin selected deadline).1.isDone = false) :
    bus.HeldUp task consumer.id := by
  unfold reviewLeg at h
  split at h
  next => cases h
  next feed hfeed =>
    have hretry : (feed.retry task (bus.isCanceled consumer.id) bus.now selected deadline).1.isDone
        = false := by
      dsimp only at h
      split at h <;> exact h
    unfold Feed.retry at hretry
    split at hretry
    next => cases hretry
    next hcanceled =>
      split at hretry
      next => cases hretry
      next hopen =>
        split at hretry
        next => cases hretry
        next hkept =>
          rw [Bool.not_eq_true] at hcanceled hopen hkept
          exact ⟨feed, hfeed, hopen, hcanceled, hkept⟩

theorem isAcquiring_conclude {job : Job} {acquired : Acquired} (h : bus.coordinator = .receiving)
    (hacquired : acquired ≠ .waiting) :
    (bus.conclude job acquired).land.coordinator.isAcquiring = false := by
  have hletGo : (bus.letGoAll job.consumers).coordinator = .receiving :=
    (congrArg Ledger.coordinator (ledger_letGoAll job.consumers)).trans h
  have hfree : ∀ {bus' : Bus σ}, bus'.coordinator = .receiving →
      bus'.coordinator.isAcquiring = false := fun h => by rw [h]; rfl
  cases acquired with
  | token => exact hfree ((congrArg Ledger.coordinator (ledger_spawn job.task)).trans h)
  | waiting => exact absurd rfl hacquired
  | timedOut => exact hfree hletGo
  | canceled =>
      cases job with
      | fanOut _ _ _ => rfl
      | replay _ => exact hfree hletGo

theorem isAcquiring_reviewAcquire {job : Job} (hkept : bus.pool.tokens.isGranted () = true) :
    (bus.reviewAcquire job deadline).land.coordinator.isAcquiring = false := by
  unfold reviewAcquire
  split
  next heq =>
    simp only [Pool.review, hkept, if_true] at heq
    split at heq <;> cases heq
  next acquired pool next? hwaits heq => exact isAcquiring_conclude rfl hwaits

theorem lookup_sendBatch {batches : List (List Event)} {ends : Bool}
    (h : bus.tasks.lookup task = some (.replay consumer phase))
    (hheld : (bus.sendBatch task consumer batch ⟨batches, ends⟩ sent).2.tasks.lookup task
      = some held) :
    ∃ phase', held = .replay consumer phase' ∧ phase'.stream? = some ⟨batches, ends⟩ := by
  have hlook := beginLeg_ledger bus .replay task consumer
    (batch.take (consumer.query.limit - sent))
  rw [← (show _ = bus.tasks from hlook.tasks)] at h
  obtain ⟨phase', hphase, hstream, -⟩ := lookup_settleLeg_some h hlook.ne_fresh hheld
  exact ⟨phase', hphase, hstream⟩

theorem lookup_resendBatch (h : bus.tasks.lookup task = some (.replay consumer phase))
    (hdone : (bus.reviewLeg task consumer .replay selected deadline).1.isDone = true)
    (hheld : (bus.resendBatch task consumer selected deadline rest sent).2.tasks.lookup task
      = some held) :
    ∃ sent', held = .replay consumer (.taking rest sent') := by
  have hlook : bus.ledger.Looked task consumer.id .replay (.waiting selected deadline) _ _ :=
    reviewLeg_ledger bus .replay task consumer deadline
  rw [← (show _ = bus.tasks from hlook.tasks)] at h
  unfold resendBatch at hheld
  generalize bus.reviewLeg task consumer .replay selected deadline = reviewed at h hdone hheld
  obtain ⟨leg, bus'⟩ := reviewed
  cases leg with
  | done outcome =>
      have hbegun : Leg.done outcome ≠ .fresh := nofun
      obtain ⟨phase', hphase, -, htaking⟩ := lookup_settleLeg_some h hbegun hheld
      obtain ⟨sent', rfl⟩ := htaking rfl
      exact ⟨sent', hphase⟩
  | fresh | waiting _ _ => cases hdone

end Turns

section Waiting

variable {task : TaskId} {held : Task} {consumer : Consumer} {leg : Leg} {id : ConsumerId}

theorem mem_consumers_of_mem_legs (h : (consumer, leg) ∈ held.legs) :
    consumer ∈ held.consumers := by
  cases held with
  | fanOut publish batch legs => exact List.mem_map.mpr ⟨_, h, rfl⟩
  | replay other phase =>
      cases phase with
      | starting | taking _ _ => cases h
      | sending _ _ _ _ =>
          cases List.mem_singleton.mp h
          exact List.mem_singleton_self _

/-- Who waits at a feed, or has a place there kept for them, is a delivery that waits. -/
theorem PlaceLaw.claims_pos_iff {l : Ledger} {room : Room} (law : PlaceLaw l)
    (hroom : l.room id = some room) :
    0 < room.places.claims task ↔
      ∃ held, l.tasks.lookup task = some held ∧
        ∃ entry ∈ held.legs, entry.1.id = id ∧ entry.2.isWaiting = true := by
  rw [← claims_of_room hroom, law.claims]
  cases hheld : l.tasks.lookup task with
  | none => simp [Ledger.waits, hheld]
  | some held =>
      rw [waits_of_lookup hheld, waitsFor, List.countP_pos_iff]
      simp

theorem Coordinator.isAcquiring_iff {coordinator : Coordinator} :
    coordinator.isAcquiring = true ↔ ∃ job deadline, coordinator = .acquiring job deadline := by
  cases coordinator <;> simp [isAcquiring]

end Waiting

namespace Settled

variable [Store σ] {task : TaskId} {held : Task} {consumer : Consumer} {leg : Leg}
  {id : ConsumerId} {feed : Feed}

theorem lookup {bus' : Bus σ} (settled : Settled bus) (advance : Advance bus bus')
    (task : TaskId) : bus'.tasks.lookup task = bus.tasks.lookup task := by
  rw [settled bus' advance]

/-- The coordinator would take a token that is kept for it. -/
theorem tokens_granted (settled : Settled bus) (tokens : TokenLaw bus.ledger) :
    bus.pool.tokens.granted = [] := by
  cases hacquiring : bus.coordinator.isAcquiring with
  | false => exact tokens.granted_eq_nil hacquiring
  | true =>
      obtain ⟨job, deadline, h⟩ := Coordinator.isAcquiring_iff.mp hacquiring
      refine List.eq_nil_iff_forall_not_mem.mpr fun _ hmem => ?_
      have hreviewed : (bus.reviewAcquire job deadline).land.coordinator.isAcquiring = false :=
        isAcquiring_reviewAcquire (Semaphore.isGranted_iff.mpr hmem)
      rw [settled _ (.review h), hacquiring] at hreviewed
      cases hreviewed

/-- A delivery that is not over waits, and has to. -/
theorem heldUp (settled : Settled bus) (h : bus.tasks.lookup task = some held)
    (hleg : (consumer, leg) ∈ held.legs) (hdone : leg.isDone = false) :
    leg.isWaiting = true ∧ bus.HeldUp task consumer.id := by
  cases held with
  | fanOut publish batch legs =>
      obtain ⟨seen, after, hlegs⟩ := List.append_of_mem hleg
      obtain rfl : legs = seen ++ (consumer, leg) :: after := hlegs
      have hnow := lookup_deliver h
      rw [settled.lookup (.deliver h), h] at hnow
      have hsame : leg = (bus.advanceLeg task consumer (.live publish) batch leg).1 := by
        simpa using hnow
      cases leg with
      | fresh =>
          exact absurd hsame.symm (advanceLeg_ledger bus _ task consumer batch .fresh).ne_fresh
      | done _ => cases hdone
      | waiting selected deadline =>
          exact ⟨rfl, heldUp_of_reviewLeg (congrArg Leg.isDone hsame.symm)⟩
  | replay other phase =>
      cases phase with
      | starting | taking _ _ => cases hleg
      | sending selected deadline rest sent =>
          cases List.mem_singleton.mp hleg
          have hgoes : (bus.reviewLeg task consumer .replay selected deadline).1.isDone = false := by
            by_contra hover
            have hnow := (settled.lookup (.resend h) task).trans h
            obtain ⟨_, hheld⟩ := lookup_resendBatch h (Bool.not_eq_false _ ▸ hover) hnow
            cases hheld
          exact ⟨rfl, heldUp_of_reviewLeg hgoes⟩

/-- No place is kept for anyone: the delivery would take it. -/
theorem places_granted (settled : Settled bus) (places : PlaceLaw bus.ledger)
    (hfeed : bus.feed? id = some feed) : feed.places.granted = [] := by
  refine List.eq_nil_iff_forall_not_mem.mpr fun task hmem => ?_
  have hclaims : 0 < feed.places.claims task :=
    List.count_pos_iff.mpr (List.mem_append_right _ hmem)
  obtain ⟨held, hheld, ⟨consumer, leg⟩, hleg, rfl, hwaiting⟩ :=
    (places.claims_pos_iff (room_of_feed? hfeed)).mp hclaims
  have hdone : leg.isDone = false := by
    cases leg with
    | done _ => cases hwaiting
    | _ => rfl
  obtain ⟨-, found, hfound, -, -, hkept⟩ := settled.heldUp hheld hleg hdone
  cases hfeed.symm.trans hfound
  rw [Semaphore.isGranted_iff.mpr hmem] at hkept
  cases hkept

/-- A delivery that is not over waits at a full feed, whose consumer is still registered. -/
theorem hasFullFeed (settled : Settled bus) (laws : LedgerLaws bus.ledger)
    (h : bus.tasks.lookup task = some held) (hleg : (consumer, leg) ∈ held.legs)
    (hdone : leg.isDone = false) : bus.HasFullFeed consumer.id := by
  obtain ⟨hwaiting, feed, hfeed, hopen, hcanceled, -⟩ := settled.heldUp h hleg hdone
  have hroom := room_of_feed? hfeed
  have hregistered : bus.isRegistered consumer.id = true :=
    laws.standing.isRegistered h (mem_consumers_of_mem_legs hleg) hcanceled
  have hgranted := settled.places_granted laws.places hfeed
  have hclaims : 0 < feed.places.claims task :=
    (laws.places.claims_pos_iff hroom).mpr ⟨held, h, _, hleg, rfl, hwaiting⟩
  have hqueued : feed.places.waiting ≠ [] := by
    rintro hnone
    rw [Semaphore.claims, hnone, hgranted] at hclaims
    exact Nat.lt_irrefl 0 hclaims
  have hfree : feed.places.free = 0 := (laws.places.orderly _ _ hroom).resolve_left hqueued
  have hspare : feed.places.spare = 0 := by rw [Semaphore.spare, hfree, hgranted]; rfl
  have hcapacity : feed.room.capacity = feed.queue.length :=
    congrArg (feed.queue.length + ·) hspare
  have hspace : 0 < feed.room.capacity := laws.places.space _ _ hroom hopen
  refine ⟨hregistered, feed, hfeed, hopen, hcapacity.symm, ?_⟩
  rw [hcapacity] at hspace
  exact List.ne_nil_of_length_pos hspace

/-- A fan-out whose deliveries are all over would report them. -/
theorem exists_not_done {publish : Nat} {batch : List Event} {legs : List (Consumer × Leg)}
    (settled : Settled bus) (h : bus.tasks.lookup task = some (.fanOut publish batch legs)) :
    ∃ entry ∈ legs, entry.2.isDone = false := by
  by_contra hnone
  have hdone : legs.all (·.2.isDone) = true := by simpa using hnone
  have hended := settled.lookup (.report h hdone) task
  rw [finishFanOut, lookup_finish, h] at hended
  cases hended

/-- Between two batches a replay can only wait for its stream: it would deliver a batch that is
there, and end when the stream has ended or its consumer is cancelled. -/
theorem stream_open {rest : Stream} {sent : Nat} (settled : Settled bus)
    (h : bus.tasks.lookup task = some (.replay consumer (.taking rest sent))) :
    rest = ⟨[], false⟩ ∧ bus.isCanceled consumer.id = false := by
  have hgoes : ¬(bus.isSated consumer sent = true ∨ rest = ⟨[], true⟩) := by
    intro hover
    have hended := settled.lookup (.quit h hover) task
    rw [lookup_finishReplay, h] at hended
    cases hended
  obtain ⟨hwanted, hopen⟩ := not_or.mp hgoes
  rw [Bool.not_eq_true] at hwanted
  obtain ⟨batches, ends⟩ := rest
  cases batches with
  | cons batch batches =>
      have hnow := (settled.lookup (.send h hwanted) task).trans h
      obtain ⟨_, hheld, hstream⟩ := lookup_sendBatch h hnow
      cases hheld
      simp [ReplayPhase.stream?] at hstream
  | nil =>
      have hends : ends = false := by simpa using hopen
      rw [hends]
      exact ⟨rfl, (Bool.or_eq_false_iff.mp hwanted).2⟩

theorem awaits (settled : Settled bus) (laws : LedgerLaws bus.ledger)
    (h : bus.tasks.lookup task = some held) : bus.Awaits held := by
  have hfull : ∀ entry ∈ held.legs, entry.2.isDone = false → bus.HasFullFeed entry.1.id :=
    fun _ hentry => settled.hasFullFeed laws h hentry
  cases held with
  | fanOut publish batch legs => exact .room (settled.exists_not_done h) hfull
  | replay consumer phase =>
      cases phase with
      | starting => exact .answer
      | sending selected deadline rest sent =>
          exact .room ⟨_, List.mem_singleton_self _, rfl⟩ hfull
      | taking rest sent =>
          obtain ⟨rfl, hcanceled⟩ := settled.stream_open h
          exact .stream (laws.standing.isRegistered h (List.mem_singleton_self _) hcanceled)

end Settled

/-- When no call to the store is under way, no replay waits for the answer to its read. -/
theorem Answered.not_starting [Store σ] {task : TaskId} {consumer : Consumer}
    (answered : Answered bus) : bus.tasks.lookup task ≠ some (.replay consumer .starting) := by
  intro h
  have hnow := h
  rw [← answered _ (.read h)] at hnow
  obtain ⟨_, hread⟩ := lookup_readHistory_some h hnow
  cases hread

section Runs

variable [Store σ] {settings : Settings} {store? : Option σ} {trace later : List Mark}
  {world world' : World σ}

/-- The number of places of a feed is settled when it is opened. -/
theorem Steps.capacity_eq {id : ConsumerId} {feed feed' : Feed} (steps : Steps world later world')
    (h : world.bus.feed? id = some feed) (h' : world'.bus.feed? id = some feed')
    (hopen : feed'.closed = false) : feed'.room.capacity = feed.room.capacity := by
  obtain ⟨room, hroom, hfollows⟩ := steps.changes.follows (room_of_feed? h)
  cases hroom.symm.trans (room_of_feed? h')
  exact hfollows.capacity hopen

end Runs

section Sample

theorem eq_of_lookup {task other : TaskId} {held held' : Task} (htasks : bus.tasks = [(task, held)])
    (h : bus.tasks.lookup other = some held') : other = task ∧ held' = held := by
  have hmem := mem_of_lookup h
  rw [htasks] at hmem
  exact Prod.ext_iff.mp (List.mem_singleton.mp hmem)

/-- A bus whose coordinator has nothing to do, and whose one task is a fan-out with a delivery
that waits. -/
theorem settled_of_waiting [Store σ] {task : TaskId} {publish : Nat} {batch : List Event}
    {legs : List (Consumer × Leg)} (hstarting : bus.coordinator ≠ .starting)
    (hreceiving : bus.coordinator = .receiving →
      bus.commands = [] ∧ bus.canceled = false ∧ bus.senders ≠ 0)
    (hacquiring : ∀ job deadline, bus.coordinator = .acquiring job deadline →
      (bus.reviewAcquire job deadline).land = bus)
    (htasks : bus.tasks = [(task, .fanOut publish batch legs)])
    (hdone : legs.all (·.2.isDone) = false)
    (hstays : ∀ seen consumer leg after, legs = seen ++ (consumer, leg) :: after →
      (bus.deliver task publish batch seen consumer leg after).2 = bus) : Settled bus := by
  intro bus' advance
  cases advance with
  | begin h => exact absurd h hstarting
  | review h => exact hacquiring _ _ h
  | take h hcommands _ =>
      rw [(hreceiving h).1] at hcommands
      cases hcommands
  | interrupt h hcanceled =>
      rw [(hreceiving h).2.1] at hcanceled
      cases hcanceled
  | runOut h _ hsenders => exact absurd hsenders (hreceiving h).2.2
  | send h _ | resend h | quit h _ => cases (eq_of_lookup htasks h).2
  | report h hall =>
      cases (eq_of_lookup htasks h).2
      rw [hdone] at hall
      cases hall
  | deliver h =>
      obtain ⟨rfl, hheld⟩ := eq_of_lookup htasks h
      obtain ⟨rfl, rfl, hlegs⟩ := Task.fanOut.inj hheld
      exact hstays _ _ _ _ hlegs.symm

theorem answered_of_waiting [Store σ] {task : TaskId} {publish : Nat} {batch : List Event}
    {legs : List (Consumer × Leg)}
    (hreceiving : bus.coordinator = .receiving → bus.commands = [])
    (htasks : bus.tasks = [(task, .fanOut publish batch legs)]) : Answered bus := by
  intro bus' answer
  cases answer with
  | write h hcommands _ =>
      rw [hreceiving h] at hcommands
      cases hcommands
  | read h => cases (eq_of_lookup htasks h).2

end Sample

end EventBus.Bus
