import EventBus.Proofs.Bus.Overlap
import EventBus.Proofs.Bus.ReplayReports
import EventBus.Proofs.Bus.Scheduler
import EventBus.Proofs.Store.RingRefinement

/-!
Replay from a ring is complete. The read answers with the events wanted, each a batch of its own,
and the replay goes through them one by one: an event is put into the feed, or its own delivery
times out. Nothing else makes the replay leave one out, other than that there is no one left to
take it.
-/

namespace EventBus.Bus

/-- The event was put into the feed as a batch of its own, or its delivery has timed out. -/
inductive Decided (event : Event) : Turnout → Prop where
  | put : Decided event (.put [event])
  | timedOut : Decided event .timedOut

/-- What a replay has left to deliver, each event in a batch of its own. -/
inductive ReplayPhase.Holds : ReplayPhase → List Event → Prop where
  | taking (todo : List Event) (sent : Nat) : Holds (.taking ⟨todo.map ([·]), true⟩ sent) todo
  | sending (event : Event) (later : List Event) (deadline sent : Nat) :
      Holds (.sending [event] deadline ⟨later.map ([·]), true⟩ sent) (event :: later)

/-- How far a replay has come with the events that its read found. Those it is through with are
decided, in their order, and it still has the others; it ends with some of them left only if it has
lost its consumer. -/
structure Progress (before : List Notice) (o : Outline) (lost : Prop) (task : TaskId)
    (consumer : Consumer) (found todo : List Event) : Prop where
  decided : ∃ since done, o.history = before ++ since ∧ found = done ++ todo ∧
    List.Forall₂ Decided done (since.filterMap (·.turnout? consumer.id))
  held : ∀ held, o.task task = some held → ∃ phase, held = .replay consumer phase ∧
    phase.Holds todo ∧ phase.sent + todo.length ≤ consumer.query.limit
  ended : o.task task = none → todo = [] ∨ lost

/-- The task is the only one that replays to the consumer, and no other is to come. -/
structure Outline.Sole (o : Outline) (id : ConsumerId) (task : TaskId) : Prop where
  replays : ∀ other, o.Replays id other → other = task
  waits : ∀ consumer deadline, o.coordinator = .acquiring (.replay consumer) deadline →
    consumer.id ≠ id

section Sole

variable {trace marks : List Mark} {o o' : Outline} {id : ConsumerId} {task : TaskId}
  {consumer : Consumer} {phase : ReplayPhase} {query : Query}

theorem LimitLaw.sole (law : LimitLaw trace o) (h : o.task task = some (.replay consumer phase)) :
    o.Sole consumer.id task where
  replays other hother := law.single consumer.id other task hother ⟨consumer, phase, h, rfl⟩
  waits other deadline hwaits hid := by
    obtain ⟨-, hnone⟩ := law.waits other deadline hwaits
    exact hnone.replays task ⟨consumer, phase, h, hid.symm⟩

theorem Outline.Sole.frame (sole : o.Sole id task)
    (hreplays : ∀ other, o'.Replays id other → o.Replays id other)
    (hwaits : ∀ consumer deadline, o'.coordinator = .acquiring (.replay consumer) deadline →
      o.coordinator = .acquiring (.replay consumer) deadline ∨ consumer.id ≠ id) :
    o'.Sole id task where
  replays other hother := sole.replays other (hreplays other hother)
  waits consumer deadline h := (hwaits consumer deadline h).elim (sole.waits consumer deadline) (·)

theorem TaskMove.replays {other : TaskId} (move : TaskMove o marks o') (h : o'.Replays id other) :
    o.Replays id other := by
  cases move with
  | @deliver task publish batch seen consumer leg legs marks leg' looked hheld hlook =>
    obtain ⟨consumer', phase', hother, hid⟩ := h
    have hearlier := Outline.replay_of_setTask hother nofun
    rw [hlook.frame.task] at hearlier
    exact ⟨consumer', phase', hearlier, hid⟩
  | read hheld => exact h.of_update hheld rfl
  | grow batches ends hheld hstream => exact h.of_update hheld rfl
  | @send task _ _ _ _ _ _ _ _ _ hheld hsend hlook hnext =>
    exact h.of_update hheld (congrArg (Function.update · task _) hlook.frame.task)
  | finish hheld hend =>
    obtain ⟨consumer', phase', hother, hid⟩ := h
    exact ⟨consumer', phase', Outline.replay_of_setTask hother nofun, hid⟩

theorem Outline.Sole.coordinate (sole : o.Sole id task) (queue : QueueLaw trace o)
    (number : NumberLaw trace o) (hquery : .subscribe id query ∈ taken trace)
    (move : CoordinatorMove o marks o') : o'.Sole id task := by
  cases move with
  | @launch job deadline h =>
    refine sole.frame ?_ nofun
    rintro other ⟨consumer, phase, hother, hid⟩
    rw [Outline.spawn_task, Outline.setTask_task, Function.update_apply] at hother
    split at hother
    next =>
      cases job with
      | fanOut _ _ _ => cases hother
      | replay waiting =>
        cases hother
        exact absurd hid (sole.waits consumer deadline h)
    next => exact ⟨consumer, phase, hother, hid⟩
  | @enroll other query' rest consumer next h hcommands hnew hconsumer hnext =>
    refine sole.frame (fun _ => (·)) fun consumer' deadline hwaits => ?_
    rcases hnext with rfl | ⟨-, deadline', rfl⟩
    · cases hwaits
    · -- the Subscribe of this consumer was taken before
      cases hwaits
      refine Or.inr fun hid => ?_
      rw [hconsumer] at hid
      subst hid
      exact not_taken_of_next queue number h hcommands query hquery
  | @ready next h hnext =>
    refine sole.frame (fun _ => (·)) fun consumer' deadline hwaits => ?_
    have hwaits : next = .acquiring (.replay consumer') deadline := hwaits
    rw [hwaits] at hnext
    cases hnext
  | accept h hcommands hplain hnext =>
    refine sole.frame (fun _ => (·)) fun consumer' deadline hwaits => ?_
    cases hnext <;> cases hwaits
  | known _ _ _ | expel _ _ _ => exact sole.frame (fun _ => (·)) fun _ _ => Or.inl
  | _ => exact sole.frame (fun _ => (·)) nofun

theorem Outline.Sole.move (sole : o.Sole id task) (queue : QueueLaw trace o)
    (number : NumberLaw trace o) (hquery : .subscribe id query ∈ taken trace)
    (move : Move o marks o') : o'.Sole id task := by
  cases move with
  | report _ => exact ⟨sole.replays, sole.waits⟩
  | call move =>
    have frame := move.frame
    refine sole.frame ?_ fun _ _ h => Or.inl (frame.coordinator ▸ h)
    rintro other ⟨consumer, phase, hother, hid⟩
    exact ⟨consumer, phase, frame.task ▸ hother, hid⟩
  | coordinate move => exact sole.coordinate queue number hquery move
  | work move =>
    exact sole.frame (fun _ => move.replays) fun _ _ h => Or.inl (move.frame.coordinator ▸ h)

theorem Outline.Sole.moves (sole : o.Sole id task) (laws : Laws trace o)
    (hquery : .subscribe id query ∈ taken trace) (moves : Moves o marks o') : o'.Sole id task := by
  have hboth : Laws (trace ++ marks) o' ∧ o'.Sole id task := by
    refine moves.invariant (P := fun later o => Laws (trace ++ later) o ∧ o.Sole id task)
      ⟨(List.append_nil trace).symm ▸ laws, sole⟩ ?_
    rintro later middle marks last ⟨laws, sole⟩ move
    rw [← List.append_assoc]
    have hknown : .subscribe id query ∈ taken (trace ++ later) := by
      rw [taken_append]
      exact List.mem_append_left _ hquery
    exact ⟨laws.move move, sole.move laws.queue laws.number hknown move⟩
  exact hboth.2

end Sole

section Deliveries

/-- Events that are wanted are not passed over, and are given up only for a reason. -/
def Leg.Excused (reason : Prop) : Leg → Prop
  | .done .skipped => False
  | .done .canceled => reason
  | .done .closed => reason
  | _ => True

theorem Feed.offer_excused (feed : Feed) (task : TaskId) (canceled : Bool) (now timeout : Nat)
    {selected : List Event} (h : selected ≠ []) :
    (feed.offer task canceled now timeout selected).1.Excused
      (canceled = true ∨ feed.closed = true) := by
  unfold offer
  rw [if_neg (by simpa using h)]
  split
  next hcanceled => exact Or.inl hcanceled
  next =>
    split
    next hclosed => exact Or.inr hclosed
    next =>
      split
      · trivial
      · split <;> trivial

theorem Feed.retry_excused (feed : Feed) (task : TaskId) (canceled : Bool) (now : Nat)
    (selected : List Event) (deadline : Nat) :
    (feed.retry task canceled now selected deadline).1.Excused
      (canceled = true ∨ feed.closed = true) := by
  unfold retry
  split
  next hcanceled => exact Or.inl hcanceled
  next =>
    split
    next hclosed => exact Or.inr hclosed
    next =>
      split
      · trivial
      · split <;> trivial

theorem Leg.Excused.imp {reason reason' : Prop} {leg : Leg} (h : leg.Excused reason)
    (himp : reason → reason') : leg.Excused reason' := by
  cases leg with
  | done outcome =>
    cases outcome with
    | canceled | closed => exact himp h
    | _ => exact h
  | _ => trivial

variable {σ : Type} {bus : Bus σ} {id : ConsumerId} {task : TaskId} {consumer : Consumer}

/-- The consumer was cancelled, or its subscription dropped. -/
def Lost (bus : Bus σ) (id : ConsumerId) : Prop :=
  bus.isCanceled id = true ∨ ∃ feed, bus.feed? id = some feed ∧ feed.closed = true

theorem lost_of_feed {feed : Feed} (hfeed : bus.feed? id = some feed)
    (h : bus.isCanceled id = true ∨ feed.closed = true) : bus.Lost id :=
  h.imp_right fun hclosed => ⟨feed, hfeed, hclosed⟩

theorem not_lost (hcanceled : bus.isCanceled id = false) (h : bus.isSubscribed id = true) :
    ¬bus.Lost id := by
  rintro (hlost | ⟨feed, hfeed, hclosed⟩)
  · rw [hcanceled] at hlost
    cases hlost
  · rw [isSubscribed, hfeed, Option.any_some, hclosed] at h
    cases h

theorem beginLeg_excused (origin : Origin) {batch : List Event}
    (hselected : consumer.query.select batch ≠ [])
    (hfeed : bus.feed? consumer.id = none → bus.Lost consumer.id) :
    (bus.beginLeg task consumer origin batch).1.Excused (bus.Lost consumer.id) := by
  unfold beginLeg
  split
  next hnone => exact hfeed hnone
  next feed hfeed =>
    have hoffer := feed.offer_excused task (bus.isCanceled consumer.id) bus.now
      bus.settings.consumerTimeout hselected
    dsimp only
    split <;> exact hoffer.imp (lost_of_feed hfeed)

theorem reviewLeg_excused (origin : Origin) (selected : List Event) (deadline : Nat)
    (hfeed : bus.feed? consumer.id = none → bus.Lost consumer.id) :
    (bus.reviewLeg task consumer origin selected deadline).1.Excused (bus.Lost consumer.id) := by
  unfold reviewLeg
  split
  next hnone => exact hfeed hnone
  next feed hfeed =>
    have hretry := feed.retry_excused task (bus.isCanceled consumer.id) bus.now selected deadline
    dsimp only
    split <;> exact hretry.imp (lost_of_feed hfeed)

/-- A task holds on to consumers that have a feed, unless they were cancelled. -/
theorem StandingLaw.lost_of_unfed {held : Task} (law : StandingLaw bus.ledger)
    (h : bus.tasks.lookup task = some held) (hconsumer : consumer ∈ held.consumers)
    (hfeed : bus.feed? consumer.id = none) : bus.Lost consumer.id := by
  by_contra hlost
  have hcanceled : bus.isCanceled consumer.id = false := by
    rw [← Bool.not_eq_true]
    exact fun hcanceled => hlost (Or.inl hcanceled)
  have hroom := law.roomed _ (law.isRegistered h hconsumer hcanceled)
  simp [ledger, hfeed] at hroom

theorem Changes.canceled {l l' : Ledger} (changes : Changes l l') (h : l.isCanceled id = true) :
    l'.isCanceled id = true :=
  changes.invariant (P := fun l => l.isCanceled id = true) h fun h change => change.canceled h

theorem Changes.lost {bus' : Bus σ} (changes : Changes bus.ledger bus'.ledger)
    (h : bus.Lost id) : bus'.Lost id := by
  rcases h with hcanceled | ⟨feed, hfeed, hclosed⟩
  · exact Or.inl (changes.canceled hcanceled)
  · obtain ⟨room, hroom, hfollows⟩ := changes.follows (room_of_feed? hfeed)
    obtain ⟨feed', hfeed', rfl⟩ := Option.map_eq_some_iff.mp hroom
    refine Or.inr ⟨feed', hfeed', ?_⟩
    by_contra hopen
    have hopen := hfollows.closed (Bool.not_eq_true _ ▸ hopen)
    rw [show feed.room.closed = true from hclosed] at hopen
    cases hopen

/-- What is put into the feed is all that was selected. -/
theorem Looked.put_selected {origin : Origin} {selected : List Event} {leg : Leg} {o o' : Outline}
    {marks : List Mark} {events : Nat}
    (hlook : Looked id origin selected leg o marks (.done (.delivered events)) o')
    (hleg : leg.WaitsWith selected) (hdone : leg.isDone = false) :
    marks = [.noted (.queued id selected origin)] ∧ events = selected.length := by
  rcases hlook.passed hleg hdone with ⟨hsilent, -⟩ | ⟨hmarks, hdelivered⟩
  · rcases hlook.recorded hleg with ⟨-, hsame⟩ | ⟨hmarks, -⟩
    · cases leg with
      | done _ => cases hdone
      | fresh | waiting _ _ => cases hsame
    · cases hsilent.symm.trans hmarks
  · exact ⟨hmarks, by cases hdelivered; rfl⟩

end Deliveries

namespace Progress

variable {before : List Notice} {o o' : Outline} {lost lost' : Prop} {task : TaskId}
  {consumer : Consumer} {phase : ReplayPhase} {found todo later : List Event} {event : Event}

/-- What goes on aside does not touch the replay. -/
theorem aside (progress : Progress before o lost task consumer found todo)
    (h : o.Aside task consumer.id o') (hlost : lost → lost') :
    Progress before o' lost' task consumer found todo where
  decided := by
    obtain ⟨since, done, hhistory, hfound, hdecided⟩ := progress.decided
    obtain ⟨notices, hnotices, hsilent⟩ := h.silent
    refine ⟨since ++ notices, done, ?_, hfound, ?_⟩
    · rw [hnotices, hhistory, List.append_assoc]
    · rw [List.filterMap_append, List.filterMap_eq_nil_iff.mpr hsilent, List.append_nil]
      exact hdecided
  held held hheld := progress.held held (h.task ▸ hheld)
  ended hended := (progress.ended (h.task ▸ hended)).imp_right hlost

/-- The replay goes on, with nothing decided. -/
theorem keep (progress : Progress before o lost task consumer found todo)
    (hhistory : o'.history = o.history) (htask : o'.task task = some (.replay consumer phase))
    (hholds : phase.Holds todo) (hlimit : phase.sent + todo.length ≤ consumer.query.limit) :
    Progress before o' lost task consumer found todo where
  decided := hhistory ▸ progress.decided
  held held hheld := by
    cases htask.symm.trans hheld
    exact ⟨phase, rfl, hholds, hlimit⟩
  ended hended := by
    rw [htask] at hended
    cases hended

/-- The replay is through with an event and goes on to the next. -/
theorem decide {notice : Notice} {turnout : Turnout} {sent : Nat}
    (progress : Progress before o lost task consumer found (event :: later))
    (hhistory : o'.history = o.history ++ [notice])
    (hnotice : notice.turnout? consumer.id = some turnout) (hdecided : Decided event turnout)
    (htask : o'.task task = some (.replay consumer (.taking ⟨later.map ([·]), true⟩ sent)))
    (hlimit : sent + later.length ≤ consumer.query.limit) :
    Progress before o' lost task consumer found later where
  decided := by
    obtain ⟨since, done, hbefore, hfound, hdone⟩ := progress.decided
    refine ⟨since ++ [notice], done ++ [event], ?_, ?_, ?_⟩
    · rw [hhistory, hbefore, List.append_assoc]
    · rw [hfound, List.append_assoc]
      rfl
    · rw [List.filterMap_append, List.filterMap_cons_some hnotice]
      exact List.rel_append hdone (.cons hdecided .nil)
  held held hheld := by
    cases htask.symm.trans hheld
    exact ⟨_, rfl, .taking later sent, hlimit⟩
  ended hended := by
    rw [htask] at hended
    cases hended

/-- The replay ends. -/
theorem finish {notice : Notice} (progress : Progress before o lost task consumer found todo)
    (hhistory : o'.history = o.history ++ [notice])
    (hnotice : notice.turnout? consumer.id = none) (htask : o'.task task = none)
    (hover : todo = [] ∨ lost) : Progress before o' lost task consumer found todo where
  decided := by
    obtain ⟨since, done, hbefore, hfound, hdone⟩ := progress.decided
    refine ⟨since ++ [notice], done, ?_, hfound, ?_⟩
    · rw [hhistory, hbefore, List.append_assoc]
    · rw [List.filterMap_append, List.filterMap_cons_none hnotice, List.filterMap_nil,
        List.append_nil]
      exact hdone
  held held hheld := by
    rw [htask] at hheld
    cases hheld
  ended _ := hover

variable {σ : Type} {bus looked : Bus σ} {calls : List Call} {leg leg' : Leg} {marks : List Mark}
  {sent : Nat}

theorem finishReplay (progress : Progress before (bus.outline calls) lost task consumer found todo)
    (hover : todo = [] ∨ lost) :
    Progress before ((bus.finishReplay task consumer sent).outline calls) lost task consumer found
      todo := by
  rw [outline_finishReplay]
  exact progress.finish rfl rfl (Function.update_self _ _ _) hover

/-- A look at the delivery of one event: it is decided, it waits, or the replay ends because it has
lost its consumer. -/
theorem settleLeg
    (progress : Progress before (bus.outline calls) lost task consumer found (event :: later))
    (h : bus.tasks.lookup task = some (.replay consumer phase))
    (hlook : Looked consumer.id .replay [event] leg (bus.outline calls) marks leg'
      (looked.outline calls))
    (hleg : leg.WaitsWith [event]) (hdone : leg.isDone = false) (hexcused : leg'.Excused lost)
    (hlimit : sent + (event :: later).length ≤ consumer.query.limit) :
    ∃ todo, Progress before
      ((looked.settleLeg task consumer ⟨later.map ([·]), true⟩ sent leg').outline calls) lost task
      consumer found todo := by
  have hheld : looked.tasks.lookup task = some (.replay consumer phase) :=
    (congrFun hlook.frame.task task).trans h
  have hkept : ∀ next, ((looked.keepReplay task consumer next).outline calls).task task
      = some (.replay consumer next) := fun next => lookup_map_replace _ hheld
  have hlater : sent + 1 + later.length ≤ consumer.query.limit := by
    rw [List.length_cons] at hlimit
    omega
  have hsame : (∀ events, leg' ≠ .done (.delivered events)) →
      looked.outline calls = bus.outline calls := fun h => (hlook.eq_of_not_delivered h).2
  cases leg' with
  | fresh => exact absurd rfl hlook.ne_fresh
  | waiting selected deadline =>
    obtain ⟨rfl, -⟩ := hlook.waitsWith hleg selected deadline rfl
    have hhistory : looked.history = bus.history := congrArg Outline.history (hsame nofun)
    exact ⟨event :: later, progress.keep hhistory (hkept _) (.sending event later deadline sent)
      hlimit⟩
  | done outcome =>
    cases outcome with
    | delivered events =>
      obtain ⟨rfl, rfl⟩ := hlook.put_selected hleg hdone
      exact ⟨later, progress.decide hlook.frame.history (if_pos rfl) .put (hkept _) hlater⟩
    | timedOut =>
      have hhistory : looked.history = bus.history := congrArg Outline.history (hsame nofun)
      have hlate : ((looked.note (.replayTimedOut consumer.id)).keepReplay task consumer
            (.taking ⟨later.map ([·]), true⟩ sent)).history
          = bus.history ++ [.replayTimedOut consumer.id] :=
        congrArg (· ++ [_]) hhistory
      have hnext := hkept (.taking ⟨later.map ([·]), true⟩ sent)
      exact ⟨later, progress.decide hlate (if_pos rfl) .timedOut hnext (by omega)⟩
    | skipped => exact hexcused.elim
    | canceled | closed =>
      have hlooked : Progress before (looked.outline calls) lost task consumer found
          (event :: later) := hsame nofun ▸ progress
      exact ⟨_, hlooked.finishReplay (Or.inr hexcused)⟩

variable [Store σ] {bus' : Bus σ}

/-- The replay makes a step itself. -/
theorem replay (progress : Progress before (bus.outline calls) (bus.Lost consumer.id) task consumer
      found todo)
    (step : ReplayStep bus task consumer phase bus')
    (h : bus.tasks.lookup task = some (.replay consumer phase))
    (hfeed : bus.feed? consumer.id = none → bus.Lost consumer.id)
    (haccepted : ∀ event ∈ found, consumer.query.accepts event = true) :
    ∃ todo', Progress before (bus'.outline calls) (bus.Lost consumer.id) task consumer found
      todo' := by
  obtain ⟨held, hheld, hholds, hlimit⟩ := progress.held _ h
  cases hheld
  have hwanted : ∀ event ∈ todo, consumer.query.accepts event = true := by
    obtain ⟨-, done, -, rfl, -⟩ := progress.decided
    exact fun event hevent => haccepted event (List.mem_append_right _ hevent)
  cases step with
  | read => cases hholds
  | stream later hstream hsame =>
    have hkept : ((bus.keepReplay task consumer phase).outline calls).task task
        = some (.replay consumer phase) := lookup_map_replace _ h
    -- the stream has ended, and stays as it is
    cases hholds with
    | taking _ sent =>
      cases hstream
      rw [hsame rfl]
      exact ⟨todo, progress.keep rfl hkept (.taking todo sent) hlimit⟩
    | sending event others deadline sent =>
      cases hstream
      rw [hsame rfl]
      exact ⟨_, progress.keep rfl hkept (.sending event others deadline sent) hlimit⟩
  | @send batch batches ends sent hsated =>
    generalize hrest : (⟨batch :: batches, ends⟩ : Stream) = rest at hholds
    cases hholds with
    | taking _ _ =>
      cases todo with
      | nil => cases hrest
      | cons event later =>
        cases hrest
        -- what is left is within the limit, so the batch is not cut short
        have hselected : consumer.query.select ([event].take (consumer.query.limit - sent))
            = [event] := by
          have hroom : 0 < consumer.query.limit - sent := by
            have hlimit : sent + (event :: later).length ≤ consumer.query.limit := hlimit
            rw [List.length_cons] at hlimit
            omega
          rw [List.take_of_length_le hroom, Query.select,
            List.filter_cons_of_pos (hwanted event List.mem_cons_self), List.filter_nil]
        obtain ⟨notices, hlook⟩ := beginLeg_looked bus calls .replay task consumer
          ([event].take (consumer.query.limit - sent))
        rw [hselected] at hlook
        refine progress.settleLeg h hlook ?_ rfl (beginLeg_excused _ ?_ hfeed) hlimit
        · intro _ _ hfresh
          cases hfresh
        · rw [hselected]
          exact List.cons_ne_nil _ _
  | @resend selected deadline rest sent =>
    cases hholds with
    | sending event later _ _ =>
      obtain ⟨notices, hlook⟩ :=
        reviewLeg_looked bus calls .replay task consumer [event] [event] deadline
      have hexcused : (bus.reviewLeg task consumer .replay [event] deadline).1.Excused
          (bus.Lost consumer.id) :=
        reviewLeg_excused _ _ _ hfeed
      unfold resendBatch
      generalize bus.reviewLeg task consumer .replay [event] deadline = reviewed
        at hlook hexcused ⊢
      obtain ⟨leg, looked⟩ := reviewed
      cases leg with
      | done outcome =>
        refine progress.settleLeg h hlook ?_ rfl hexcused hlimit
        rintro _ _ ⟨⟩
        exact ⟨rfl, List.cons_ne_nil _ _⟩
      | fresh | waiting _ _ =>
        refine ⟨_, (hlook.eq_of_not_delivered ?_).2 ▸ progress⟩
        intro _ hdelivered
        cases hdelivered
  | @quit rest sent hover =>
    generalize hrest : rest = stream at hholds
    cases hholds with
    | taking _ _ =>
      refine ⟨todo, progress.finishReplay ?_⟩
      subst hrest
      rcases hover with hsated | hnone
      · rw [isSated, Bool.or_eq_true, decide_eq_true_eq] at hsated
        rcases hsated with hfull | hcanceled
        · have hlimit : sent + todo.length ≤ consumer.query.limit := hlimit
          exact Or.inl (List.eq_nil_of_length_eq_zero (by omega))
        · exact Or.inr (Or.inl hcanceled)
      · injection hnone with hbatches
        exact Or.inl (List.map_eq_nil_iff.mp hbatches)

end Progress

section Runs

variable {σ : Type} [Store σ] {settings : Settings} {store? : Option σ} {world world' : World σ}
  {trace later marks : List Mark} {before : List Notice} {task : TaskId} {consumer : Consumer}
  {query : Query} {found todo : List Event}

theorem Moves.nextTask_le {o o' : Outline} (moves : Moves o marks o') :
    o.nextTask ≤ o'.nextTask := by
  refine moves.invariant (P := fun _ last => o.nextTask ≤ last.nextTask) (Nat.le_refl _) ?_
  intro _ middle _ last h move
  refine Nat.le_trans h ?_
  cases move with
  | report _ => exact Nat.le_refl _
  | call move => exact Nat.le_of_eq move.frame.nextTask.symm
  | work move => exact Nat.le_of_eq move.frame.nextTask.symm
  | coordinate move =>
    cases move with
    | launch _ => exact Nat.le_succ _
    | _ => exact Nat.le_refl _

theorem Progress.step
    (progress : Progress before world.outline (world.bus.Lost consumer.id) task consumer found todo)
    (step : Step world marks world') (fresh : world.outline.Fresh)
    (hbegun : task < world.bus.nextTask) (sole : world.outline.Sole consumer.id task)
    (standing : StandingLaw world.bus.ledger)
    (haccepted : ∀ event ∈ found, consumer.query.accepts event = true) :
    ∃ todo', Progress before world'.outline (world'.bus.Lost consumer.id) task consumer found
      todo' := by
  have hlost : world.bus.Lost consumer.id → world'.bus.Lost consumer.id := step.changes.lost
  have hkind : ∀ publish batch legs,
      world.bus.tasks.lookup task ≠ some (.fanOut publish batch legs) := by
    intro publish batch legs hfanOut
    obtain ⟨_, hheld, -⟩ := progress.held _ hfanOut
    cases hheld
  have hcases : world.outline.Aside task consumer.id world'.outline ∨ _ :=
    step.replay_cases fresh hbegun hkind
  rcases hcases with haside | ⟨other, consumer', phase, hreplay, hstep⟩
  · exact ⟨todo, progress.aside haside hlost⟩
  · by_cases hid : consumer'.id = consumer.id
    · obtain rfl := sole.replays other ⟨consumer', phase, hreplay, hid⟩
      obtain ⟨phase', hheld, -⟩ := progress.held _ hreplay
      cases hheld
      have hfeed : world.bus.feed? consumer.id = none → world.bus.Lost consumer.id :=
        standing.lost_of_unfed hreplay List.mem_cons_self
      obtain ⟨todo', progress'⟩ := progress.replay hstep hreplay hfeed haccepted
      exact ⟨todo', progress'.aside (.of_eq rfl rfl rfl) hlost⟩
    · -- a task never replays to two consumers
      have hother : other ≠ task := by
        rintro rfl
        obtain ⟨phase', hheld, -⟩ := progress.held _ hreplay
        cases hheld
        exact hid rfl
      have haside : world.outline.Aside task consumer.id (world'.bus.outline world.calls) :=
        hstep.aside hreplay hother hid
      exact ⟨todo, progress.aside (haside.trans (.of_eq rfl rfl rfl)) hlost⟩

/-- At any point of a run after the read, the events that the replay is through with are decided. -/
theorem Progress.steps
    (progress : Progress before world.outline (world.bus.Lost consumer.id) task consumer found todo)
    (run : Run settings store? trace world) (hquery : .subscribe consumer.id query ∈ taken trace)
    (hbegun : task < world.bus.nextTask) (sole : world.outline.Sole consumer.id task)
    (haccepted : ∀ event ∈ found, consumer.query.accepts event = true)
    (steps : Steps world later world') :
    ∃ todo', Progress before world'.outline (world'.bus.Lost consumer.id) task consumer found
      todo' := by
  induction steps with
  | refl => exact ⟨todo, progress⟩
  | @tail later middle marks last steps step ih =>
    obtain ⟨todo', progress'⟩ := ih
    have run' : Run settings store? (trace ++ later) middle := Steps.trans run steps
    have moves : Moves world.outline later middle.outline := steps.moves run.laws.fresh
    exact progress'.step step run'.laws.fresh (Nat.lt_of_lt_of_le hbegun moves.nextTask_le)
      (sole.moves run.laws hquery moves) run'.ledgerLaws.standing haccepted

theorem Steps.isCanceled_of_later (steps : Steps world later world')
    {id : ConsumerId} (h : world'.bus.isCanceled id = false) : world.bus.isCanceled id = false := by
  by_contra hearlier
  have hlater : world'.bus.isCanceled id = true :=
    steps.changes.canceled (Bool.not_eq_false _ ▸ hearlier)
  rw [h] at hlater
  cases hlater

/-- Nothing has been put into the feed by a replay that has just begun. -/
theorem Run.replayed_eq_nil {stream : Stream} (run : Run settings store? trace world)
    (h : world.bus.tasks.lookup task = some (.replay consumer (.taking stream 0))) :
    replayed consumer.id trace = [] := by
  have hsent := (run.limits.works task consumer _ h).2.sent_eq
  rw [ReplayPhase.sent, List.length_eq_zero_iff, List.flatten_eq_nil_iff] at hsent
  refine List.eq_nil_iff_forall_not_mem.mpr fun batch hbatch => ?_
  exact run.laws.ne_nil_of_replayed hbatch (hsent batch hbatch)

/-- From its read on, a replay goes through what it has found. -/
theorem Run.replay_progress (run : Run settings store? trace world)
    (hquery : .subscribe consumer.id query ∈ taken trace)
    (hheld : world.bus.tasks.lookup task
      = some (.replay consumer (.taking ⟨found.map ([·]), true⟩ 0)))
    (hlimit : found.length ≤ consumer.query.limit)
    (haccepted : ∀ event ∈ found, consumer.query.accepts event = true)
    (steps : Steps world later world') :
    ∃ todo, Progress world.bus.history world'.outline (world'.bus.Lost consumer.id) task consumer
      found todo := by
  have hbegun : task < world.bus.nextTask := by
    by_contra hlater
    have hnone : world.bus.tasks.lookup task = none :=
      run.laws.fresh.task task (Nat.not_lt.mp hlater)
    cases hheld.symm.trans hnone
  have begun : Progress world.bus.history world.outline (world.bus.Lost consumer.id) task consumer
      found found := by
    refine ⟨⟨[], [], (List.append_nil _).symm, rfl, .nil⟩, ?_, ?_⟩
    · intro held hsame
      cases hheld.symm.trans hsame
      exact ⟨_, rfl, .taking found 0, (Nat.zero_add _).trans_le hlimit⟩
    · intro hnone
      cases hheld.symm.trans hnone
  exact begun.steps run hquery hbegun (run.limits.sole hheld) haccepted steps

/-- A replay that ends without having lost its consumer has decided on all that it has found. -/
theorem Progress.decided_of_ended {o : Outline} {lost : Prop} {since : List Notice}
    (progress : Progress before o lost task consumer found todo) (hended : o.task task = none)
    (hstays : ¬lost) (hhistory : o.history = before ++ since) :
    List.Forall₂ Decided found (since.filterMap (·.turnout? consumer.id)) := by
  obtain rfl : todo = [] := (progress.ended hended).resolve_right hstays
  obtain ⟨reports, done, hreports, rfl, hdecided⟩ := progress.decided
  rw [List.append_cancel_left (hreports.symm.trans hhistory)] at hdecided
  rwa [List.append_nil]

end Runs

section Rings

variable {settings : Settings} {capacity : Nat} {trace later : List Mark} {world : World Ring}
  {bus : Bus Ring} {calls : List Call} {kept : List Kept} {ring : Ring} {task : TaskId}
  {consumer : Consumer} {query : Query}

/-- What is recorded of the read of a replay. -/
def readMarks (bus : Bus Ring) (task : TaskId) (consumer : Consumer) : List Mark :=
  yields consumer.id (bus.readHistory task consumer).1 ++ news bus (bus.readHistory task consumer).2

/-- Of the last events of a history, as many as fit into a ring, those that match, newest first, up
to the limits of the query and of the bus. -/
def latest (query : Query) (capacity most : Nat) (history : List Event) : List Event :=
  (query.select (history.reverse.take capacity)).take (min query.limit most)

theorem RingRun.capacity_eq (run : RingRun settings capacity trace world kept)
    (h : world.bus.store? = some ring) : ring.capacity = capacity := by
  induction run generalizing ring with
  | make =>
    cases h
    rfl
  | @others trace bus calls held kept run hheld call ih =>
    simp only [mapStore, hheld, Option.map_some, Option.some.injEq] at h
    rw [← h, call.perform_capacity]
    exact ih hheld
  | step run step hown ih =>
    cases step.storeCall run.law.whole hown with
    | nothing _ _ hstore => exact ih (hstore ▸ h)
    | @write batch held hheld hstore =>
      cases hstore.symm.trans h
      rcases ring_write _ batch held with ⟨_, -, hkept⟩ | ⟨-, hkept⟩
      · rw [hkept]
        exact ih hheld
      · rw [hkept, Ring.pushAll_capacity]
        exact ih hheld
    | @read _ consumer held hheld _ hstore =>
      cases hstore.symm.trans h
      rw [(ring_read _ consumer.query held).2]
      exact ih hheld

/-- The ring has the latest events for a query that the bus has bounded. -/
theorem RingRun.matching_eq (run : RingRun settings capacity trace world kept)
    (h : world.bus.store? = some ring) (most : Nat) :
    ring.matching (query.clampLimit most) = latest query capacity most (kept.map (·.event)) := by
  obtain ⟨held, shut, hheld, hreflects⟩ := run.law.reflects
  cases h.symm.trans hheld
  rw [Ring.matching, hreflects.recent_capacity, run.capacity_eq h]
  rfl

def Turnout.isPut : Turnout → Bool
  | .put _ => true
  | .timedOut => false

/-- What was put into the feed are the events whose delivery has not timed out. -/
theorem batches_of_decided {found : List Event} {turnouts : List Turnout}
    (h : List.Forall₂ Decided found turnouts) :
    turnouts.filterMap Turnout.batch?
      = ((found.zip turnouts).filter (·.2.isPut)).map fun entry => [entry.1] := by
  induction h with
  | nil => rfl
  | cons hdecided _ ih =>
    cases hdecided with
    | put => exact congrArg (_ :: ·) ih
    | timedOut => exact ih

/-- The consumer of a replay is as it was subscribed, within the bound of the bus. -/
theorem Laws.query_of_replay {o : Outline} {phase : ReplayPhase} (laws : Laws trace o)
    (hquery : .subscribe consumer.id query ∈ taken trace)
    (h : o.task task = some (.replay consumer phase)) :
    consumer.query = query.clampLimit o.maxReplay := by
  obtain ⟨query', hquery', hconsumer⟩ := (laws.replay.works task consumer phase h).known
  have hsame := query_unique laws.number (laws.queue.in_order.subset hquery)
    (laws.queue.in_order.subset hquery')
  rw [hsame, hconsumer]

/-- An open ring answers the read with all that is wanted. -/
theorem RingRun.readHistory_eq (run : RingRun settings capacity trace ⟨bus, calls⟩ kept)
    (hstore : bus.store? = some ring) (hopen : ring.closed = false)
    (hcanceled : bus.isCanceled consumer.id = false)
    (hconsumer : consumer.query = query.clampLimit settings.maxReplay) :
    (bus.readHistory task consumer).1 = .ok
      ⟨(latest query capacity settings.maxReplay (kept.map (·.event))).map ([·]), true⟩ := by
  have hanswer : (bus.readHistory task consumer).1
      = (ring.read (bus.isCanceled consumer.id) consumer.query).result := by
    rw [readHistory, hstore]
    rfl
  rw [hanswer, hcanceled, Ring.read_result hopen, hconsumer, run.matching_eq hstore]

theorem isCanceled_before_read {id : ConsumerId}
    (htask : bus.tasks.lookup task = some (.replay consumer .starting))
    (steps : Steps ⟨(bus.readHistory task consumer).2, calls⟩ later world)
    (h : world.bus.isCanceled id = false) : bus.isCanceled id = false :=
  (Steps.tail (.refl ⟨bus, calls⟩) (.read htask)).isCanceled_of_later (steps.isCanceled_of_later h)

theorem RingRun.run_read (run : RingRun settings capacity trace ⟨bus, calls⟩ kept)
    (htask : bus.tasks.lookup task = some (.replay consumer .starting)) :
    Run settings (some (Ring.ofCapacity capacity)) (trace ++ bus.readMarks task consumer)
      ⟨(bus.readHistory task consumer).2, calls⟩ := by
  have htail := Steps.tail run.run (.read htask)
  rwa [List.append_assoc] at htail

section Read

variable (run : RingRun settings capacity trace ⟨bus, calls⟩ kept)
  (hquery : .subscribe consumer.id query ∈ taken trace)
  (htask : bus.tasks.lookup task = some (.replay consumer .starting))

include run hquery htask

theorem RingRun.query_of_replay : consumer.query = query.clampLimit settings.maxReplay := by
  rw [← run.run.constants.1]
  exact run.run.laws.query_of_replay hquery htask

variable (hstore : bus.store? = some ring) (hopen : ring.closed = false)

include hstore hopen

/-- The read of a replay finds the latest events, and has them all still to deliver. -/
theorem RingRun.lookup_read (hcanceled : bus.isCanceled consumer.id = false) :
    (bus.readHistory task consumer).2.tasks.lookup task = some (.replay consumer
      (.taking ⟨(latest query capacity settings.maxReplay (kept.map (·.event))).map ([·]), true⟩
        0)) :=
  lookup_readHistory htask
    (run.readHistory_eq hstore hopen hcanceled (run.query_of_replay hquery htask))

variable (steps : Steps ⟨(bus.readHistory task consumer).2, calls⟩ later world)
  (hcanceled : world.bus.isCanceled consumer.id = false)

include steps hcanceled

/-- Whatever times out and whatever else is delivered meanwhile, a replay to a consumer that is not
cancelled goes through the latest events in their order. -/
theorem RingRun.replay_progress :
    ∃ todo, Progress (bus.readHistory task consumer).2.history world.outline
      (world.bus.Lost consumer.id) task consumer
      (latest query capacity settings.maxReplay (kept.map (·.event))) todo := by
  have hconsumer := run.query_of_replay hquery htask
  have hknown : .subscribe consumer.id query ∈ taken (trace ++ bus.readMarks task consumer) := by
    rw [taken_append]
    exact List.mem_append_left _ hquery
  have hheld := run.lookup_read hquery htask hstore hopen
    (isCanceled_before_read htask steps hcanceled)
  refine (run.run_read htask).replay_progress hknown hheld ?_ ?_ steps
  · rw [hconsumer]
    exact List.length_take_le _ _
  · intro event hevent
    rw [hconsumer]
    exact (List.mem_filter.mp (List.mem_of_mem_take hevent)).2

/-- A replay to a consumer that stays decides on each of the latest events in its order: the feed
gets each in a batch of its own, but for those whose own delivery has timed out. -/
theorem RingRun.decided_of_read (hended : world.bus.tasks.lookup task = none)
    (hsubscribed : world.bus.isSubscribed consumer.id = true) :
    let wanted := latest query capacity settings.maxReplay (kept.map (·.event))
    List.Forall₂ Decided wanted (turnouts consumer.id later) ∧
      replayed consumer.id (trace ++ bus.readMarks task consumer ++ later)
        = ((wanted.zip (turnouts consumer.id later)).filter (·.2.isPut)).map
            fun entry => [entry.1] := by
  intro wanted
  have run' := run.run_read htask
  obtain ⟨todo, progress⟩ := run.replay_progress hquery htask hstore hopen steps hcanceled
  have hhistory : world.bus.history
      = (bus.readHistory task consumer).2.history ++ reported later :=
    (steps.moves run'.laws.fresh).history_eq
  have hdecided : List.Forall₂ Decided wanted (turnouts consumer.id later) :=
    progress.decided_of_ended hended (not_lost hcanceled hsubscribed) hhistory
  have hheld := run.lookup_read hquery htask hstore hopen
    (isCanceled_before_read htask steps hcanceled)
  refine ⟨hdecided, ?_⟩
  rw [replayed_append, run'.replayed_eq_nil hheld, List.nil_append, replayed_eq_turnouts,
    batches_of_decided hdecided]

end Read

end Rings

end EventBus.Bus
