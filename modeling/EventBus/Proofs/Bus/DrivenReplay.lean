import EventBus.Proofs.Bus.Driven
import EventBus.Proofs.Bus.Finality
import EventBus.Proofs.Bus.ReplayCompleteness

/-!
Replay from a ring, of a bus that is driven from outside. Whatever is done to such a bus is a run of
it and its ring, and what that run says of the replay is to be read off the bus: which deliveries it
has reported, what its feeds hold, and what was received. A replay that has its turn goes through
its events as far as it can, and stops only where the next one has to wait for a place.
-/

namespace EventBus.Bus

section Connection

variable {settings : Settings} {capacity : Nat} {trace later seen : List Mark}
  {world world' : World Ring} {bus bus' : Bus Ring} {calls : List Call} {kept : List Kept}

/-- What becomes of a ring by one of its calls. -/
def IsRingCall (f : Ring → Ring) : Prop :=
  ∃ call : Ring.Call, f = fun ring => (call.perform ring).2

/-- A ring is changed by writes only, which are recorded. -/
theorem StoreCall.store_eq_of_silent {marks : List Mark} (call : StoreCall bus bus' marks)
    (hsilent : marks = []) : bus'.store? = bus.store? := by
  cases call with
  | nothing _ _ hstore => exact hstore
  | write _ _ => cases hsilent
  | @read _ consumer ring hheld _ hstore =>
    rw [hstore, hheld, (ring_read _ consumer.query ring).2]

theorem RingRun.stored (run : RingRun settings capacity trace world kept)
    (stored : StoredSteps IsRingCall world later world') :
    ∃ more, RingRun settings capacity (trace ++ later) world' (kept ++ more) := by
  induction stored with
  | refl => exact ⟨[], by rwa [List.append_nil, List.append_nil]⟩
  | @own later middle marks last _ step call ih =>
    obtain ⟨more, run'⟩ := ih
    refine ⟨more ++ given (publishCount (trace ++ later)) marks, ?_⟩
    rw [← List.append_assoc, ← List.append_assoc, ← List.append_assoc]
    exact run'.step step call.store_eq_of_silent
  | @others later bus calls f _ hcall ih =>
    obtain ⟨more, run'⟩ := ih
    obtain ⟨call, rfl⟩ := hcall
    obtain ⟨ring, -, hring, -⟩ := run'.law.reflects
    refine ⟨more ++ foreign ring call, ?_⟩
    rw [← List.append_assoc]
    exact run'.others hring call

/-- The order of turns is no part of a run. -/
theorem RingRun.lined (run : RingRun settings capacity trace ⟨bus, calls⟩ kept)
    (line : List Actor) : RingRun settings capacity trace ⟨{ bus with ready := line }, calls⟩ kept := by
  have hstep := run.step (.schedule line bus.timers) fun _ => rfl
  have hnews : news bus { bus with ready := line } = [] := news_of_history_eq rfl
  have hgiven : given (publishCount trace) [] = [] := rfl
  rwa [List.append_nil, hnews, List.append_nil, hgiven, List.append_nil] at hstep

/-- Whatever is done to a new bus and its ring is a run of them. -/
theorem exists_ring_run_of_inputs (settings : Settings) (capacity : Nat)
    (inputs : List (Input Ring)) (h : ∀ f, .mapStore f ∈ inputs → IsRingCall f) :
    ∃ trace kept,
      RingRun settings capacity trace
        ⟨inputs.foldl perform (create settings (some (.ofCapacity capacity))), []⟩ kept ∧
      trace.filter Mark.isOfCall
        = (create settings (some (Ring.ofCapacity capacity))).seenOfAll inputs := by
  obtain ⟨trace, stored, hseen, -⟩ :=
    exists_run_of_inputs settings (some (Ring.ofCapacity capacity)) inputs h
  obtain ⟨kept, run⟩ := RingRun.make.stored stored
  exact ⟨trace, kept, run, hseen⟩

end Connection

section Standing

variable {σ : Type} {id : ConsumerId}

/-- The consumer has not been cancelled, and its subscription has not been dropped. -/
structure Stays (bus : Bus σ) (id : ConsumerId) : Prop where
  isCanceled : bus.isCanceled id = false
  isSubscribed : bus.isSubscribed id = true

theorem Stays.exists_feed {bus : Bus σ} (stays : bus.Stays id) :
    ∃ feed, bus.feed? id = some feed ∧ feed.closed = false := by
  have hsubscribed := stays.isSubscribed
  rw [Bus.isSubscribed, Option.any_eq_true] at hsubscribed
  obtain ⟨feed, hfeed, hopen⟩ := hsubscribed
  exact ⟨feed, hfeed, by simpa using hopen⟩

/-- How a replay of the events stands that has begun when so much was reported, to a consumer that
has stayed. So much has been seen of the bus from outside. -/
structure Replaying (before : List Notice) (wanted : List Event) (task : TaskId)
    (consumer : Consumer) (seen : List Mark) (bus : Bus Ring) (todo : List Event) : Prop where
  progress : Progress before (bus.outline []) False task consumer wanted todo
  /-- What was put into the feed has been received, or is still there. -/
  fed : ∃ feed, bus.feed? consumer.id = some feed ∧
    received consumer.id seen ++ feed.queue = bus.history.filterMap (·.queued? consumer.id)
  /-- When the task has ended, each event is decided, and what the replay has put into the feed are
  those that have not timed out. -/
  complete : bus.tasks.lookup task = none → ∃ since, bus.history = before ++ since ∧
    List.Forall₂ Decided wanted (since.filterMap (·.turnout? consumer.id)) ∧
    (bus.history.filterMap (·.turnout? consumer.id)).filterMap Turnout.batch?
      = ((wanted.zip (since.filterMap (·.turnout? consumer.id))).filter (·.2.isPut)).map
          fun entry => [entry.1]

/-- The replay is over, or the first event that it has left waits for a place: the feed is open, no
place is kept for it, and the delivery is not overdue. -/
def Paused (bus : Bus σ) (task : TaskId) (consumer : Consumer) (todo : List Event) : Prop :=
  todo = [] ∧ bus.tasks.lookup task = none ∨
    ∃ event later deadline sent, todo = event :: later ∧
      bus.tasks.lookup task
        = some (.replay consumer (.sending [event] deadline ⟨later.map ([·]), true⟩ sent)) ∧
      bus.now < deadline ∧ bus.HeldUp task consumer.id

/-- The line while the task has its turn: it was the first in it, or it is out of turn. -/
def TakesTurn (bus : Bus σ) (task : TaskId) (line : List Actor) : Prop :=
  line = bus.ready ∨ bus.ready = .task task :: line

end Standing

section Turns

variable {settings : Settings} {capacity : Nat} {trace seen more : List Mark} {bus bus' : Bus Ring}
  {kept : List Kept} {ring : Ring} {task : TaskId} {consumer : Consumer} {query : Query}
  {phase : ReplayPhase} {before : List Notice} {wanted todo : List Event} {line : List Actor}

/-- The Subscribe of a consumer with a replay has been taken, and it is the one that was sent. -/
theorem Laws.taken_of_sent {o : Outline} (laws : Laws trace o)
    (h : o.task task = some (.replay consumer phase))
    (hsent : .subscribe consumer.id query ∈ sent trace) :
    .subscribe consumer.id query ∈ taken trace := by
  obtain ⟨query', hquery', -⟩ := (laws.replay.works task consumer phase h).known
  rwa [query_unique laws.number hsent (laws.queue.in_order.subset hquery')]

/-- An open ring has nothing to report of a read. -/
theorem history_readHistory (hstore : bus.store? = some ring) (hopen : ring.closed = false)
    (hcanceled : bus.isCanceled consumer.id = false) :
    (bus.readHistory task consumer).2.history = bus.history := by
  have hanswer : Store.read (bus.isCanceled consumer.id) consumer.query ring
      = ⟨.ok (ring.outbox consumer.query).stream, ring, []⟩ := by
    change Ring.read _ _ _ = _
    rw [Ring.read, hcanceled, hopen]
    rfl
  unfold readHistory
  rw [hstore]
  dsimp only
  rw [hanswer]
  exact List.append_nil _

/-- A replay that sleeps is over, or held up. -/
theorem Replaying.paused (replaying : Replaying before wanted task consumer seen bus todo)
    (sleeps : bus.Sleeps (.task task)) : bus.Paused task consumer todo := by
  obtain ⟨progress, -, -⟩ := replaying
  cases hheld : bus.tasks.lookup task with
  | none => exact Or.inl ⟨(progress.ended hheld).resolve_right id, hheld⟩
  | some held =>
    obtain ⟨phase, rfl, hholds, -⟩ := progress.held held hheld
    cases hholds with
    | taking _ sent =>
      -- it would wait for more of a stream that has ended
      obtain ⟨hopen, -⟩ := (sleeps.hears _ hheld).listens consumer _ sent rfl
      cases congrArg Stream.ends hopen
    | sending event later deadline sent =>
      have hidle : ¬bus.LegStirs task consumer.id (.waiting [event] deadline) := fun hstirs =>
        sleeps.idle ⟨_, hheld, Or.inl ⟨_, List.mem_singleton_self _, hstirs⟩⟩
      rw [LegStirs, not_or, not_or, Bool.not_eq_true, Nat.not_le] at hidle
      obtain ⟨hlive, hearly, hserved⟩ := hidle
      obtain ⟨feed, hfeed, hclosed, hfree⟩ : ∃ feed, bus.feed? consumer.id = some feed ∧
          feed.closed = false ∧ feed.places.isGranted task = false := by
        simpa [Served] using hserved
      exact Or.inr ⟨event, later, deadline, sent, rfl, hheld, hearly, feed, hfeed, hclosed, hlive,
        hfree⟩

section Started

variable (run : RingRun settings capacity trace ⟨bus, []⟩ kept)
  (hseen : trace.filter Mark.isOfCall = seen)
  (hsent : .sent (.subscribe consumer.id query) ∈ seen)
  (htask : bus.tasks.lookup task = some (.replay consumer .starting))
  (hstore : bus.store? = some ring) (hopen : ring.closed = false)

include run hseen hsent htask hstore hopen

/-- What a replay has come to that started in its turn, if its consumer has stayed until then. -/
theorem RingRun.replaying (leads : Leads IsRingCall more (bus.startReplay task consumer) bus')
    (stays : bus'.Stays consumer.id) :
    ∃ todo, Replaying bus.history
      (latest query capacity settings.maxReplay (kept.map (·.event))) task consumer (seen ++ more)
      bus' todo := by
  have hstart : Leads IsRingCall [] (bus.readHistory task consumer).2
      (bus.startReplay task consumer) := (sendHistory_reaches htask).leads
  obtain ⟨later, stored, hmore⟩ := (hstart.trans leads) []
  have hquery : .subscribe consumer.id query ∈ taken trace := by
    refine run.run.laws.taken_of_sent htask ?_
    subst hseen
    exact List.mem_filterMap.mpr ⟨_, List.mem_of_mem_filter hsent, rfl⟩
  have hcanceled := isCanceled_before_read htask stored.steps stays.isCanceled
  have hread : (bus.readHistory task consumer).2.history = bus.history :=
    history_readHistory hstore hopen hcanceled
  obtain ⟨todo, progress⟩ :=
    run.replay_progress hquery htask hstore hopen stored.steps stays.isCanceled
  rw [hread] at progress
  have run' : Run settings (some (Ring.ofCapacity capacity))
      (trace ++ bus.readMarks task consumer ++ later) ⟨bus', []⟩ :=
    Steps.trans (run.run_read htask) stored.steps
  have hseen' : (trace ++ bus.readMarks task consumer ++ later).filter Mark.isOfCall
      = seen ++ more := by
    rw [List.filter_append, List.filter_append, readMarks, List.filter_append,
      filter_isOfCall_yields, filter_isOfCall_news, hseen, hmore, List.append_nil, List.append_nil,
      List.nil_append]
  have hreported : bus'.history = reported (trace ++ bus.readMarks task consumer ++ later) :=
    run'.history_eq
  refine ⟨todo, progress.aside (.refl _) (not_lost stays.isCanceled stays.isSubscribed), ?_, ?_⟩
  · obtain ⟨feed, hfeed, hclosed⟩ := stays.exists_feed
    refine ⟨feed, hfeed, ?_⟩
    rw [← hseen', received_filter_isOfCall, hreported, ← queued_eq_reported]
    exact run'.received_append_queue hfeed hclosed
  · intro hended
    obtain ⟨hdecided, hbatches⟩ := run.decided_of_read hquery htask hstore hopen stored.steps
      stays.isCanceled hended stays.isSubscribed
    have hsince : bus'.history = bus.history ++ reported later := by
      rw [← hread]
      exact (stored.steps.moves (run.run_read htask).laws.fresh).history_eq
    refine ⟨reported later, hsince, hdecided, ?_⟩
    rw [replayed_eq_turnouts, turnouts, ← hreported] at hbatches
    exact hbatches

/-- The turn in which a replay starts. -/
theorem RingRun.replaying_started (stays : (bus.startReplay task consumer).Stays consumer.id) :
    ∃ todo, Replaying bus.history
      (latest query capacity settings.maxReplay (kept.map (·.event))) task consumer seen
      (bus.startReplay task consumer) todo ∧
      (bus.startReplay task consumer).Paused task consumer todo := by
  obtain ⟨todo, replaying⟩ :=
    run.replaying hseen hsent htask hstore hopen (.refl _) stays
  rw [List.append_nil] at replaying
  exact ⟨todo, replaying, replaying.paused (startReplay_sleeps ⟨_, _, _, run.run⟩ htask)⟩

/-- A turn in which it goes on. -/
theorem RingRun.replaying_resumed {selected : List Event} {deadline sent : Nat} {rest : Stream}
    (leads : Leads IsRingCall more (bus.startReplay task consumer) bus')
    (h : bus'.tasks.lookup task = some (.replay consumer (.sending selected deadline rest sent)))
    (reached : Reached bus') (hears : bus'.Hears (.task task))
    (stays : (bus'.resumeReplay task consumer selected deadline rest sent).Stays consumer.id) :
    ∃ todo, Replaying bus.history
      (latest query capacity settings.maxReplay (kept.map (·.event))) task consumer (seen ++ more)
      (bus'.resumeReplay task consumer selected deadline rest sent) todo ∧
      (bus'.resumeReplay task consumer selected deadline rest sent).Paused task consumer todo := by
  have hresumed : Leads IsRingCall [] bus'
      (bus'.resumeReplay task consumer selected deadline rest sent) :=
    (resumeReplay_reaches h).leads
  have hboth := leads.trans hresumed
  rw [List.append_nil] at hboth
  obtain ⟨todo, replaying⟩ := run.replaying hseen hsent htask hstore hopen hboth stays
  exact ⟨todo, replaying, replaying.paused (resumeReplay_sleeps reached h hears)⟩

end Started

theorem Driven.turn_of_line {σ : Type} [Store σ] {bus : Bus σ} (driven : Driven bus)
    (h : bus.TakesTurn task line) : Driven ({ bus with ready := line }.turn (.task task)) := by
  rcases h with rfl | hready
  · exact driven.turn _
  · exact driven.popped hready

theorem turn_eq_startReplay (h : bus.tasks.lookup task = some (.replay consumer .starting)) :
    bus.turn (.task task) = bus.startReplay task consumer := by
  rw [turn, h]
  rfl

end Turns

section Inputs

/-- Replay from a ring is complete. In every run the read finds the latest events that match, and a
replay to a consumer that stays until its task has ended decides on each of them in their order: the
feed gets each in a batch of its own, but for those whose own delivery has timed out. Of a bus that
is driven from outside and its ring, the same is to be read off the bus from the turn on in which
the replay starts, with what its feed holds and what was received. That turn, and each in which the
replay goes on, leaves it over or with a delivery that cannot go on. -/
theorem replay_complete (settings : Settings) (capacity : Nat) (task : TaskId)
    (consumer : Consumer) (query : Query) :
    (∀ trace bus calls kept ring later world,
      RingRun settings capacity trace ⟨bus, calls⟩ kept →
      .subscribe consumer.id query ∈ taken trace →
      bus.tasks.lookup task = some (.replay consumer .starting) →
      bus.store? = some ring → ring.closed = false →
      Steps ⟨(bus.readHistory task consumer).2, calls⟩ later world →
      world.bus.tasks.lookup task = none → world.bus.isCanceled consumer.id = false →
      world.bus.isSubscribed consumer.id = true →
      let wanted := latest query capacity settings.maxReplay (kept.map (·.event))
      List.Forall₂ Decided wanted (turnouts consumer.id later) ∧
        replayed consumer.id (trace ++ bus.readMarks task consumer ++ later)
          = ((wanted.zip (turnouts consumer.id later)).filter (·.2.isPut)).map
              fun entry => [entry.1]) ∧
    ∀ inputs : List (Input Ring), (∀ f, .mapStore f ∈ inputs → IsRingCall f) →
      let new := create settings (some (Ring.ofCapacity capacity))
      let bus := inputs.foldl perform new
      ∃ trace kept, RingRun settings capacity trace ⟨bus, []⟩ kept ∧
        trace.filter Mark.isOfCall = new.seenOfAll inputs ∧
        ∀ ring line, .sent (.subscribe consumer.id query) ∈ new.seenOfAll inputs →
          bus.tasks.lookup task = some (.replay consumer .starting) →
          bus.store? = some ring → ring.closed = false → bus.TakesTurn task line →
          let wanted := latest query capacity settings.maxReplay (kept.map (·.event))
          let started := { bus with ready := line }.startReplay task consumer
          wanted = ring.matching (query.clampLimit settings.maxReplay) ∧
          (started.Stays consumer.id → ∃ todo,
            Replaying bus.history wanted task consumer (new.seenOfAll inputs) started todo ∧
              started.Paused task consumer todo) ∧
          ∀ more : List (Input Ring), (∀ f, .mapStore f ∈ more → IsRingCall f) →
            let final := more.foldl perform started
            let seen := new.seenOfAll inputs ++ started.seenOfAll more
            (final.Stays consumer.id → ∃ todo,
              Replaying bus.history wanted task consumer seen final todo) ∧
            ∀ selected deadline rest sent line, final.TakesTurn task line →
              final.tasks.lookup task
                = some (.replay consumer (.sending selected deadline rest sent)) →
              let resumed :=
                { final with ready := line }.resumeReplay task consumer selected deadline rest sent
              resumed.Stays consumer.id → ∃ todo,
                Replaying bus.history wanted task consumer seen resumed todo ∧
                  resumed.Paused task consumer todo := by
  refine ⟨fun trace bus calls kept ring later world run hquery htask hstore hopen steps hended
    hcanceled hsubscribed => run.decided_of_read hquery htask hstore hopen steps hcanceled hended
      hsubscribed, fun inputs hinputs => ?_⟩
  intro new bus
  obtain ⟨trace, kept, run, hseen⟩ := exists_ring_run_of_inputs settings capacity inputs hinputs
  refine ⟨trace, kept, run, hseen, fun ring line hsent htask hstore hopen hline => ?_⟩
  intro wanted started
  have run' : RingRun settings capacity trace ⟨{ bus with ready := line }, []⟩ kept :=
    run.lined line
  have hdriven : Driven started := by
    have driven : Driven bus := (driven_create settings _).foldl_perform inputs
    have hturn := driven.turn_of_line hline
    rwa [@turn_eq_startReplay { bus with ready := line } _ _ htask] at hturn
  refine ⟨(run.matching_eq hstore _).symm, run'.replaying_started hseen hsent htask hstore hopen,
    fun more hmore => ?_⟩
  intro final seen
  have hlater : Leads IsRingCall (started.seenOfAll more) started final :=
    (foldl_perform_reaches more started hmore).leads
  refine ⟨run'.replaying hseen hsent htask hstore hopen hlater, ?_⟩
  intro selected deadline rest sent line hline hheld resumed
  have hfinal : Driven final := hdriven.foldl_perform more
  have hlined : Leads IsRingCall [] final { final with ready := line } :=
    (schedule_reaches final line final.timers).leads
  have hleads := hlater.trans hlined
  rw [List.append_nil] at hleads
  refine run'.replaying_resumed hseen hsent htask hstore hopen hleads hheld
    (hlined.reached hfinal.reached) fun held hheld => ?_
  exact (hfinal.vigil.hears (.task task) nofun held hheld).of_bus rfl rfl rfl

end Inputs

section Sample

/-- A ring of four loses the first of them. -/
def numberedEvents : List Event :=
  shortBatch 1 ++ shortBatch 2 ++ shortBatch 3 ++ shortBatch 4 ++ shortBatch 5

def numberedConsumer : Consumer := ⟨1, longQuery.clampLimit 3⟩

/-- The bus that keeps the events in a ring, with one consumer, whose feed has one place and whose
replay is about to read. -/
def numberedBus : Bus Ring :=
  let stored := (create ⟨2, 3, 5, 5⟩ (some (.ofCapacity 4))).mapStore
    fun ring => (Ring.Call.perform ring (.write false numberedEvents)).2
  let entered := { stored with nextId := 2 }.enter (.subscribe 1 longQuery 1)
  (entered.start.begin.take (.subscribe 1 longQuery) []).land

def numberedTrace : List Mark :=
  [.numbered 1, .sent (.subscribe 1 longQuery), .noted (.started 2 3 true),
    .noted (.took (.subscribe 1 longQuery)), .noted (.registered numberedConsumer)]

theorem exists_numbered_run :
    RingRun ⟨2, 3, 5, 5⟩ 4 numberedTrace ⟨numberedBus, []⟩ (numberedEvents.map (⟨·, none⟩)) := by
  have h : RingRun ⟨2, 3, 5, 5⟩ 4 [] _ [] := .make
  have h := h.others rfl (.write false numberedEvents)
  have h := h.step (.subscribe longQuery 1) fun _ => rfl
  have h := h.step (@Step.enter _ _ _ [] _ [] rfl) fun _ => rfl
  have h := h.step .start fun _ => rfl
  have h := h.step (.begin rfl) fun _ => rfl
  have h := h.step (.take rfl rfl) fun _ => rfl
  exact h

def replayInputs : List (Input Ring) :=
  [.mapStore fun ring => (Ring.Call.perform ring (.write false numberedEvents)).2,
    .subscribe false longQuery 1, .start, .next]

/-- The replay has had its first turn. -/
def replayStarted : Bus Ring :=
  let bus := replayInputs.foldl perform (create ⟨2, 3, 5, 5⟩ (some (Ring.ofCapacity 4)))
  { bus with ready := [] }.startReplay 0 numberedConsumer

def laterInputs : List (Input Ring) := [.pass 5, .receive 1, .settle]

/-- Three events are wanted. The second delivery times out before the first batch is received. -/
theorem replay_goes_on_after_timeout :
    (∃ later world, Steps ⟨(numberedBus.readHistory 0 numberedConsumer).2, []⟩ later world ∧
      turnouts 1 later = [.put (shortBatch 5), .timedOut, .put (shortBatch 3)] ∧
      List.Forall₂ Decided (shortBatch 5 ++ shortBatch 4 ++ shortBatch 3) (turnouts 1 later) ∧
      replayed 1
          (numberedTrace ++ numberedBus.readMarks 0 numberedConsumer ++ later)
        = [shortBatch 5, shortBatch 3]) ∧
    let served := [.receive 1].foldl perform replayStarted
    let final := laterInputs.foldl perform replayStarted
    replayStarted.tasks.lookup 0 = some (.replay numberedConsumer
      (.sending (shortBatch 4) 5 ⟨[shortBatch 3], true⟩ 1)) ∧
      (∃ todo, replayStarted.Paused 0 numberedConsumer todo) ∧
      (∃ todo, ({ served with ready := [] }.resumeReplay 0 numberedConsumer (shortBatch 4) 5
        ⟨[shortBatch 3], true⟩ 1).Paused 0 numberedConsumer todo) ∧
      final.tasks.lookup 0 = none ∧ ∃ before since feed, final.history = before ++ since ∧
        List.Forall₂ Decided (shortBatch 5 ++ shortBatch 4 ++ shortBatch 3)
          (since.filterMap (·.turnout? 1)) ∧
        final.feed? 1 = some feed ∧
        [shortBatch 5] ++ feed.queue = final.history.filterMap (·.queued? 1) := by
  obtain ⟨hruns, hinputs⟩ := replay_complete ⟨2, 3, 5, 5⟩ 4 0 numberedConsumer longQuery
  constructor
  · have steps := Steps.refl
      (⟨(numberedBus.readHistory 0 numberedConsumer).2, []⟩ : World Ring)
    have steps := steps.tail (@Step.send _ _ _ _ 0 _ _ _ _ _ rfl rfl)
    have steps := steps.tail (@Step.send _ _ _ _ 0 _ _ _ _ _ rfl rfl)
    have steps := steps.tail (.time 5)
    have steps := steps.tail (@Step.resend _ _ _ _ 0 _ _ _ _ _ rfl)
    have steps := steps.tail (@Step.receive _ _ _ _ _ 1 _ rfl)
    have steps := steps.tail (@Step.send _ _ _ _ 0 _ _ _ _ _ rfl rfl)
    have steps := steps.tail (@Step.quit _ _ _ _ 0 _ _ _ rfl (Or.inr rfl))
    have hquery : .subscribe 1 longQuery ∈ taken numberedTrace :=
      mem_taken.mpr (List.mem_of_getElem? (i := 3) rfl)
    obtain ⟨hdecided, hreplayed⟩ := hruns numberedTrace numberedBus [] _ _ _ _ exists_numbered_run
      hquery rfl rfl rfl steps rfl rfl rfl
    exact ⟨_, _, steps, rfl, hdecided, hreplayed⟩
  · intro served final
    have hring : ∀ f, .mapStore f ∈ replayInputs → IsRingCall f := by
      intro f hf
      simp only [replayInputs, List.mem_cons, List.not_mem_nil, reduceCtorEq, or_false,
        Input.mapStore.injEq] at hf
      exact ⟨_, hf⟩
    obtain ⟨trace, kept, -, -, hreplay⟩ := hinputs replayInputs hring
    have hsent : .sent (.subscribe 1 longQuery)
        ∈ (create ⟨2, 3, 5, 5⟩ (some (Ring.ofCapacity 4))).seenOfAll replayInputs :=
      List.mem_of_getElem? (i := 1) rfl
    obtain ⟨hwanted, hstarted, hlater⟩ := hreplay _ [] hsent rfl rfl rfl (Or.inr rfl)
    obtain ⟨todo, -, hpaused⟩ := hstarted ⟨rfl, rfl⟩
    obtain ⟨-, hresumed⟩ := hlater [.receive 1] (by simp)
    obtain ⟨todo', -, hpaused'⟩ :=
      hresumed (shortBatch 4) 5 ⟨[shortBatch 3], true⟩ 1 [] (Or.inr rfl) rfl ⟨rfl, rfl⟩
    obtain ⟨hfinal, -⟩ := hlater laterInputs (by simp [laterInputs])
    obtain ⟨_, replaying⟩ := hfinal ⟨rfl, rfl⟩
    obtain ⟨since, hhistory, hdecided, -⟩ := replaying.complete rfl
    obtain ⟨feed, hfeed, hfed⟩ := replaying.fed
    have hmatching : (Ring.Call.perform (.ofCapacity 4) (.write false numberedEvents)).2.matching
        (longQuery.clampLimit 3) = shortBatch 5 ++ shortBatch 4 ++ shortBatch 3 := rfl
    have hfound : latest longQuery 4 3 (kept.map (·.event))
        = shortBatch 5 ++ shortBatch 4 ++ shortBatch 3 := hwanted.trans hmatching
    rw [hfound] at hdecided
    have hreceived : received 1 ((create ⟨2, 3, 5, 5⟩ (some (Ring.ofCapacity 4))).seenOfAll
        replayInputs ++ replayStarted.seenOfAll laterInputs) = [shortBatch 5] := by
      have hlast : received 1 (replayStarted.seenOfAll laterInputs) = [shortBatch 5] := rfl
      rw [received_append, hlast]
      rfl
    exact ⟨rfl, ⟨todo, hpaused⟩, ⟨todo', hpaused'⟩, rfl, _, since, feed, hhistory, hdecided, hfeed,
      (congrArg (· ++ feed.queue) hreceived).symm.trans hfed⟩

end Sample

end EventBus.Bus
