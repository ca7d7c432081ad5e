import EventBus.Proofs.Bus.Inputs

/-!
What a store has accepted is a beginning of what was published, in that order, and nothing
is put into a feed by a fan-out before it was accepted. A publish counts once its call has
returned without an error; its command is in the queue then. What the store has accepted is what
the bus finds in the store that it holds.
-/

namespace EventBus.Bus

section Writes

variable {coordinator : Coordinator}
  {written before after : List (List Event × Except StoreError Unit)}
  {write : List Event × Except StoreError Unit} {batch : List Event} {publish : Nat}

theorem filterMap_writtenBatch? (h : ∀ write ∈ written, write.2 = .ok ()) :
    written.filterMap writtenBatch? = written.map (·.1) := by
  rw [← List.filterMap_eq_map]
  apply List.filterMap_congr
  intro write hwrite
  obtain ⟨batch, result⟩ := write
  obtain rfl : result = .ok () := h _ hwrite
  rfl

/-- Only the last write can have failed. -/
theorem WritesLaw.ok_before (law : WritesLaw coordinator written)
    (h : written = before ++ write :: after) : ∀ earlier ∈ before, earlier.2 = .ok () := by
  cases law with
  | allOk hok =>
      intro earlier hearlier
      exact hok earlier (h ▸ List.mem_append_left _ hearlier)
  | lastFailed hok hstopped =>
      intro earlier hearlier
      rcases append_eq_append_cons h with ⟨kept, rfl, -⟩ | ⟨skipped, rfl, hlast⟩
      · exact hok earlier (List.mem_append_left _ hearlier)
      · obtain ⟨rfl, -⟩ : skipped = [] ∧ _ := by
          cases skipped with
          | nil => exact ⟨rfl, trivial⟩
          | cons _ _ => simp at hlast
        exact hok earlier (by simpa using hearlier)

/-- The batch of a write that has succeeded is found among the accepted batches where its
publish is among the publishes. -/
theorem WritesLaw.getElem?_accepted (law : WritesLaw coordinator (before ++ after))
    (h : before[publish]? = some (batch, .ok ())) :
    (before.filterMap writtenBatch?)[publish]? = some batch := by
  obtain ⟨hlt, hwrite⟩ := List.getElem?_eq_some_iff.mp h
  have hsplit : before = before.take publish ++ (batch, .ok ()) :: before.drop (publish + 1) := by
    rw [← hwrite, List.getElem_cons_drop, List.take_append_drop]
  have hall : before ++ after
      = before.take publish ++ (batch, .ok ()) :: (before.drop (publish + 1) ++ after) := by
    rw [← List.cons_append, ← List.append_assoc, ← hsplit]
  have hok := law.ok_before hall
  have hlength : ((before.take publish).map (·.1)).length = publish := by
    rw [List.length_map, List.length_take, Nat.min_eq_left (Nat.le_of_lt hlt)]
  rw [hsplit, List.filterMap_append, filterMap_writtenBatch? hok,
    List.filterMap_cons_some (show writtenBatch? (batch, .ok ()) = some batch from rfl),
    List.getElem?_append_right (Nat.le_of_eq hlength), hlength, Nat.sub_self]
  rfl

end Writes

section Publishes

variable {trace : List Mark} {o : Outline} {batch : List Event} {error : StoreError}

/-- The batches taken from the queue are those accepted, and one more if its write failed. -/
theorem QueueLaw.taken_batches (queue : QueueLaw trace o) (hstored : o.stored = true) :
    ((taken trace).filterMap Command.batch? = accepted trace ∧
        ∀ write ∈ writes trace, write.2 = .ok ()) ∨
      ∃ batch error, (taken trace).filterMap Command.batch? = accepted trace ++ [batch] ∧
        (∀ write ∈ writes trace, write = (batch, .error error) ∨ write.2 = .ok ()) ∧
        o.coordinator = .stopped (.error (.ofStore error)) := by
  have hwritten := queue.written hstored
  have hanswers := queue.answers
  unfold accepted
  generalize writes trace = written at hwritten hanswers
  cases hanswers with
  | allOk hok =>
      refine Or.inl ⟨?_, hok⟩
      rw [filterMap_writtenBatch? hok, hwritten]
  | @lastFailed written batch error hok hstopped =>
      refine Or.inr ⟨batch, error, ?_, ?_, hstopped⟩
      · rw [← hwritten, List.filterMap_append, filterMap_writtenBatch? hok, List.map_append,
          List.append_assoc]
        rfl
      · intro write hwrite
        rcases List.mem_append.mp hwrite with hwrite | hwrite
        · exact Or.inr (hok write hwrite)
        · exact Or.inl (List.mem_singleton.mp hwrite)

theorem QueueLaw.published_of_taken (queue : QueueLaw trace o) :
    (taken trace).filterMap Command.batch? <+: published trace :=
  queue.in_order.filterMap _

theorem QueueLaw.accepted_prefix (queue : QueueLaw trace o) (hstored : o.stored = true) :
    accepted trace <+: published trace := by
  rcases queue.taken_batches hstored with ⟨hbatches, -⟩ | ⟨batch, error, hbatches, -, -⟩
  · exact hbatches ▸ queue.published_of_taken
  · exact (List.prefix_append _ _).trans (hbatches ▸ queue.published_of_taken)

theorem QueueLaw.of_refused (queue : QueueLaw trace o) (hstored : o.stored = true)
    (h : .wrote batch (.error error) ∈ trace) :
    o.coordinator = .stopped (.error (.ofStore error)) ∧
      (published trace)[(accepted trace).length]? = some batch := by
  have hwrite : (batch, .error error) ∈ writes trace := List.mem_filterMap.mpr ⟨_, h, rfl⟩
  rcases queue.taken_batches hstored with ⟨-, hok⟩ | ⟨batch', error', hbatches, hlast, hstopped⟩
  · cases hok _ hwrite
  · rcases hlast _ hwrite with hsame | hok
    · cases hsame
      obtain ⟨rest, hpublished⟩ := queue.published_of_taken
      refine ⟨hstopped, ?_⟩
      rw [← hpublished, hbatches, List.append_assoc, List.getElem?_append_right (Nat.le_refl _),
        Nat.sub_self]
      rfl
    · cases hok

end Publishes

section Live

variable {trace before after : List Mark} {o : Outline} {id : ConsumerId} {events : List Event}
  {publish : Nat}

/-- What is put into a feed by a fan-out has been accepted by then. -/
theorem Laws.accepted_before_live (laws : Laws trace o) (hstored : o.stored = true)
    (htrace : trace = before ++ .noted (.queued id events (.live publish)) :: after) :
    ∃ batch, (accepted before)[publish]? = some batch ∧ events.Sublist batch := by
  obtain ⟨consumer, -, hcaused⟩ := laws.cause before id events _ after htrace
  cases hcaused with
  | live _ _ batch _ _ _ _ hwrote hevents _ =>
      have hanswers := laws.queue.answers
      rw [htrace, writes_append] at hanswers
      exact ⟨batch, hanswers.getElem?_accepted (hwrote hstored), hevents ▸ List.filter_sublist⟩

/-- Only publishes whose batches were accepted are ever put into feeds. -/
theorem Laws.live_lt_accepted (laws : Laws trace o) (hstored : o.stored = true)
    (h : .noted (.queued id events (.live publish)) ∈ trace) :
    publish < (accepted trace).length := by
  obtain ⟨before, after, htrace⟩ := List.append_of_mem h
  obtain ⟨batch, hbatch, -⟩ := laws.accepted_before_live hstored htrace
  have hlt := (List.getElem?_eq_some_iff.mp hbatch).1
  have hle : (accepted before).length ≤ (accepted trace).length := by
    rw [htrace, accepted, accepted, writes_append, List.filterMap_append, List.length_append]
    omega
  omega

end Live

section Calls

variable {σ : Type} {bus bus' : Bus σ}

theorem commands_enqueue (command : Command) :
    (bus.enqueue command).commands = bus.commands ++ [command] := by
  have henqueue : (bus.enqueue command).outline [] = _ := outline_enqueue command []
  exact congrArg Outline.commands henqueue

variable [Store σ] {settings : Settings} {store? : Option σ} {trace : List Mark} {world : World σ}

/-- A call can be given up at any time; the bus does not learn of it. -/
theorem Run.giveUp {before after : List Call} {call : Call}
    (run : Run settings store? trace world) (h : world.calls = before ++ call :: after) :
    Run settings store? trace ⟨world.bus, before ++ after⟩ := by
  obtain ⟨bus, calls⟩ := world
  obtain rfl : calls = before ++ call :: after := h
  have hstep := Steps.tail run (.giveUp)
  rwa [List.append_nil, news_of_history_eq rfl, List.append_nil] at hstep

theorem Run.enter {call : Call} {calls : List Call}
    (run : Run settings store? trace ⟨bus, calls ++ [call]⟩)
    (h : bus.coordinator.isGone = false) :
    Run settings store? (trace ++ [.sent call.command]) ⟨bus.enter call, calls⟩ := by
  have hquiet : (bus.enter call).history = bus.history := by
    have hqueued : (bus.enqueue call.command).history = bus.history := by
      have henqueue : (bus.enqueue call.command).outline [] = _ := outline_enqueue call.command []
      exact congrArg Outline.history henqueue
    cases call <;> exact hqueued
  have hstep := Steps.tail run (enter_last call h)
  rwa [news_of_history_eq hquiet, List.append_nil] at hstep

/-- A call that returns without an error has put its command into the queue, which makes one step
of a run more. One that fails has done nothing. -/
def Sends (settings : Settings) (store? : Option σ) (trace : List Mark) (world : World σ)
    (command : Command) (answer : Sent × Bus σ) : Prop :=
  answer.1 = .ok ∧ answer.2.commands = world.bus.commands ++ [command] ∧
      Run settings store? (trace ++ [.sent command]) ⟨answer.2, world.calls⟩ ∨
    answer.1 ≠ .ok ∧ answer.2 = world.bus

theorem Run.send {call : Call} (run : Run settings store? trace world) (canceled : Bool)
    (h : call.number? = none) :
    Sends settings store? trace world call.command (world.bus.send canceled call.command) := by
  obtain ⟨bus, calls⟩ := world
  have hentered : bus.enter call = bus.enqueue call.command := by
    cases call with
    | subscribe _ _ _ => cases h
    | _ => rfl
  have hmade : Run settings store? trace ⟨bus, calls ++ [call]⟩ := by
    have hstep := Steps.tail run (.call call h)
    rwa [List.append_nil, news_of_history_eq rfl, List.append_nil] at hstep
  unfold Bus.send
  cases hadmitted : bus.admission canceled with
  | ok =>
    have hsent := hmade.enter (not_gone_of_admission hadmitted)
    rw [hentered] at hsent
    exact Or.inl ⟨rfl, commands_enqueue call.command, hsent⟩
  | full | failed error => exact Or.inr ⟨nofun, rfl⟩

theorem Run.subscribe (run : Run settings store? trace world) (canceled : Bool) (query : Query)
    (places : Nat) :
    (world.bus.subscribe canceled query places).2.1 = world.bus.nextId ∧
    Sends settings store? (trace ++ [.numbered world.bus.nextId])
      ⟨{ world.bus with nextId := world.bus.nextId + 1 }, world.calls⟩
      (.subscribe world.bus.nextId query)
      ((world.bus.subscribe canceled query places).1,
        (world.bus.subscribe canceled query places).2.2) := by
  obtain ⟨bus, calls⟩ := world
  let numbered : Bus σ := { bus with nextId := bus.nextId + 1 }
  let call : Call := .subscribe bus.nextId query places
  have hmade : Run settings store? (trace ++ [.numbered bus.nextId]) ⟨numbered, calls ++ [call]⟩ := by
    have hstep := Steps.tail run (.subscribe query places)
    have hquiet : news bus numbered = [] := news_of_history_eq rfl
    rwa [hquiet, List.append_nil] at hstep
  unfold Bus.subscribe Bus.send
  dsimp only
  cases hadmitted : numbered.admission canceled with
  | ok =>
    exact ⟨rfl, Or.inl ⟨rfl, commands_enqueue call.command,
      hmade.enter (not_gone_of_admission hadmitted)⟩⟩
  | full | failed error => exact ⟨rfl, Or.inr ⟨nofun, rfl⟩⟩

end Calls

section Stores

variable {σ : Type} [Store σ] {allowed : (σ → σ) → Prop} {kept : σ → List Event}

/-- What tells of the store which events it has: those of the batches it has accepted, in order. -/
structure Keeps (allowed : (σ → σ) → Prop) (kept : σ → List Event) : Prop where
  accepts : ∀ canceled batch store, (Store.write canceled batch store).result = .ok () →
    kept (Store.write canceled batch store).store = kept store ++ batch
  refuses : ∀ canceled batch store error,
    (Store.write canceled batch store).result = .error error →
    kept (Store.write canceled batch store).store = kept store
  reads : ∀ canceled query store, kept (Store.read canceled query store).store = kept store
  others : ∀ f store, allowed f → kept (f store) = kept store

theorem StoreCourse.kept_eq {first final : σ} {written : List (List Event × Except StoreError Unit)}
    (course : StoreCourse allowed first written final) (keeps : Keeps allowed kept) :
    kept final = kept first ++ (written.filterMap writtenBatch?).flatten := by
  induction course with
  | new => rw [List.filterMap_nil, List.flatten_nil, List.append_nil]
  | @write written store _ canceled batch ih =>
    rw [List.filterMap_append, List.flatten_append, ← List.append_assoc, ← ih]
    cases hresult : (Store.write canceled batch store).result with
    | ok _ =>
      rw [keeps.accepts canceled batch store hresult]
      simp [writtenBatch?]
    | error error =>
      rw [keeps.refuses canceled batch store error hresult]
      simp [writtenBatch?]
  | read _ canceled query ih => rw [keeps.reads, ih]
  | others _ h ih => rw [keeps.others _ _ h, ih]

end Stores

section Runs

variable {σ : Type} [Store σ] {settings : Settings} {store : σ} {trace : List Mark}
  {world : World σ}

/-- What is known of a bus with a store wherever a run comes to. -/
structure Durable (settings : Settings) (store : σ) (trace : List Mark) (world : World σ) :
    Prop where
  /-- The store has accepted the first publishes that succeeded, and all of them once the bus has
  stopped because nobody is left. -/
  kept : ∃ count, accepted trace = (published trace).take count ∧
    (world.bus.coordinator = .stopped (.ok ()) → count = (published trace).length)
  in_order : taken trace <+: sent trace
  queued : world.bus.coordinator.isGone = false → sent trace = taken trace ++ world.bus.commands
  publishes : ∀ canceled batch,
    Sends settings (some store) trace world (.publish batch) (world.bus.publish canceled batch)
  unsubscribes : ∀ canceled id,
    Sends settings (some store) trace world (.unsubscribe id) (world.bus.unsubscribe canceled id)
  /-- A call to subscribe uses up a number in any case. -/
  subscribes : ∀ canceled query places,
    (world.bus.subscribe canceled query places).2.1 = world.bus.nextId ∧
    Sends settings (some store) (trace ++ [.numbered world.bus.nextId])
      ⟨{ world.bus with nextId := world.bus.nextId + 1 }, world.calls⟩
      (.subscribe world.bus.nextId query)
      ((world.bus.subscribe canceled query places).1,
        (world.bus.subscribe canceled query places).2.2)
  given_up : ∀ before call after, world.calls = before ++ call :: after →
    Run settings (some store) trace ⟨world.bus, before ++ after⟩
  live : ∀ before id events publish after,
    trace = before ++ .noted (.queued id events (.live publish)) :: after →
    ∃ batch, (accepted before)[publish]? = some batch ∧ events.Sublist batch
  /-- The first write that fails ends the bus, and neither its batch nor a later one is put into a
  feed. -/
  refused : ∀ batch error, .wrote batch (.error error) ∈ trace →
    world.bus.coordinator = .stopped (.error (.ofStore error)) ∧
    (published trace)[(accepted trace).length]? = some batch ∧
    ∀ id events publish, .noted (.queued id events (.live publish)) ∈ trace →
      publish < (accepted trace).length

theorem Run.durable (run : Run settings (some store) trace world) :
    Durable settings store trace world := by
  have laws := run.laws
  obtain ⟨hmaxReplay, hstored⟩ := run.constants
  have hprefix := laws.queue.accepted_prefix hstored
  exact {
    kept := by
      refine ⟨(accepted trace).length, List.prefix_iff_eq_take.mp hprefix, fun hstopped => ?_⟩
      rcases laws.queue.taken_batches hstored with ⟨hbatches, -⟩ | ⟨_, _, -, -, hfailed⟩
      · rw [← hbatches, laws.queue.run_out hstopped]
        rfl
      · cases hstopped.symm.trans hfailed
    in_order := laws.queue.in_order
    queued := fun hgoing => (laws.queue.queued hgoing).symm
    publishes := fun canceled batch => @Run.send σ _ _ _ _ _ (.publish batch) run canceled rfl
    unsubscribes := fun canceled id => @Run.send σ _ _ _ _ _ (.unsubscribe id) run canceled rfl
    subscribes := run.subscribe
    given_up := fun _ _ _ => run.giveUp
    live := fun _ _ _ _ _ => laws.accepted_before_live hstored
    refused := fun batch error hwrote => by
      obtain ⟨hfailed, hbatch⟩ := laws.queue.of_refused hstored hwrote
      exact ⟨hfailed, hbatch, fun _ _ _ => laws.live_lt_accepted hstored⟩ }

/-- A publish is kept before it is delivered. In every run the store has accepted the first
publishes that succeeded, and all of them once the bus has stopped because nobody is left; a call
that succeeds has its command in the queue, and one that fails or is given up does nothing, except
that a number may be used up; and the first write that fails ends the bus, so that its batch and
later ones are never delivered. Of a bus that is driven from outside, the publishes that succeeded
are those whose calls were answered so, and what was accepted is what was written to the store that
the bus holds. -/
theorem kept_before_delivered (settings : Settings) (store : σ) (allowed : (σ → σ) → Prop) :
    (∀ trace world, Run settings (some store) trace world →
      Durable settings store trace world) ∧
    ∀ inputs : List (Input σ), (∀ f, .mapStore f ∈ inputs → allowed f) →
      let bus := inputs.foldl perform (create settings (some store))
      let seen := (create settings (some store)).seenOfAll inputs
      ∃ trace count final, Run settings (some store) trace ⟨bus, []⟩ ∧
        trace.filter Mark.isOfCall = seen ∧
        accepted trace = (published seen).take count ∧
        (bus.coordinator = .stopped (.ok ()) → count = (published seen).length) ∧
        bus.store? = some final ∧ StoreCourse allowed store (writes trace) final ∧
        ∀ kept, Keeps allowed kept →
          kept final = kept store ++ ((published seen).take count).flatten := by
  refine ⟨fun trace world run => run.durable, fun inputs hallowed => ?_⟩
  intro bus seen
  obtain ⟨trace, stored, hseen, -⟩ :=
    exists_run_of_inputs settings (some store) inputs hallowed
  have hrun : Run settings (some store) trace ⟨bus, []⟩ := stored.steps
  obtain ⟨count, haccepted, hall⟩ := hrun.durable.kept
  obtain ⟨final, hfinal, hcourse⟩ := stored.course rfl
  have hpublished : published trace = published seen := by
    rw [published, ← sent_filter_isOfCall, hseen]
    rfl
  rw [hpublished] at haccepted hall
  refine ⟨trace, count, final, hrun, hseen, haccepted, hall, hfinal, hcourse, fun kept keeps => ?_⟩
  rw [hcourse.kept_eq keeps, ← haccepted]
  rfl

end Runs

section Sample

theorem keeps_recorder_events :
    Keeps (fun f : Recorder → Recorder => ∀ recorder, (f recorder).events = recorder.events)
      Recorder.events where
  accepts canceled batch recorder h := by
    change (Recorder.write canceled batch recorder).result = .ok () at h
    change (Recorder.write canceled batch recorder).store.events = recorder.events ++ batch
    unfold Recorder.write at h ⊢
    split at h
    · cases h
    next hwanted =>
      rw [if_neg hwanted]
      dsimp only at h ⊢
      split at h
      · cases h
      · rfl
  refuses canceled batch recorder error h := by
    change (Recorder.write canceled batch recorder).result = .error error at h
    change (Recorder.write canceled batch recorder).store.events = recorder.events
    unfold Recorder.write at h ⊢
    split at h
    next hgone => rw [if_pos hgone]
    next hwanted =>
      rw [if_neg hwanted]
      dsimp only at h ⊢
      split at h
      · rfl
      · cases h
  reads canceled query recorder := by
    change (Recorder.read canceled query recorder).store.events = recorder.events
    unfold Recorder.read
    split <;> rfl
  others f recorder h := h recorder

/-- The store closes between two publishes. -/
def refusedInputs : List (Input Recorder) :=
  [.publish false (shortBatch 1), .start, .settle,
    .mapStore fun recorder => { recorder with writeError? := some .closed },
    .publish false (shortBatch 2), .settle, .publish false (shortBatch 3)]

theorem kept_before_delivered_until_refused :
    (∃ world, Run ⟨1, 10, 5, 5⟩ (some Recorder.empty) shortTrace world ∧
      published shortTrace = [shortBatch 1, shortBatch 2] ∧ accepted shortTrace = [shortBatch 1] ∧
      (∃ batch, (accepted (shortTrace.take 10))[0]? = some batch ∧ (shortBatch 1).Sublist batch) ∧
      world.bus.coordinator = .stopped (.error (.store .closed))) ∧
    let bus := refusedInputs.foldl perform (create ⟨1, 10, 5, 5⟩ (some Recorder.empty))
    bus.coordinator = .stopped (.error (.store .closed)) ∧
      ∃ count final, bus.store? = some final ∧ final.events = shortBatch 1 ∧
        final.events = ([shortBatch 1, shortBatch 2].take count).flatten := by
  obtain ⟨hruns, hinputs⟩ := kept_before_delivered ⟨1, 10, 5, 5⟩ Recorder.empty
    fun f => ∀ recorder, (f recorder).events = recorder.events
  refine ⟨?_, rfl, ?_⟩
  · obtain ⟨world, run⟩ := exists_short_run
    have durable := hruns shortTrace world run
    have hwrote : .wrote (shortBatch 2) (.error .closed) ∈ shortTrace :=
      List.mem_of_getElem? (i := 14) rfl
    exact ⟨world, run, rfl, rfl, durable.live (shortTrace.take 10) 1 _ 0 (shortTrace.drop 11) rfl,
      (durable.refused _ _ hwrote).1⟩
  · have hallowed : ∀ f, .mapStore f ∈ refusedInputs →
        ∀ recorder : Recorder, (f recorder).events = recorder.events := by
      intro f hf recorder
      simp only [refusedInputs, List.mem_cons, List.not_mem_nil, reduceCtorEq, or_false, false_or,
        Input.mapStore.injEq] at hf
      rw [hf]
    obtain ⟨trace, count, final, -, -, -, -, hfinal, -, hkept⟩ := hinputs refusedInputs hallowed
    refine ⟨count, final, hfinal, ?_, hkept Recorder.events keeps_recorder_events⟩
    cases hfinal
    rfl

end Sample

end EventBus.Bus
