import EventBus.Proofs.Bus.ReplayLimit
import EventBus.Proofs.Bus.Streams

/-!
What a bus has to do with its store. A step writes the publish that is taken, reads for a replay
that starts, or leaves the store alone. Where others get at the store in certain ways only, the
store that the bus holds is the one that comes of the recorded writes, of reads, and of those ways.
-/

namespace EventBus.Bus

variable {σ : Type}

section Readers

theorem writes_yields (id : ConsumerId) (answer : Except StoreError Stream) :
    writes (yields id answer) = [] := by
  cases answer <;> simp [writes, yields]

theorem writes_news (earlier later : Bus σ) : writes (news earlier later) = [] := writes_noted _

end Readers

variable [Store σ]

section Calls

/-- What a step has to do with the store, when no one else calls the store and no stream is open: a
publish is written, a replay reads, or nothing. -/
inductive StoreCall (bus bus' : Bus σ) : List Mark → Prop where
  | nothing {marks} (hwrites : writes marks = []) (hyielded : ∀ id, yielded id marks = [])
      (hstore : bus'.store? = bus.store?) : StoreCall bus bus' marks
  | write {batch store} (h : bus.store? = some store)
      (hstore : bus'.store? = some (Store.write bus.canceled batch store).store) :
      StoreCall bus bus' [.wrote batch (Store.write bus.canceled batch store).result]
  | read {task consumer store} (h : bus.store? = some store)
      (htask : bus.tasks.lookup task = some (.replay consumer .starting))
      (hstore : bus'.store? = some
        (Store.read (bus.isCanceled consumer.id) consumer.query store).store) :
      StoreCall bus bus'
        (yields consumer.id (Store.read (bus.isCanceled consumer.id) consumer.query store).result)

variable {bus : Bus σ} {world world' : World σ} {marks : List Mark}

theorem storeCall_take (command : Command) (rest : List Command) :
    StoreCall bus (bus.take command rest).land (bus.written command) := by
  have htaken : (bus.take command rest).land.store? = bus.storeTaken command :=
    (agenda_take command rest).store?
  cases command with
  | publish batch =>
    cases hstore : bus.store? with
    | none =>
      rw [storeTaken, hstore] at htaken
      rw [written, hstore]
      exact .nothing rfl (fun _ => rfl) (htaken.trans hstore.symm)
    | some store =>
      rw [storeTaken, hstore] at htaken
      rw [written, hstore]
      exact .write hstore htaken
  | subscribe _ _ | unsubscribe _ => exact .nothing rfl (fun _ => rfl) htaken

theorem storeCall_read {task : TaskId} {consumer : Consumer}
    (h : bus.tasks.lookup task = some (.replay consumer .starting)) :
    StoreCall bus (bus.readHistory task consumer).2
      (yields consumer.id (bus.readHistory task consumer).1) := by
  have hread : (bus.readHistory task consumer).2.store? = bus.storeRead consumer :=
    congrArg Agenda.store? agenda_readHistory
  cases hstore : bus.store? with
  | none =>
    have hnone : (bus.readHistory task consumer).1 = .ok ⟨[], true⟩ := by
      rw [readHistory, hstore]
    rw [storeRead, hstore] at hread
    rw [hnone]
    exact .nothing rfl (fun _ => rfl) (hread.trans hstore.symm)
  | some store =>
    have hanswer : (bus.readHistory task consumer).1
        = (Store.read (bus.isCanceled consumer.id) consumer.query store).result := by
      rw [readHistory, hstore]
    rw [storeRead, hstore] at hread
    rw [hanswer]
    exact .read hstore h hread

theorem storeCall_deliver {task : TaskId} {consumer : Consumer} (publish : Nat) (batch : List Event)
    (seen : List (Consumer × Leg)) (leg : Leg) (legs : List (Consumer × Leg)) :
    StoreCall bus (bus.deliver task publish batch seen consumer leg legs).2
      (attempt publish consumer.id leg) := by
  refine .nothing ?_ (fun id => (replayed_attempt id publish consumer.id leg).1)
    (congrArg Agenda.store? (agenda_deliver publish batch seen leg legs))
  cases leg <;> rfl

theorem Step.storeCall (step : Step world marks world') (whole : world.bus.Whole)
    (hown : marks = [] → world'.bus.store? = world.bus.store?) :
    StoreCall world.bus world'.bus marks := by
  cases step with
  | subscribe _ _ => exact .nothing rfl (fun _ => rfl) rfl
  | enter _ => exact .nothing rfl (fun _ => rfl) (congrArg Agenda.store? (agenda_enter _))
  | @receive bus bus' calls id batch h =>
    have hreceived : (bus.receive id).2.agenda = bus.agenda := agenda_receive id
    rw [h] at hreceived
    exact .nothing rfl (fun _ => rfl) (congrArg Agenda.store? hreceived)
  | close _ => exact .nothing rfl (fun _ => rfl) (congrArg Agenda.store? (agenda_closeFeed _))
  | take _ _ => exact storeCall_take _ _
  | deliver _ => exact storeCall_deliver _ _ _ _ _
  | read h => exact storeCall_read h
  | yield h hstream hopen batch =>
    have hends := whole.of_lookup h _ hstream
    rw [hopen] at hends
    cases hends
  | _ => exact .nothing rfl (fun _ => rfl) (hown rfl)

end Calls

section Courses

/-- What becomes of a store by writes with such answers, by reads, and by what others do to it in
the ways that are allowed. -/
inductive StoreCourse (allowed : (σ → σ) → Prop) (first : σ) :
    List (List Event × Except StoreError Unit) → σ → Prop where
  | new : StoreCourse allowed first [] first
  | write {written store} (course : StoreCourse allowed first written store) (canceled : Bool)
      (batch : List Event) :
      StoreCourse allowed first (written ++ [(batch, (Store.write canceled batch store).result)])
        (Store.write canceled batch store).store
  | read {written store} (course : StoreCourse allowed first written store) (canceled : Bool)
      (query : Query) : StoreCourse allowed first written (Store.read canceled query store).store
  | others {written store f} (course : StoreCourse allowed first written store) (h : allowed f) :
      StoreCourse allowed first written (f store)

/-- Steps of a bus that calls its store itself, while others change the store in the ways that are
allowed. -/
inductive StoredSteps (allowed : (σ → σ) → Prop) : World σ → List Mark → World σ → Prop where
  | refl (world : World σ) : StoredSteps allowed world [] world
  | own {first trace middle marks last} (steps : StoredSteps allowed first trace middle)
      (step : Step middle marks last) (call : StoreCall middle.bus last.bus marks) :
      StoredSteps allowed first (trace ++ marks ++ news middle.bus last.bus) last
  | others {first trace bus calls f} (steps : StoredSteps allowed first trace ⟨bus, calls⟩)
      (h : allowed f) : StoredSteps allowed first trace ⟨bus.mapStore f, calls⟩

variable {allowed : (σ → σ) → Prop} {first middle world : World σ} {trace later : List Mark}

theorem StoreCall.course {bus bus' : Bus σ} {marks : List Mark} {before store : σ}
    {written : List (List Event × Except StoreError Unit)} (call : StoreCall bus bus' marks)
    (h : bus.store? = some store) (course : StoreCourse allowed before written store) :
    ∃ store', bus'.store? = some store' ∧
      StoreCourse allowed before (written ++ writes marks) store' := by
  cases call with
  | nothing hwrites _ hstore =>
    rw [hwrites, List.append_nil]
    exact ⟨store, hstore.trans h, course⟩
  | write hheld hstore =>
    cases h.symm.trans hheld
    exact ⟨_, hstore, course.write _ _⟩
  | read hheld _ hstore =>
    cases h.symm.trans hheld
    rw [writes_yields, List.append_nil]
    exact ⟨_, hstore, course.read _ _⟩

namespace StoredSteps

theorem trans (steps : StoredSteps allowed first trace middle)
    (more : StoredSteps allowed middle later world) :
    StoredSteps allowed first (trace ++ later) world := by
  induction more with
  | refl => rwa [List.append_nil]
  | own _ step call ih =>
    rw [← List.append_assoc, ← List.append_assoc]
    exact ih.own step call
  | others _ h ih => exact ih.others h

theorem steps (stored : StoredSteps allowed first trace world) : Steps first trace world := by
  induction stored with
  | refl => exact .refl _
  | own _ step _ ih => exact ih.tail step
  | @others trace bus calls f _ _ ih =>
    have htail := ih.tail (.mapStore f)
    have hnews : news bus (bus.mapStore f) = [] := news_of_history_eq rfl
    rwa [hnews, List.append_nil, List.append_nil] at htail

/-- What the bus holds as its store in the end has had just the writes that are recorded. -/
theorem course {store : σ} (stored : StoredSteps allowed first trace world)
    (h : first.bus.store? = some store) :
    ∃ final, world.bus.store? = some final ∧ StoreCourse allowed store (writes trace) final := by
  induction stored with
  | refl => exact ⟨store, h, .new⟩
  | own _ _ call ih =>
    obtain ⟨held, hheld, hcourse⟩ := ih
    obtain ⟨final, hfinal, hmore⟩ := call.course hheld hcourse
    rw [writes_append, writes_append, writes_news, List.append_nil]
    exact ⟨final, hfinal, hmore⟩
  | @others _ bus _ f _ hallowed ih =>
    obtain ⟨held, hheld, hcourse⟩ := ih
    have hmapped : bus.store?.map f = some (f held) := congrArg (Option.map f) hheld
    exact ⟨f held, hmapped, hcourse.others hallowed⟩

end StoredSteps

end Courses

end EventBus.Bus
