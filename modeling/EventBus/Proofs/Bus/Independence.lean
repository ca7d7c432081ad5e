import EventBus.Proofs.Bus.Feeds
import EventBus.Proofs.Bus.Ledger
import Mathlib.Data.List.Induction

/-!
The deliveries of a fan-out do not depend on one another. A look at a delivery reads the time,
whether the bus or the consumer is cancelled and the feed of the consumer, and changes nothing but
that feed. So whichever others are looked at and in whatever order, a delivery that is looked at
whenever it has been woken goes the way it would go alone.
-/

namespace EventBus.Bus

variable {σ : Type}

/-- What all deliveries have in common. -/
structure Conditions where
  now : Nat
  canceled : Bool
  /-- How long a delivery waits. -/
  timeout : Nat

/-- What a look at a delivery may read or change. -/
structure Scene where
  conditions : Conditions
  feed? : ConsumerId → Option Feed
  /-- What has been put into the feed of a consumer. -/
  puts : ConsumerId → List (List Event)

def scene (bus : Bus σ) : Scene where
  conditions := ⟨bus.now, bus.canceled, bus.settings.consumerTimeout⟩
  feed? := bus.feed?
  puts id := queued id (bus.history.map .noted)

/-- How one delivery stands, with the feed it goes to and what has been put there. -/
structure Delivery where
  leg : Leg
  feed? : Option Feed
  puts : List (List Event)

namespace Delivery

/-- The delivery after a look that left it and its feed like this. -/
def after (d : Delivery) (selected : List Event) (leg : Leg) (feed : Feed) : Delivery where
  leg := leg
  feed? := some feed
  puts := d.puts ++ match leg with
    | .done (.delivered _) => [selected]
    | _ => []

/-- One look at a delivery. -/
def look (task : TaskId) (consumer : Consumer) (batch : List Event) (c : Conditions)
    (d : Delivery) : Delivery :=
  match d.leg, d.feed? with
  | .done _, _ => d
  | _, none => { d with leg := .done .closed }
  | .fresh, some feed =>
      let selected := consumer.query.select batch
      let (leg, feed) := feed.offer task (c.canceled || feed.canceled) c.now c.timeout selected
      d.after selected leg feed
  | .waiting selected deadline, some feed =>
      let (leg, feed, _) := feed.retry task (c.canceled || feed.canceled) c.now selected deadline
      d.after selected leg feed

/-- The delivery has not begun, or something that it waits for has come. -/
def isWoken (task : TaskId) (c : Conditions) (d : Delivery) : Bool :=
  match d.leg, d.feed? with
  | .done _, _ => false
  | .fresh, _ => true
  | .waiting _ _, none => true
  | .waiting _ deadline, some feed =>
      c.canceled || feed.canceled || feed.closed || feed.places.isGranted task
        || decide (deadline ≤ c.now)

/-- A look at a delivery that has not been woken changes nothing. -/
theorem look_eq_self {task : TaskId} {c : Conditions} {d : Delivery}
    (h : d.isWoken task c = false) (consumer : Consumer) (batch : List Event) :
    d.look task consumer batch c = d := by
  obtain ⟨leg, feed?, puts⟩ := d
  cases leg with
  | done outcome => rfl
  | fresh => cases feed? <;> cases h
  | waiting selected deadline =>
      cases feed? with
      | none => cases h
      | some feed =>
          simp only [isWoken, Bool.or_eq_false_iff, decide_eq_false_iff_not] at h
          obtain ⟨⟨⟨⟨hbus, hfeed⟩, hopen⟩, hkept⟩, htime⟩ := h
          simp [look, Feed.retry, hbus, hfeed, hopen, hkept, htime, after]

end Delivery

namespace Scene

def delivery (scene : Scene) (id : ConsumerId) (leg : Leg) : Delivery :=
  ⟨leg, scene.feed? id, scene.puts id⟩

def set (scene : Scene) (id : ConsumerId) (d : Delivery) : Scene :=
  { scene with
    feed? := Function.update scene.feed? id d.feed?
    puts := Function.update scene.puts id d.puts }

theorem set_eq_self {scene : Scene} {id : ConsumerId} {d : Delivery}
    (hfeed : d.feed? = scene.feed? id) (hputs : d.puts = scene.puts id) :
    scene.set id d = scene := by
  rw [set, hfeed, hputs, Function.update_eq_self, Function.update_eq_self]

end Scene

section Looks

variable {bus : Bus σ}

@[simp] theorem scene_wakeIf (task? : Option TaskId) : (bus.wakeIf task?).scene = bus.scene := by
  cases task? with
  | none => rfl
  | some task =>
      simp only [wakeIf, wake]
      split <;> rfl

@[simp] theorem scene_setTimer (deadline : Nat) (actor : Actor) :
    (bus.setTimer deadline actor).scene = bus.scene := rfl

@[simp] theorem scene_clearTimer (deadline : Nat) (actor : Actor) :
    (bus.clearTimer deadline actor).scene = bus.scene := rfl

@[simp] theorem scene_setTask (id : TaskId) (task : Task) :
    (bus.setTask id task).scene = bus.scene := rfl

theorem scene_setFeed {id : ConsumerId} {old : Feed} (hfeed : bus.feed? id = some old)
    (feed : Feed) : (bus.setFeed id feed).scene =
      { bus.scene with feed? := Function.update bus.scene.feed? id (some feed) } :=
  congrArg (fun feed? => { bus.scene with feed? }) (feed?_setFeed feed hfeed)

theorem scene_note_queued (id : ConsumerId) (selected : List Event) (origin : Origin) :
    (bus.note (.queued id selected origin)).scene =
      { bus.scene with
        puts := Function.update bus.scene.puts id (bus.scene.puts id ++ [selected]) } := by
  refine congrArg (fun puts => { bus.scene with puts }) ?_
  funext other
  rw [note, List.map_append, queued_append]
  by_cases hother : other = id
  · subst hother
    simp [scene, queued]
  · simp [scene, queued, Function.update_of_ne hother, Ne.symm hother]

/-- A changed feed is put back, and it is recorded what was put into it. -/
theorem scene_recordLeg {id : ConsumerId} {old : Feed} (hfeed : bus.feed? id = some old)
    (feed : Feed) (selected : List Event) (origin : Origin) (leg before : Leg) :
    ((bus.setFeed id feed).recordLeg id selected origin leg).scene =
      bus.scene.set id ((bus.scene.delivery id before).after selected leg feed) := by
  have hsame : ((bus.setFeed id feed)).scene =
      { bus.scene with
        feed? := Function.update bus.scene.feed? id (some feed)
        puts := Function.update bus.scene.puts id (bus.scene.puts id ++ []) } := by
    rw [List.append_nil, Function.update_eq_self, scene_setFeed hfeed]
  cases leg with
  | done outcome =>
      cases outcome with
      | delivered events =>
          rw [recordLeg, scene_note_queued, scene_setFeed hfeed]
          rfl
      | _ => exact hsame
  | _ => exact hsame

theorem isCanceled_of_feed? {id : ConsumerId} {feed : Feed} (hfeed : bus.feed? id = some feed) :
    bus.isCanceled id = (bus.canceled || feed.canceled) := by
  rw [isCanceled, hfeed, Option.any_some]

variable (bus) (task : TaskId) (consumer : Consumer) (origin : Origin) (batch : List Event)

/-- A result of looking at a delivery of the bus: it stands as given, and so does its feed. -/
def ComesTo (id : ConsumerId) (d : Delivery) (after : Leg × Bus σ) : Prop :=
  after.1 = d.leg ∧ after.2.scene = bus.scene.set id d

theorem beginLeg_comesTo : bus.ComesTo consumer.id
    ((bus.scene.delivery consumer.id .fresh).look task consumer batch bus.scene.conditions)
    (bus.beginLeg task consumer origin batch) := by
  unfold beginLeg
  cases hfeed : bus.feed? consumer.id with
  | none =>
      have hscene : bus.scene.feed? consumer.id = none := hfeed
      simp only [Scene.delivery, hscene, Delivery.look]
      exact ⟨rfl, (Scene.set_eq_self hscene.symm rfl).symm⟩
  | some feed =>
      have hscene : bus.scene.feed? consumer.id = some feed := hfeed
      have hlook : (bus.scene.delivery consumer.id .fresh).look task consumer batch
          bus.scene.conditions =
        let offered := feed.offer task (bus.isCanceled consumer.id) bus.now
          bus.settings.consumerTimeout (consumer.query.select batch)
        (bus.scene.delivery consumer.id .fresh).after (consumer.query.select batch) offered.1
          offered.2 := by
        rw [isCanceled_of_feed? hfeed, Scene.delivery, hscene]
        rfl
      rw [hlook]
      dsimp only
      generalize feed.offer task _ _ _ _ = offered
      have hrecord := scene_recordLeg hfeed offered.2 (consumer.query.select batch) origin offered.1
        .fresh
      split
      · exact ⟨rfl, by rw [scene_setTimer, hrecord]⟩
      · exact ⟨rfl, hrecord⟩

theorem reviewLeg_comesTo (selected : List Event) (deadline : Nat) : bus.ComesTo consumer.id
    ((bus.scene.delivery consumer.id (.waiting selected deadline)).look task consumer batch
      bus.scene.conditions)
    (bus.reviewLeg task consumer origin selected deadline) := by
  unfold reviewLeg
  cases hfeed : bus.feed? consumer.id with
  | none =>
      have hscene : bus.scene.feed? consumer.id = none := hfeed
      simp only [Scene.delivery, hscene, Delivery.look]
      exact ⟨rfl, (Scene.set_eq_self hscene.symm rfl).symm⟩
  | some feed =>
      have hscene : bus.scene.feed? consumer.id = some feed := hfeed
      have hlook : (bus.scene.delivery consumer.id (.waiting selected deadline)).look task consumer
          batch bus.scene.conditions =
        let retried := feed.retry task (bus.isCanceled consumer.id) bus.now selected deadline
        (bus.scene.delivery consumer.id (.waiting selected deadline)).after selected retried.1
          retried.2.1 := by
        rw [isCanceled_of_feed? hfeed, Scene.delivery, hscene]
        rfl
      rw [hlook]
      dsimp only
      generalize feed.retry task _ _ _ _ = retried
      have hrecord := scene_recordLeg hfeed retried.2.1 selected origin retried.1
        (.waiting selected deadline)
      split
      · exact ⟨rfl, by rw [scene_clearTimer, scene_wakeIf, hrecord]⟩
      · exact ⟨rfl, by rw [scene_wakeIf, hrecord]⟩

/-- A look at a delivery of the bus goes by the scene alone and changes it in one place only. -/
theorem advanceLeg_comesTo (leg : Leg) : bus.ComesTo consumer.id
    ((bus.scene.delivery consumer.id leg).look task consumer batch bus.scene.conditions)
    (bus.advanceLeg task consumer origin batch leg) := by
  cases leg with
  | fresh => exact beginLeg_comesTo bus task consumer origin batch
  | waiting selected deadline =>
      exact reviewLeg_comesTo bus task consumer origin batch selected deadline
  | done outcome => exact ⟨rfl, (Scene.set_eq_self rfl rfl).symm⟩

end Looks

/-- The deliveries of a fan-out and the bus they go through. -/
structure AtWork (σ : Type) where
  legs : List (Consumer × Leg)
  bus : Bus σ

section Turns

variable (task : TaskId) (publish : Nat) (batch : List Event)

/-- The task looks at the delivery in a place of the list. -/
def AtWork.lookAt (w : AtWork σ) (place : Nat) : AtWork σ :=
  match w.legs[place]? with
  | none => w
  | some (consumer, leg) =>
      let later := w.legs.drop (place + 1)
      let (seen, bus) := w.bus.deliver task publish batch (w.legs.take place) consumer leg later
      ⟨seen ++ later, bus⟩

/-- The task looks at deliveries one after the other. -/
def AtWork.lookAll (w : AtWork σ) (places : List Nat) : AtWork σ :=
  places.foldl (AtWork.lookAt task publish batch) w

theorem lookAll_cons (w : AtWork σ) (place : Nat) (places : List Nat) :
    w.lookAll task publish batch (place :: places) =
      (w.lookAt task publish batch place).lookAll task publish batch places := rfl

/-- The turn that the fan-out takes on the bus. -/
def AtWork.turn (w : AtWork σ) : AtWork σ :=
  let (legs, bus) := deliverAll task publish batch [] w.legs w.bus
  ⟨legs, bus⟩

/-- The delivery in the place has been woken. -/
def AtWork.Woken (w : AtWork σ) (place : Nat) : Prop :=
  ∃ consumer leg, w.legs[place]? = some (consumer, leg) ∧
    (w.bus.scene.delivery consumer.id leg).isWoken task w.bus.scene.conditions = true

/-- What a look leaves: the delivery in its place, and the scene changed for its consumer only. -/
theorem lookAt_eq {w : AtWork σ} {place : Nat} {consumer : Consumer} {leg : Leg}
    (h : w.legs[place]? = some (consumer, leg)) (d : Delivery)
    (hd : (w.bus.scene.delivery consumer.id leg).look task consumer batch w.bus.scene.conditions
      = d) :
    (w.lookAt task publish batch place).legs =
        w.legs.take place ++ (consumer, d.leg) :: w.legs.drop (place + 1) ∧
      (w.lookAt task publish batch place).bus.scene = w.bus.scene.set consumer.id d := by
  subst hd
  obtain ⟨hleg, hscene⟩ := advanceLeg_comesTo w.bus task consumer (.live publish) batch leg
  simp only [AtWork.lookAt, h, deliver, scene_setTask, hleg, hscene, List.append_assoc,
    List.singleton_append, and_self]

theorem lookAt_of_none {w : AtWork σ} {place : Nat} (h : w.legs[place]? = none) :
    w.lookAt task publish batch place = w := by
  simp only [AtWork.lookAt, h]

theorem conditions_lookAt (w : AtWork σ) (place : Nat) :
    (w.lookAt task publish batch place).bus.scene.conditions = w.bus.scene.conditions := by
  cases h : w.legs[place]? with
  | none => rw [lookAt_of_none task publish batch h]
  | some entry =>
      rw [(lookAt_eq task publish batch h _ rfl).2]
      rfl

theorem eq_take_cons_drop {α : Type} {as : List α} {place : Nat} {a : α} (h : as[place]? = some a) :
    as = as.take place ++ a :: as.drop (place + 1) := by
  obtain ⟨hplace, rfl⟩ := List.getElem?_eq_some_iff.mp h
  rw [List.getElem_cons_drop, List.take_append_drop]

/-- A look changes the consumers of no delivery. -/
theorem consumers_lookAt (w : AtWork σ) (place : Nat) :
    (w.lookAt task publish batch place).legs.map (·.1) = w.legs.map (·.1) := by
  cases h : w.legs[place]? with
  | none => rw [lookAt_of_none task publish batch h]
  | some entry =>
      rw [(lookAt_eq task publish batch h _ rfl).1]
      conv_rhs => rw [eq_take_cons_drop h]
      simp only [List.map_append, List.map_cons]

theorem deliverAll_eq_lookAll (seen legs : List (Consumer × Leg)) (bus : Bus σ) :
    AtWork.mk (deliverAll task publish batch seen legs bus).1
        (deliverAll task publish batch seen legs bus).2 =
      (AtWork.mk (seen ++ legs) bus).lookAll task publish batch
        (List.range' seen.length legs.length) := by
  induction legs generalizing seen bus with
  | nil => simp [deliverAll, AtWork.lookAll]
  | cons entry legs ih =>
      obtain ⟨consumer, leg⟩ := entry
      have hlook : (AtWork.mk (seen ++ (consumer, leg) :: legs) bus).lookAt task publish batch
          seen.length =
        AtWork.mk ((bus.deliver task publish batch seen consumer leg legs).1 ++ legs)
          (bus.deliver task publish batch seen consumer leg legs).2 := by
        simp [AtWork.lookAt]
      have hlength : (bus.deliver task publish batch seen consumer leg legs).1.length =
          seen.length + 1 := by
        simp [deliver]
      rw [deliverAll, ih, hlength, List.length_cons, List.range'_succ, lookAll_cons, hlook]

/-- The turn of a fan-out looks at all of its deliveries, from the first to the last. -/
theorem turn_eq_lookAll (w : AtWork σ) : w.turn task publish batch =
    w.lookAll task publish batch (List.range w.legs.length) := by
  rw [List.range_eq_range']
  exact deliverAll_eq_lookAll task publish batch [] w.legs w.bus

end Turns

section One

/-! One consumer of the list, and how its delivery stands. -/

variable {task : TaskId} {publish : Nat} {batch : List Event} {w : AtWork σ} {consumer : Consumer}
  {d : Delivery} {place : Nat}

/-- The delivery to the consumer, the only one of its number, stands like this. -/
structure AtWork.Has (w : AtWork σ) (consumer : Consumer) (d : Delivery) : Prop where
  leg : w.legs.filter (·.1.id == consumer.id) = [(consumer, d.leg)]
  delivery : w.bus.scene.delivery consumer.id d.leg = d

/-- The consumer with the number is in the place. -/
def AtWork.At (w : AtWork σ) (id : ConsumerId) (place : Nat) : Prop :=
  ∃ consumer ∈ (w.legs.map (·.1))[place]?, consumer.id = id

theorem at_iff {id : ConsumerId} :
    w.At id place ↔ ∃ entry, w.legs[place]? = some entry ∧ entry.1.id = id := by
  simp [AtWork.At, List.getElem?_map]

theorem at_lookAt_iff {id : ConsumerId} {other : Nat} :
    (w.lookAt task publish batch place).At id other ↔ w.At id other := by
  rw [AtWork.At, AtWork.At, consumers_lookAt]

/-- Around the only entry of its kind there is none. -/
theorem filter_around {α : Type} {p : α → Bool} {as : List α} {a only : α}
    (ha : as[place]? = some a) (hp : p a = true) (honly : as.filter p = [only]) :
    (as.take place).filter p = [] ∧ a = only ∧ (as.drop (place + 1)).filter p = [] := by
  rw [eq_take_cons_drop ha, List.filter_append, List.filter_cons_of_pos hp,
    List.append_eq_singleton_iff] at honly
  rcases honly with ⟨htake, hrest⟩ | ⟨-, hrest⟩
  · exact ⟨htake, List.cons_eq_cons.mp hrest⟩
  · cases hrest

theorem AtWork.Has.not_at_of_lt (h : w.Has consumer d) {later : Nat}
    (hlater : w.At consumer.id later) (hless : place < later) : ¬w.At consumer.id place := by
  intro hplace
  obtain ⟨first, hfirst, hid⟩ := at_iff.mp hplace
  obtain ⟨second, hsecond, hsame⟩ := at_iff.mp hlater
  have hbefore := (filter_around hsecond (by simpa using hsame) h.leg).1
  have hmem : first ∈ w.legs.take later := by
    apply List.mem_of_getElem? (i := place)
    rwa [List.getElem?_take_of_lt hless]
  have hnot := List.filter_eq_nil_iff.mp hbefore first hmem
  simp [hid] at hnot

/-- Only one place holds the consumer. -/
theorem AtWork.Has.place_unique (h : w.Has consumer d) {other : Nat}
    (hplace : w.At consumer.id place) (hother : w.At consumer.id other) : place = other := by
  rcases Nat.lt_trichotomy place other with hless | heq | hless
  · exact absurd hplace (h.not_at_of_lt hother hless)
  · exact heq
  · exact absurd hother (h.not_at_of_lt hplace hless)

/-- A look at the delivery takes it one step on. -/
theorem AtWork.Has.lookAt_own (h : w.Has consumer d) (hplace : w.At consumer.id place) :
    (w.lookAt task publish batch place).Has consumer
      (d.look task consumer batch w.bus.scene.conditions) := by
  obtain ⟨entry, hentry, hid⟩ := at_iff.mp hplace
  obtain ⟨htake, rfl, hdrop⟩ := filter_around hentry (by simpa using hid) h.leg
  obtain ⟨hlegs, hscene⟩ := lookAt_eq task publish batch hentry
    (d.look task consumer batch w.bus.scene.conditions) (by rw [h.delivery])
  constructor
  · rw [hlegs, List.filter_append, htake, List.filter_cons_of_pos (by simp), hdrop]
    rfl
  · rw [hscene]
    simp [Scene.delivery, Scene.set]

/-- A look at another delivery leaves it as it stands. -/
theorem AtWork.Has.lookAt_other (h : w.Has consumer d) (hplace : ¬w.At consumer.id place) :
    (w.lookAt task publish batch place).Has consumer d := by
  cases hentry : w.legs[place]? with
  | none => rwa [lookAt_of_none task publish batch hentry]
  | some entry =>
      obtain ⟨other, leg⟩ := entry
      have hid : other.id ≠ consumer.id := fun hid => hplace (at_iff.mpr ⟨_, hentry, hid⟩)
      have hskip (leg : Leg) (later : List (Consumer × Leg)) :
          ((other, leg) :: later).filter (·.1.id == consumer.id) =
            later.filter (·.1.id == consumer.id) :=
        List.filter_cons_of_neg (by simpa using hid)
      obtain ⟨hlegs, hscene⟩ := lookAt_eq task publish batch hentry _ rfl
      have hsplit := h.leg
      rw [eq_take_cons_drop hentry, List.filter_append, hskip] at hsplit
      constructor
      · rw [hlegs, List.filter_append, hskip, hsplit]
      · rw [hscene]
        refine Eq.trans ?_ h.delivery
        simp [Scene.delivery, Scene.set, Function.update_of_ne (Ne.symm hid)]

theorem AtWork.Has.lookAll_others (h : w.Has consumer d) {places : List Nat}
    (hothers : ∀ place ∈ places, ¬w.At consumer.id place) :
    (w.lookAll task publish batch places).Has consumer d := by
  induction places generalizing w with
  | nil => exact h
  | cons place places ih =>
      obtain ⟨hplace, hlater⟩ := List.forall_mem_cons.mp hothers
      rw [lookAll_cons]
      exact ih (h.lookAt_other hplace) fun other hother =>
        mt at_lookAt_iff.mp (hlater other hother)

theorem AtWork.Has.lookAll_own (h : w.Has consumer d) {places : List Nat} (honce : places.Nodup)
    (hmem : place ∈ places) (hplace : w.At consumer.id place) :
    (w.lookAll task publish batch places).Has consumer
      (d.look task consumer batch w.bus.scene.conditions) := by
  induction places generalizing w with
  | nil => cases hmem
  | cons first places ih =>
      obtain ⟨hfirst, hlater⟩ := List.nodup_cons.mp honce
      rw [lookAll_cons]
      -- No place comes twice, so there is one look at the delivery and the others pass it by.
      rcases List.mem_cons.mp hmem with rfl | hrest
      · refine (h.lookAt_own hplace).lookAll_others fun other hother hat => ?_
        obtain rfl := h.place_unique hplace (at_lookAt_iff.mp hat)
        exact hfirst hother
      · have hother : ¬w.At consumer.id first := fun hat => by
          obtain rfl := h.place_unique hplace hat
          exact hfirst hrest
        rw [← conditions_lookAt task publish batch w first]
        exact ih (h.lookAt_other hother) hlater hrest (at_lookAt_iff.mpr hplace)

theorem AtWork.Has.exists_place (h : w.Has consumer d) :
    ∃ place : Nat, w.legs[place]? = some (consumer, d.leg) := by
  have hmem : (consumer, d.leg) ∈ w.legs.filter (·.1.id == consumer.id) := by
    rw [h.leg]
    exact List.mem_singleton_self _
  exact List.getElem?_of_mem (List.mem_filter.mp hmem).1

/-- A turn that looks at each delivery once at most, and at all that have been woken, takes the
delivery one step on. -/
theorem AtWork.Has.lookAll (h : w.Has consumer d) {places : List Nat} (honce : places.Nodup)
    (hwoken : ∀ place, w.Woken task place → place ∈ places) :
    (w.lookAll task publish batch places).Has consumer
      (d.look task consumer batch w.bus.scene.conditions) := by
  obtain ⟨place, hplace⟩ := h.exists_place
  have hat : w.At consumer.id place := at_iff.mpr ⟨_, hplace, rfl⟩
  -- If its place is left out, it was not woken, and then the look would have done nothing.
  by_cases hmem : place ∈ places
  · exact h.lookAll_own honce hmem hat
  · have hquiet : d.isWoken task w.bus.scene.conditions = false := by
      rw [← Bool.not_eq_true]
      exact fun hdue => hmem (hwoken place ⟨consumer, d.leg, hplace, by rwa [h.delivery]⟩)
    rw [d.look_eq_self hquiet]
    refine h.lookAll_others fun other hother hotherAt => hmem ?_
    rwa [h.place_unique hat hotherAt]

end One

/-- What happens between two turns of a fan-out: time passes, the bus may be cancelled, and each
feed becomes whatever its reader, its consumer and other tasks make of it. -/
structure Pause where
  now : Nat
  canceled : Bool
  change : ConsumerId → Feed → Feed

/-- The bus after a pause. Its reports start afresh, so they are those of the next turn. -/
def pause (bus : Bus σ) (p : Pause) : Bus σ :=
  { bus with
    now := p.now
    canceled := p.canceled
    feeds := bus.feeds.map fun entry => (entry.1, p.change entry.1 entry.2)
    history := [] }

def AtWork.pause (w : AtWork σ) (p : Pause) : AtWork σ := ⟨w.legs, w.bus.pause p⟩

/-- Batches put into a feed, each with the moment. -/
abbrev PutLog := List (Nat × List Event)

/-- What the reports tell to have been put into a feed, all at the one moment. -/
def AtWork.puts (w : AtWork σ) (now : Nat) (id : ConsumerId) : PutLog :=
  (w.bus.scene.puts id).map (now, ·)

/-- The passages of a fan-out through pauses, with what it puts into each feed and when. After
each pause it takes a turn, in which it looks at each delivery once at most and at all that have
been woken. -/
inductive Passage (task : TaskId) (publish : Nat) (batch : List Event) (targets : List Consumer)
    (start : Bus σ) : List Pause → AtWork σ → (ConsumerId → PutLog) → Prop where
  | begun : Passage task publish batch targets start []
      ⟨targets.map fun consumer => (consumer, .fresh), start⟩ fun _ => []
  | turn {pauses : List Pause} {w : AtWork σ} {log : ConsumerId → PutLog}
      (h : Passage task publish batch targets start pauses w log) (p : Pause) (places : List Nat)
      (honce : places.Nodup) (hwoken : ∀ place, (w.pause p).Woken task place → place ∈ places) :
      Passage task publish batch targets start (pauses ++ [p])
        ((w.pause p).lookAll task publish batch places) fun id =>
          log id ++ ((w.pause p).lookAll task publish batch places).puts p.now id

namespace Delivery

def pause (d : Delivery) (id : ConsumerId) (p : Pause) : Delivery :=
  ⟨d.leg, d.feed?.map (p.change id), []⟩

/-- One pause and one look in the passage of a delivery by itself. -/
def pass (task : TaskId) (consumer : Consumer) (batch : List Event) (timeout : Nat)
    (sofar : Delivery × PutLog) (p : Pause) : Delivery × PutLog :=
  let d := (sofar.1.pause consumer.id p).look task consumer batch ⟨p.now, p.canceled, timeout⟩
  (d, sofar.2 ++ d.puts.map (p.now, ·))

end Delivery

section Passages

variable {task : TaskId} {publish : Nat} {batch : List Event} {targets : List Consumer}
  {start : Bus σ} {pauses : List Pause} {w : AtWork σ} {log : ConsumerId → PutLog}
  {consumer : Consumer} {d : Delivery}

theorem feed?_pause (bus : Bus σ) (p : Pause) (id : ConsumerId) :
    (bus.pause p).feed? id = (bus.feed? id).map (p.change id) := by
  unfold Bus.feed? Bus.pause
  dsimp only
  induction bus.feeds with
  | nil => rfl
  | cons entry feeds ih =>
      obtain ⟨other, feed⟩ := entry
      rw [List.map_cons, List.lookup_cons, List.lookup_cons, ih]
      by_cases hid : id = other
      · subst hid
        simp
      · rw [beq_eq_false_iff_ne.mpr hid]

theorem AtWork.Has.pause (h : w.Has consumer d) (p : Pause) :
    (w.pause p).Has consumer (d.pause consumer.id p) := by
  refine ⟨h.leg, ?_⟩
  have hfeed : w.bus.feed? consumer.id = d.feed? := congrArg Delivery.feed? h.delivery
  have hpaused := feed?_pause w.bus p consumer.id
  rw [hfeed] at hpaused
  exact congrArg (fun feed? => Delivery.mk d.leg feed? []) hpaused

theorem conditions_lookAll (w : AtWork σ) (places : List Nat) :
    (w.lookAll task publish batch places).bus.scene.conditions = w.bus.scene.conditions := by
  induction places generalizing w with
  | nil => rfl
  | cons place places ih => rw [lookAll_cons, ih, conditions_lookAt]

theorem consumers_lookAll (w : AtWork σ) (places : List Nat) :
    (w.lookAll task publish batch places).legs.map (·.1) = w.legs.map (·.1) := by
  induction places generalizing w with
  | nil => rfl
  | cons place places ih => rw [lookAll_cons, ih, consumers_lookAt]

theorem Passage.consumers (h : Passage task publish batch targets start pauses w log) :
    w.legs.map (·.1) = targets := by
  induction h with
  | begun => rw [List.map_map]; exact List.map_id _
  | turn _ p places _ _ ih => rw [consumers_lookAll, ← ih]; rfl

theorem Passage.timeout (h : Passage task publish batch targets start pauses w log) :
    w.bus.scene.conditions.timeout = start.settings.consumerTimeout := by
  induction h with
  | begun => rfl
  | turn _ p places _ _ ih => rw [conditions_lookAll, ← ih]; rfl

/-- A delivery goes the way it would go by itself. -/
theorem Passage.has (honly : targets.filter (·.id == consumer.id) = [consumer])
    (h : Passage task publish batch targets start pauses w log) :
    w.Has consumer (pauses.foldl (Delivery.pass task consumer batch start.settings.consumerTimeout)
        (start.scene.delivery consumer.id .fresh, [])).1 ∧
      log consumer.id = (pauses.foldl
        (Delivery.pass task consumer batch start.settings.consumerTimeout)
        (start.scene.delivery consumer.id .fresh, [])).2 := by
  induction h with
  | begun =>
      refine ⟨⟨?_, rfl⟩, rfl⟩
      rw [List.filter_map]
      exact congrArg (List.map fun consumer => (consumer, Leg.fresh)) honly
  | @turn pauses w log h p places honce hwoken ih =>
      obtain ⟨hhas, hlog⟩ := ih
      have hnext : ((w.pause p).lookAll task publish batch places).Has consumer _ :=
        (hhas.pause p).lookAll honce hwoken
      have hconditions : (w.pause p).bus.scene.conditions =
          ⟨p.now, p.canceled, start.settings.consumerTimeout⟩ := by
        rw [← h.timeout]
        rfl
      rw [hconditions] at hnext
      rw [List.foldl_append, List.foldl_cons, List.foldl_nil]
      refine ⟨hnext, ?_⟩
      have hputs := congrArg Delivery.puts hnext.delivery
      exact congrArg₂ (fun before puts => before ++ puts.map (p.now, ·)) hlog hputs

/-- The turn that the bus gives a fan-out carries its passage on. -/
theorem Passage.ownTurn (h : Passage task publish batch targets start pauses w log) (p : Pause) :
    Passage task publish batch targets start (pauses ++ [p]) ((w.pause p).turn task publish batch)
      fun id => log id ++ ((w.pause p).turn task publish batch).puts p.now id := by
  rw [turn_eq_lookAll]
  refine .turn h p _ List.nodup_range ?_
  rintro place ⟨consumer, leg, hplace, -⟩
  exact List.mem_range.mpr (List.getElem?_eq_some_iff.mp hplace).1

/-- Whatever happens in the pauses, there is a passage through them. -/
theorem exists_passage (task : TaskId) (publish : Nat) (batch : List Event)
    (targets : List Consumer) (start : Bus σ) (pauses : List Pause) :
    ∃ w log, Passage task publish batch targets start pauses w log := by
  induction pauses using List.reverseRecOn with
  | nil => exact ⟨_, _, .begun⟩
  | append_singleton pauses p ih =>
      obtain ⟨w, log, h⟩ := ih
      exact ⟨_, _, h.ownTurn p⟩

/-- A slow consumer does not hold up others. For the only entry of the list with its feed, how its
delivery ends, what becomes of its feed, and what is put there at which moments is the same as in a
fan-out to it alone. -/
theorem Passage.same_as_alone (honly : targets.filter (·.id == consumer.id) = [consumer])
    {alone : AtWork σ} {logAlone : ConsumerId → PutLog}
    (hall : Passage task publish batch targets start pauses w log)
    (halone : Passage task publish batch [consumer] start pauses alone logAlone) :
    w.legs.filter (·.1.id == consumer.id) = alone.legs ∧
      w.bus.feed? consumer.id = alone.bus.feed? consumer.id ∧
      log consumer.id = logAlone consumer.id := by
  obtain ⟨hhas, hlog⟩ := hall.has honly
  have honlyAlone : [consumer].filter (·.id == consumer.id) = [consumer] := by simp
  obtain ⟨hhasAlone, hlogAlone⟩ := halone.has honlyAlone
  have hself : alone.legs.filter (·.1.id == consumer.id) = alone.legs := by
    obtain ⟨entry, hentry, rfl⟩ := List.map_eq_singleton_iff.mp halone.consumers
    simp [hentry]
  refine ⟨?_, ?_, hlog.trans hlogAlone.symm⟩
  · rw [hhas.leg, ← hself, hhasAlone.leg]
  · have hfeed := congrArg Delivery.feed? hhas.delivery
    exact hfeed.trans (congrArg Delivery.feed? hhasAlone.delivery).symm

end Passages

section Example

/-! Two consumers of everything: the feed of the first is full, the second has room. -/

def slow : Consumer := ⟨1, ⟨false, 10, .pass⟩⟩

def fast : Consumer := ⟨2, ⟨false, 10, .pass⟩⟩

def single : List Event := [⟨none, .null, none⟩]

def oneFull : Bus Unit :=
  { Bus.create ⟨1, 10, 50, 50⟩ none with
    feeds := [(1, { Feed.ofPlaces 1 with queue := [single], places := ⟨0, [], []⟩ }),
      (2, Feed.ofPlaces 8)] }

/-- Nothing happens until the moment. -/
def Pause.idle (now : Nat) : Pause := ⟨now, false, fun _ feed => feed⟩

/-- The second has the batch at the first moment; the first goes on waiting and times out. -/
theorem fast_served_at_once : ∃ (w : AtWork Unit) (log : ConsumerId → PutLog),
    Passage 0 0 single [slow, fast] oneFull [.idle 5, .idle 55] w log ∧
      log fast.id = [(5, single)] ∧
      w.legs = [(slow, .done .timedOut), (fast, .done (.delivered 1))] := by
  have hbegun (targets : List Consumer) : Passage 0 0 single targets oneFull []
      ⟨targets.map fun consumer => (consumer, .fresh), oneFull⟩ fun _ => [] := .begun
  have hall := ((hbegun [slow, fast]).ownTurn (.idle 5)).ownTurn (.idle 55)
  have halone := ((hbegun [fast]).ownTurn (.idle 5)).ownTurn (.idle 55)
  have honly : [slow, fast].filter (·.id == fast.id) = [fast] := rfl
  have hsame := Passage.same_as_alone honly hall halone
  exact ⟨_, _, hall, hsame.2.2, rfl⟩

end Example

end EventBus.Bus
