import EventBus.Bus.State

/-!
Delivering batches to consumers. A delivery selects what matches the consumer's filter and
puts it into the feed, waiting for a place up to the consumer timeout. A fan-out makes one
delivery to each of its consumers; every turn it looks at all that still wait, so that none
holds up another, and when all are over it reports them in order.
-/

namespace EventBus.Bus

variable {σ : Type}

/-- A turn for the task for which a place is kept now. -/
def wakeIf (bus : Bus σ) : Option TaskId → Bus σ
  | some task => bus.wake (.task task)
  | none => bus

def recordLeg (bus : Bus σ) (id : ConsumerId) (selected : List Event) (origin : Origin) :
    Leg → Bus σ
  | .done (.delivered _) => bus.note (.queued id selected origin)
  | _ => bus

def beginLeg (bus : Bus σ) (task : TaskId) (consumer : Consumer) (origin : Origin)
    (batch : List Event) : Leg × Bus σ :=
  match bus.feed? consumer.id with
  | none => (.done .closed, bus)
  | some feed =>
      let selected := consumer.query.select batch
      let (leg, feed) := feed.offer task (bus.isCanceled consumer.id) bus.now
        bus.settings.consumerTimeout selected
      let bus := (bus.setFeed consumer.id feed).recordLeg consumer.id selected origin leg
      match leg with
      | .waiting _ deadline => (leg, bus.setTimer deadline (.task task))
      | _ => (leg, bus)

def reviewLeg (bus : Bus σ) (task : TaskId) (consumer : Consumer) (origin : Origin)
    (selected : List Event) (deadline : Nat) : Leg × Bus σ :=
  match bus.feed? consumer.id with
  | none => (.done .closed, bus)
  | some feed =>
      let (leg, feed, next) := feed.retry task (bus.isCanceled consumer.id) bus.now selected deadline
      let bus := ((bus.setFeed consumer.id feed).recordLeg consumer.id selected origin leg).wakeIf next
      if leg.isDone then (leg, bus.clearTimer deadline (.task task)) else (leg, bus)

def advanceLeg (bus : Bus σ) (task : TaskId) (consumer : Consumer) (origin : Origin)
    (batch : List Event) : Leg → Leg × Bus σ
  | .fresh => bus.beginLeg task consumer origin batch
  | .waiting selected deadline => bus.reviewLeg task consumer origin selected deadline
  | .done outcome => (.done outcome, bus)

/-- Take one delivery of a fan-out as far as it goes, and keep how far it came. -/
def deliver (bus : Bus σ) (task : TaskId) (publish : Nat) (batch : List Event)
    (seen : List (Consumer × Leg)) (consumer : Consumer) (leg : Leg)
    (legs : List (Consumer × Leg)) : List (Consumer × Leg) × Bus σ :=
  let (leg, bus) := bus.advanceLeg task consumer (.live publish) batch leg
  let seen := seen ++ [(consumer, leg)]
  (seen, bus.setTask task (.fanOut publish batch (seen ++ legs)))

/-- Take the deliveries of a fan-out as far as they go, one after the other. -/
def deliverAll (task : TaskId) (publish : Nat) (batch : List Event) :
    List (Consumer × Leg) → List (Consumer × Leg) → Bus σ → List (Consumer × Leg) × Bus σ
  | seen, [], bus => (seen, bus)
  | seen, (consumer, leg) :: legs, bus =>
      let (seen, bus) := bus.deliver task publish batch seen consumer leg legs
      deliverAll task publish batch seen legs bus

/--
The reports of a finished fan-out. Once the bus is cancelled, the first delivery that was
cut short ends the reports.
-/
def fanOutNotices (canceled : Bool) : List (Consumer × Leg) → List Notice
  | [] => []
  | (consumer, leg) :: legs =>
      match leg.outcome? with
      | some (.delivered events) =>
          .delivered consumer.id events :: fanOutNotices canceled legs
      | some .timedOut => .timedOut consumer.id :: fanOutNotices canceled legs
      | some .closed => .abandoned consumer.id .closed :: fanOutNotices canceled legs
      | some .canceled =>
          if canceled then []
          else .abandoned consumer.id .canceled :: fanOutNotices canceled legs
      | _ => fanOutNotices canceled legs

def finishFanOut (bus : Bus σ) (task : TaskId) (publish : Nat) (batch : List Event)
    (legs : List (Consumer × Leg)) : Bus σ :=
  (bus.noteAll (fanOutNotices bus.canceled legs)).finish task (.fanOut publish batch legs)

def turnFanOut (bus : Bus σ) (task : TaskId) (publish : Nat) (batch : List Event)
    (legs : List (Consumer × Leg)) : Bus σ :=
  let (legs, bus) := deliverAll task publish batch [] legs bus
  if legs.all (·.2.isDone) then bus.finishFanOut task publish batch legs else bus

end EventBus.Bus
