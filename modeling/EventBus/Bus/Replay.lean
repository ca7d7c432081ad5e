import EventBus.Bus.Delivery

/-!
Replaying history to a new consumer. The store is read once; the batches of the stream are
delivered one after the other until as many events as the consumer's limit have arrived,
each batch first cut to what is still wanted. A delivery that times out is dropped and the
replay goes on.
-/

namespace EventBus.Bus

variable {σ : Type}

def finishReplay (bus : Bus σ) (task : TaskId) (consumer : Consumer) (sent : Nat) : Bus σ :=
  (bus.note (.replayFinished consumer.id sent)).finish task (.replay consumer .starting)

def keepReplay (bus : Bus σ) (task : TaskId) (consumer : Consumer) (phase : ReplayPhase) : Bus σ :=
  bus.setTask task (.replay consumer phase)

def watch (bus : Bus σ) (task : TaskId) (id : ConsumerId) : Bus σ :=
  match bus.feed? id with
  | none => bus
  | some feed => bus.setFeed id { feed with watchers := feed.watchers ++ [task] }

def unwatch (bus : Bus σ) (task : TaskId) (id : ConsumerId) : Bus σ :=
  match bus.feed? id with
  | none => bus
  | some feed => bus.setFeed id { feed with watchers := feed.watchers.erase task }

/-- Where a replay stands after a look at a delivery: the rest of the stream is still to come. -/
def settleLeg (bus : Bus σ) (task : TaskId) (consumer : Consumer) (rest : Stream) (sent : Nat)
    (leg : Leg) : Bus σ :=
  match leg with
  | .fresh => bus
  | .waiting selected deadline => bus.keepReplay task consumer (.sending selected deadline rest sent)
  | .done (.delivered events) => bus.keepReplay task consumer (.taking rest (sent + events))
  | .done .skipped => bus.keepReplay task consumer (.taking rest sent)
  | .done .timedOut =>
      (bus.note (.replayTimedOut consumer.id)).keepReplay task consumer (.taking rest sent)
  | .done .canceled => bus.finishReplay task consumer sent
  | .done .closed => bus.finishReplay task consumer sent

/-- The first look at the delivery of a batch, cut to what the consumer still wants. -/
def sendBatch (bus : Bus σ) (task : TaskId) (consumer : Consumer) (batch : List Event)
    (rest : Stream) (sent : Nat) : Leg × Bus σ :=
  let (leg, bus) :=
    bus.beginLeg task consumer .replay (batch.take (consumer.query.limit - sent))
  (leg, bus.settleLeg task consumer rest sent leg)

/-- Another look at a delivery that waits for a place. -/
def resendBatch (bus : Bus σ) (task : TaskId) (consumer : Consumer) (selected : List Event)
    (deadline : Nat) (rest : Stream) (sent : Nat) : Leg × Bus σ :=
  match bus.reviewLeg task consumer .replay selected deadline with
  | (.done outcome, bus) => (.done outcome, bus.settleLeg task consumer rest sent (.done outcome))
  | (leg, bus) => (leg, bus)

/-- Nothing more is to be delivered: enough has been sent, or the consumer was cancelled. -/
def isSated (bus : Bus σ) (consumer : Consumer) (sent : Nat) : Bool :=
  consumer.query.limit ≤ sent || bus.isCanceled consumer.id

/-- Deliver the batches of a stream until one has to wait or enough has been sent. -/
def sendStream (task : TaskId) (consumer : Consumer) (ends : Bool) :
    List (List Event) → Nat → Bus σ → Bus σ
  | [], sent, bus =>
      if bus.isSated consumer sent || ends then bus.finishReplay task consumer sent
      else bus.watch task consumer.id
  | batch :: batches, sent, bus =>
      if bus.isSated consumer sent then bus.finishReplay task consumer sent
      else
        let (leg, bus) := bus.sendBatch task consumer batch ⟨batches, ends⟩ sent
        match leg.passed? with
        | some events => sendStream task consumer ends batches (sent + events) bus
        | none => bus

/-- Where a replay stands after its read. -/
def openStream (bus : Bus σ) (task : TaskId) (consumer : Consumer) :
    Except StoreError Stream → Bus σ
  | .ok stream => bus.keepReplay task consumer (.taking stream 0)
  | .error .canceled => bus.finish task (.replay consumer .starting)
  | .error error =>
      (bus.note (.replayReadFailed consumer.id error)).finish task (.replay consumer .starting)

/-- The one read of a replay. Without a store there is no history. -/
def readHistory (bus : Bus σ) [Store σ] (task : TaskId) (consumer : Consumer) :
    Except StoreError Stream × Bus σ :=
  match bus.store? with
  | none => (.ok ⟨[], true⟩, bus.openStream task consumer (.ok ⟨[], true⟩))
  | some store =>
      let answer := Store.read (bus.isCanceled consumer.id) consumer.query store
      let bus := { bus with store? := some answer.store }.noteAll (answer.notices.map .store)
      (answer.result, bus.openStream task consumer answer.result)

def startReplay (bus : Bus σ) [Store σ] (task : TaskId) (consumer : Consumer) : Bus σ :=
  match bus.readHistory task consumer with
  | (.ok stream, bus) => sendStream task consumer stream.ends stream.batches 0 bus
  | (.error _, bus) => bus

def resumeReplay (bus : Bus σ) (task : TaskId) (consumer : Consumer) (selected : List Event)
    (deadline : Nat) (rest : Stream) (sent : Nat) : Bus σ :=
  let (leg, bus) := bus.resendBatch task consumer selected deadline rest sent
  match leg.passed? with
  | some events => sendStream task consumer rest.ends rest.batches (sent + events) bus
  | none => bus

def turnReplay (bus : Bus σ) [Store σ] (task : TaskId) (consumer : Consumer) :
    ReplayPhase → Bus σ
  | .starting => bus.startReplay task consumer
  | .taking _ sent =>
      if bus.isCanceled consumer.id then
        (bus.unwatch task consumer.id).finishReplay task consumer sent
      else bus
  | .sending selected deadline rest sent =>
      bus.resumeReplay task consumer selected deadline rest sent

end EventBus.Bus
