import EventBus.Bus.Replay

/-!
The coordinator takes commands one at a time. A publish is kept by the store before anyone
sees it and is then fanned out to the consumers registered at that moment; a subscription
is registered and, where wanted, replayed to; an unsubscription takes a consumer out.
Background work needs a worker token, for which the coordinator waits up to a timeout; it
takes no further command meanwhile, and drops the work when no token comes.
-/

namespace EventBus.Bus

variable {σ : Type}

def insertConsumer (consumer : Consumer) : List Consumer → List Consumer
  | [] => [consumer]
  | other :: rest =>
      if consumer.id < other.id then consumer :: other :: rest
      else other :: insertConsumer consumer rest

inductive Handled (σ : Type) where
  | next (bus : Bus σ)
  | waits (bus : Bus σ)
  | failed (error : BusError) (bus : Bus σ)

def startJob (bus : Bus σ) (job : Job) : Bus σ := bus.spawn job.task

/-- Drop work for which no token was to be had in time. -/
def dropJob (bus : Bus σ) (job : Job) : Bus σ :=
  (bus.letGoAll job.consumers).note (.noWorker job.name .timedOut)

/-- What it means for the command that its work was cut short by the end of the bus. -/
def cutShort (bus : Bus σ) (job : Job) : Handled σ :=
  match job with
  | .fanOut .. => .failed .canceled (bus.letGoAll job.consumers)
  | .replay _ => .next (bus.letGoAll job.consumers)

/-- What becomes of background work once it is known whether there is a token for it. -/
def conclude (bus : Bus σ) (job : Job) : Acquired → Handled σ
  | .token => .next (bus.startJob job)
  | .canceled => bus.cutShort job
  | .timedOut => .next (bus.dropJob job)
  | .waiting => .waits bus

def acquire (bus : Bus σ) (job : Job) : Handled σ :=
  match bus.pool.request () bus.canceled (0 < bus.settings.workersTimeout) with
  | (.waiting, pool) =>
      let deadline := bus.now + bus.settings.workersTimeout
      .waits ({ bus with pool, coordinator := .acquiring job deadline }.setTimer deadline .coordinator)
  | (acquired, pool) => { bus with pool }.conclude job acquired

def pruneEach (bus : Bus σ) : List Consumer → Bus σ
  | [] => bus
  | consumer :: rest =>
      if (bus.feed? consumer.id).any (·.closed) then
        let bus := bus.cancelConsumer consumer.id
        let bus := { bus with registry := bus.registry.filter (·.id != consumer.id) }
        ((bus.note (.pruned consumer.id)).letGo consumer.id).pruneEach rest
      else bus.pruneEach rest

def prune (bus : Bus σ) : Bus σ := bus.pruneEach bus.registry

def fanOut (bus : Bus σ) (publish : Nat) (batch : List Event) : Handled σ :=
  let bus := bus.prune
  if bus.registry.isEmpty || batch.isEmpty then .next bus
  else bus.acquire (.fanOut publish batch bus.registry)

def handlePublish (bus : Bus σ) [Store σ] (batch : List Event) : Handled σ :=
  let publish := bus.publishes
  let bus := { bus with publishes := publish + 1 }
  match bus.store? with
  | none => bus.fanOut publish batch
  | some store =>
      let answer := Store.write bus.canceled batch store
      let bus := { bus with store? := some answer.store }.noteAll (answer.notices.map .store)
      match answer.result with
      | .ok () => (bus.note (.stored batch)).fanOut publish batch
      | .error error => .failed (.ofStore error) bus

def handleSubscribe (bus : Bus σ) (id : ConsumerId) (query : Query) : Handled σ :=
  if bus.isRegistered id then .next (bus.note (.alreadyRegistered id))
  else
    let consumer : Consumer := ⟨id, query.clampLimit bus.settings.maxReplay⟩
    let bus := { bus.note (.registered consumer) with
      registry := insertConsumer consumer bus.registry
      audience := bus.audience ++ [id] }
    if bus.store?.isNone || !consumer.query.replay || consumer.query.limit == 0 then .next bus
    else bus.acquire (.replay consumer)

/-- Take a consumer out of the registry; one that is not there is ignored. -/
def handleUnsubscribe (bus : Bus σ) (id : ConsumerId) : Handled σ :=
  if bus.isRegistered id then
    let bus := { bus with registry := bus.registry.filter (·.id != id) }
    .next (((bus.cancelConsumer id).note (.unregistered id)).letGo id)
  else .next bus

def handle (bus : Bus σ) [Store σ] : Command → Handled σ
  | .publish batch => bus.handlePublish batch
  | .subscribe id query => bus.handleSubscribe id query
  | .unsubscribe id => bus.handleUnsubscribe id

/-- End the coordinator: every consumer is cancelled and what is in the queue is dropped. -/
def stop (bus : Bus σ) (result : Except BusError Unit) : Bus σ :=
  let consumers := bus.registry
  let bus := consumers.foldl (fun bus consumer => bus.cancelConsumer consumer.id) bus
  let bus := { bus with registry := [] }.letGoAll consumers
  { bus.note (.stopped result) with commands := [], coordinator := .stopped result }

/-- Take a command from the queue, of which so many are left. -/
def take (bus : Bus σ) [Store σ] (command : Command) (rest : List Command) : Handled σ :=
  ({ bus with commands := rest }.note (.took command)).handle command

/-- Take commands until there is none, one has to wait, or the coordinator ends. -/
def serve [Store σ] : List Command → Bus σ → Bus σ
  | [], bus =>
      if bus.canceled then bus.stop (.error .canceled)
      else if bus.senders = 0 then bus.stop (.ok ())
      else bus
  | command :: rest, bus =>
      if bus.canceled then bus.stop (.error .canceled)
      else
        match bus.take command rest with
        | .next bus => serve rest bus
        | .waits bus => bus
        | .failed error bus => bus.stop (.error error)

def resume [Store σ] : Handled σ → Bus σ
  | .next bus => serve bus.commands bus
  | .waits bus => bus
  | .failed error bus => bus.stop (.error error)

def reviewAcquire (bus : Bus σ) (job : Job) (deadline : Nat) : Handled σ :=
  match bus.pool.review () bus.canceled (deadline ≤ bus.now) with
  | (.waiting, _, _) => .waits bus
  | (acquired, pool, _) =>
      ({ bus with pool, coordinator := .receiving }.clearTimer deadline .coordinator).conclude
        job acquired

def begin (bus : Bus σ) : Bus σ :=
  { bus.note (.started bus.pool.size bus.settings.maxReplay bus.store?.isSome) with
    coordinator := .receiving }

def turnCoordinator (bus : Bus σ) [Store σ] : Bus σ :=
  match bus.coordinator with
  | .starting => serve bus.begin.commands bus.begin
  | .receiving => serve bus.commands bus
  | .acquiring job deadline => resume (bus.reviewAcquire job deadline)
  | _ => bus

end EventBus.Bus
