import EventBus.Proofs.Bus.Scheduler

/-!
Whatever is done to a bus from outside, in whatever order, is a run of it: calls, turns and the
passing of time go through steps only. The trace of such a run tells of calls what they were
answered: a command is recorded as sent where the call returned without an error.
-/

namespace EventBus.Bus

variable {σ : Type} {bus bus' : Bus σ}

section Calls

variable {canceled : Bool}

/-- What is seen of a call that sends a command: the command, where the call returned without an
error. -/
def Sent.marks (command : Command) : Sent → List Mark
  | .ok => [.sent command]
  | _ => []

theorem not_gone_of_admission (h : bus.admission canceled = .ok) :
    bus.coordinator.isGone = false := by
  unfold admission at h
  split at h
  · cases h
  · split at h
    · cases h
    next hgone => exact Bool.eq_false_iff.mpr hgone

theorem task_send (command : Command) :
    ((bus.send canceled command).2.outline []).task = (bus.outline []).task := by
  unfold send
  split
  · rw [outline_enqueue]
  · rfl

theorem isSubscribed_send (bus : Bus σ) (command : Command) (id : ConsumerId) :
    (bus.send canceled command).2.isSubscribed id = bus.isSubscribed id := by
  unfold send
  split
  · unfold enqueue wakeReceiver
    split
    · rw [wake_eq]
      rfl
    · rfl
  · rfl

variable [Store σ] {allowed : (σ → σ) → Prop}

/-- The last call under way enters the queue. -/
theorem enter_last {calls : List Call} (call : Call) (h : bus.coordinator.isGone = false) :
    Step ⟨bus, calls ++ [call]⟩ [.sent call.command] ⟨bus.enter call, calls⟩ := by
  simpa using @Step.enter σ _ bus calls call [] h

theorem giveUp_last {calls : List Call} (call : Call) :
    Step ⟨bus, calls ++ [call]⟩ [] ⟨bus, calls⟩ := by
  simpa using @Step.giveUp σ _ bus calls call []

theorem storeCall_enter (call : Call) : StoreCall bus (bus.enter call) [.sent call.command] :=
  .nothing rfl (fun _ => rfl) (congrArg Agenda.store? (agenda_enter call))

/-- A call that has been made is through when its command is in the queue. -/
theorem leads_of_entered {marks : List Mark} (call : Call) (h : bus'.coordinator.isGone = false)
    (hcall : ∀ calls, StoredSteps allowed ⟨bus, calls⟩ marks ⟨bus', calls ++ [call]⟩) :
    Leads allowed (marks.filter Mark.isOfCall ++ [.sent call.command]) bus (bus'.enter call) := by
  refine fun calls => ⟨_, (hcall calls).own (enter_last call h) (storeCall_enter call), ?_⟩
  rw [List.filter_append, List.filter_append, filter_isOfCall_news, List.append_nil]
  rfl

theorem leads_of_givenUp {marks : List Mark} (call : Call)
    (hcall : ∀ calls, StoredSteps allowed ⟨bus, calls⟩ marks ⟨bus', calls ++ [call]⟩) :
    Leads allowed (marks.filter Mark.isOfCall) bus bus' := by
  refine fun calls => ⟨_, (hcall calls).own (giveUp_last call) (.nothing rfl (fun _ => rfl) rfl), ?_⟩
  rw [List.filter_append, List.append_nil, filter_isOfCall_news, List.append_nil]

theorem made_call (bus : Bus σ) (call : Call) (h : call.number? = none) (calls : List Call) :
    StoredSteps allowed ⟨bus, calls⟩ ([] ++ [] ++ news bus bus) ⟨bus, calls ++ [call]⟩ :=
  (StoredSteps.refl _).own (.call call h) (.nothing rfl (fun _ => rfl) rfl)

/-- A call that is made enters the queue at once, and returns without an error, or is given up. -/
theorem send_reaches (bus : Bus σ) (canceled : Bool) (call : Call) (h : call.number? = none) :
    Reaches allowed ((bus.send canceled call.command).1.marks call.command) bus
      (bus.send canceled call.command).2 := by
  refine ⟨?_, fun _ rests => rests.of_task_eq (task_send call.command)⟩
  have hnone : ([] ++ [] ++ news bus bus).filter Mark.isOfCall = [] := filter_isOfCall_news bus bus
  have hgivenUp : Leads allowed _ bus bus := leads_of_givenUp call (made_call bus call h)
  rw [hnone] at hgivenUp
  unfold send
  cases hadmitted : bus.admission canceled with
  | ok =>
      have hentered : bus.enter call = bus.enqueue call.command := by
        cases call with
        | subscribe _ _ _ => cases h
        | _ => rfl
      have henter : Leads allowed _ bus (bus.enter call) :=
        leads_of_entered call (not_gone_of_admission hadmitted) (made_call bus call h)
      rwa [hentered, hnone] at henter
  | full => exact hgivenUp
  | failed error => exact hgivenUp

theorem subscribe_reaches (bus : Bus σ) (canceled : Bool) (query : Query) (places : Nat) :
    Reaches allowed
      (.numbered bus.nextId ::
        (bus.subscribe canceled query places).1.marks (.subscribe bus.nextId query))
      bus (bus.subscribe canceled query places).2.2 := by
  let numbered : Bus σ := { bus with nextId := bus.nextId + 1 }
  let call : Call := .subscribe bus.nextId query places
  let marks : List Mark := [] ++ [.numbered bus.nextId] ++ news bus numbered
  have hcall : ∀ calls, StoredSteps allowed ⟨bus, calls⟩ marks ⟨numbered, calls ++ [call]⟩ :=
    fun _ => (StoredSteps.refl _).own (.subscribe query places) (.nothing rfl (fun _ => rfl) rfl)
  have hseen : marks.filter Mark.isOfCall = [.numbered bus.nextId] := by
    rw [List.filter_append, filter_isOfCall_news, List.append_nil]
    rfl
  have hgivenUp : Reaches allowed [.numbered bus.nextId] bus numbered :=
    ⟨hseen ▸ leads_of_givenUp call hcall, fun _ rests => rests.of_task_eq rfl⟩
  unfold subscribe send
  dsimp only
  cases hadmitted : numbered.admission canceled with
  | ok =>
      have henter : Leads allowed _ bus (numbered.enter call) :=
        leads_of_entered call (not_gone_of_admission hadmitted) hcall
      have htask : ((numbered.enqueue call.command).outline []).task = (bus.outline []).task := by
        rw [outline_enqueue]
        rfl
      rw [hseen] at henter
      exact ⟨henter, fun _ rests => rests.of_task_eq htask⟩
  | full => exact hgivenUp
  | failed error => exact hgivenUp

theorem close_reaches {id : ConsumerId} (h : bus.isSubscribed id = true) :
    Reaches allowed [.gone id] bus (bus.closeFeed id) :=
  .quiet (fun _ => .close h)
    (.nothing rfl (fun _ => rfl) (congrArg Agenda.store? (agenda_closeFeed id))) (by simp)

/-- What is seen of a subscription that is dropped: its end, after the command to unsubscribe if
there was room for it. -/
def seenOfDrop (bus : Bus σ) (id : ConsumerId) : List Mark :=
  if bus.isSubscribed id then
    (bus.send false (.unsubscribe id)).1.marks (.unsubscribe id) ++ [.gone id]
  else []

theorem dropSubscription_reaches (bus : Bus σ) (id : ConsumerId) :
    Reaches allowed (bus.seenOfDrop id) bus (bus.dropSubscription id) := by
  unfold dropSubscription seenOfDrop
  split
  next hsubscribed =>
    refine (send_reaches bus false (.unsubscribe id) rfl).trans (close_reaches ?_)
    rw [isSubscribed_send]
    exact hsubscribed
  next => exact .refl bus

def Received.marks (id : ConsumerId) : Received → List Mark
  | .batch events => [.received id events]
  | _ => []

theorem receive_reaches (bus : Bus σ) (id : ConsumerId) :
    Reaches allowed ((bus.receive id).1.marks id) bus (bus.receive id).2 := by
  cases hreceived : (bus.receive id).1 with
  | batch batch =>
      have hsame : (bus.receive id).2.store? = bus.store? :=
        congrArg Agenda.store? (agenda_receive id)
      exact .quiet (fun _ => .receive (Prod.ext hreceived rfl))
        (.nothing rfl (fun _ => rfl) hsame) (by simp)
  | _ =>
      refine .of_eq ?_
      unfold receive at hreceived ⊢
      split at hreceived
      · rfl
      · split at hreceived
        · cases hreceived
        · rfl

end Calls

section Inputs

/-- What can be done to a bus from outside, the turns of its parties included. -/
inductive Input (σ : Type) where
  | publish (canceled : Bool) (batch : List Event)
  | subscribe (canceled : Bool) (query : Query) (places : Nat)
  | unsubscribe (canceled : Bool) (id : ConsumerId)
  | dropSubscription (id : ConsumerId)
  | receive (id : ConsumerId)
  | addHandle
  | dropHandle
  | start
  | dropCoordinator
  | cancel
  | mapStore (f : σ → σ)
  | remark (line : String)
  | turn (actor : Actor)
  /-- Whoever is first in line takes a turn. -/
  | next
  | settle
  | pass (span : Nat)

variable [Store σ] {allowed : (σ → σ) → Prop}

def perform (bus : Bus σ) : Input σ → Bus σ
  | .publish canceled batch => (bus.publish canceled batch).2
  | .subscribe canceled query places => (bus.subscribe canceled query places).2.2
  | .unsubscribe canceled id => (bus.unsubscribe canceled id).2
  | .dropSubscription id => bus.dropSubscription id
  | .receive id => (bus.receive id).2
  | .addHandle => bus.addHandle
  | .dropHandle => bus.dropHandle
  | .start => bus.start
  | .dropCoordinator => bus.dropCoordinator
  | .cancel => bus.cancel
  | .mapStore f => bus.mapStore f
  | .remark line => bus.note (.remark line)
  | .turn actor => bus.turn actor
  | .next => bus.step?.getD bus
  | .settle => bus.settle
  | .pass span => bus.pass span

/-- What the outside sees of what it does, by the answers that it gets. -/
def seen (bus : Bus σ) : Input σ → List Mark
  | .publish canceled batch => (bus.publish canceled batch).1.marks (.publish batch)
  | .subscribe canceled query places =>
      .numbered bus.nextId ::
        (bus.subscribe canceled query places).1.marks (.subscribe bus.nextId query)
  | .unsubscribe canceled id => (bus.unsubscribe canceled id).1.marks (.unsubscribe id)
  | .dropSubscription id => bus.seenOfDrop id
  | .receive id => (bus.receive id).1.marks id
  | _ => []

def seenOfAll (bus : Bus σ) : List (Input σ) → List Mark
  | [] => []
  | input :: inputs => bus.seen input ++ (bus.perform input).seenOfAll inputs

theorem dropHandle_reaches (bus : Bus σ) : Reaches allowed [] bus bus.dropHandle :=
  .step (fun _ => .dropHandle) (congrArg Agenda.store? agenda_dropHandle)

theorem start_reaches (bus : Bus σ) : Reaches allowed [] bus bus.start := by
  refine .step (fun _ => .start) ?_
  unfold start
  split
  · exact congrArg Agenda.store? (agenda_wake _)
  · rfl

theorem dropCoordinator_reaches (bus : Bus σ) : Reaches allowed [] bus bus.dropCoordinator := by
  refine .step (fun _ => .dropCoordinator) ?_
  unfold dropCoordinator
  split <;> rfl

theorem next_reaches (bus : Bus σ) : Reaches allowed [] bus (bus.step?.getD bus) := by
  cases h : bus.step? with
  | none => exact .refl bus
  | some bus' => exact step?_reaches h

theorem perform_reaches (bus : Bus σ) (input : Input σ)
    (h : ∀ f, input = .mapStore f → allowed f) :
    Reaches allowed (bus.seen input) bus (bus.perform input) := by
  cases input with
  | publish canceled batch => exact send_reaches bus canceled (.publish batch) rfl
  | subscribe canceled query places => exact subscribe_reaches bus canceled query places
  | unsubscribe canceled id => exact send_reaches bus canceled (.unsubscribe id) rfl
  | dropSubscription id => exact dropSubscription_reaches bus id
  | receive id => exact receive_reaches bus id
  | addHandle => exact .step (fun _ => .addHandle) rfl
  | dropHandle => exact dropHandle_reaches bus
  | start => exact start_reaches bus
  | dropCoordinator => exact dropCoordinator_reaches bus
  | cancel => exact .step (fun _ => .cancel) (congrArg Agenda.store? agenda_cancel)
  | mapStore f => exact ⟨.others (h f rfl), fun _ rests => rests.of_task_eq rfl⟩
  | remark line => exact .step (fun _ => .remark line) rfl
  | turn actor => exact turn_reaches bus actor
  | next => exact next_reaches bus
  | settle => exact settle_reaches bus
  | pass span => exact pass_reaches bus span

theorem foldl_perform_reaches (inputs : List (Input σ)) (bus : Bus σ)
    (h : ∀ f, .mapStore f ∈ inputs → allowed f) :
    Reaches allowed (bus.seenOfAll inputs) bus (inputs.foldl perform bus) := by
  induction inputs generalizing bus with
  | nil => exact .refl bus
  | cons input inputs ih =>
      refine (perform_reaches bus input fun f hf => h f ?_).trans
        (ih _ fun f hf => h f (List.mem_cons_of_mem _ hf))
      exact hf ▸ List.mem_cons_self

/-- Whatever is done to a new bus is a run of it. Of the calls the run has what they were answered,
and of the store the writes and reads of the bus itself. No fan-out is left half looked at: a
publish whose fan-out has begun has tried all its targets. -/
theorem exists_run_of_inputs (settings : Settings) (store? : Option σ) (inputs : List (Input σ))
    (h : ∀ f, .mapStore f ∈ inputs → allowed f) :
    ∃ trace,
      StoredSteps allowed ⟨create settings store?, []⟩ trace
        ⟨inputs.foldl perform (create settings store?), []⟩ ∧
      trace.filter Mark.isOfCall = (create settings store?).seenOfAll inputs ∧
      ∀ publish,
        ((inputs.foldl perform (create settings store?)).outline []).BetweenTurns publish := by
  have hreaches := foldl_perform_reaches inputs (create settings store?) h
  obtain ⟨trace, stored, hseen⟩ := hreaches.leads []
  refine ⟨trace, stored, hseen, hreaches.rests (create_fresh settings store?) ?_⟩
  intro publish task batch legs hlegs
  cases hlegs

end Inputs

end EventBus.Bus
