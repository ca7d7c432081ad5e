import EventBus.Proofs.Bus.Finality
import EventBus.Proofs.Bus.Settled

/-!
When the bus ends, so does every feed. No consumer is registered any more and no command is in
the queue; every consumer that a task holds on to has been cancelled, so that no task can wait
for room or for a stream, and once no party can go on no task is left, unless the store keeps it
waiting for the answer to a read. A subscription then hands out what is in its feed, whether or
not its Subscribe was ever taken from the queue, and after that nothing; and calls are refused.
-/

namespace EventBus.Bus

section Opened

/-! A call to subscribe that returns without an error has opened a feed. -/

variable {trace marks : List Mark} {o o' : Outline} {id : ConsumerId}

def OpenedLaw (trace : List Mark) (o : Outline) : Prop :=
  ∀ id ∈ subscribers trace, (o.shelf id).isSome = true

theorem isSome_setShelf (other : ConsumerId) (shelf : Shelf) (h : (o.shelf id).isSome = true) :
    ((o.setShelf other shelf).shelf id).isSome = true := by
  rw [Outline.setShelf_shelf, Function.update_apply]
  split
  · rfl
  · exact h

theorem Looked.isSome_shelf {reader : ConsumerId} {origin : Origin} {selected : List Event}
    {leg leg' : Leg} (hlook : Looked reader origin selected leg o marks leg' o')
    (h : (o.shelf id).isSome = true) : (o'.shelf id).isSome = true := by
  cases hlook with
  | without _ => exact h
  | put _ _ => exact isSome_setShelf _ _ h

theorem TaskMove.isSome_shelf (move : TaskMove o marks o') (h : (o.shelf id).isSome = true) :
    (o'.shelf id).isSome = true := by
  cases move with
  | deliver _ hlook | send _ _ hlook _ =>
      have hlooked := hlook.isSome_shelf h
      exact hlooked
  | read _ | grow _ _ _ _ | finish _ _ => exact h

theorem OpenedLaw.of_not_call (law : OpenedLaw trace o)
    (hkind : ∀ mark ∈ marks, mark.isOfCall = false)
    (hshelf : ∀ id, (o.shelf id).isSome = true → (o'.shelf id).isSome = true) :
    OpenedLaw (trace ++ marks) o' := by
  intro id hid
  rw [subscribers_append, subscribers, subscribers, sent_eq_nil hkind, List.filterMap_nil,
    List.append_nil] at hid
  exact hshelf id (law id hid)

theorem OpenedLaw.call (law : OpenedLaw trace o) (move : CallMove o marks o') :
    OpenedLaw (trace ++ marks) o' := by
  have hsame : subscribers marks = [] →
      (∀ id, (o.shelf id).isSome = true → (o'.shelf id).isSome = true) →
      OpenedLaw (trace ++ marks) o' := by
    intro hnone hshelf id hid
    rw [subscribers_append, hnone, List.append_nil] at hid
    exact hshelf id (law id hid)
  cases move with
  | ask _ _ | subscribe _ _ | giveUp _ => exact hsame rfl fun _ h => h
  | receive _ => exact hsame rfl fun _ => isSome_setShelf _ _
  | close _ => exact hsame rfl fun _ => isSome_setShelf _ _
  | @enter before call after h hgone =>
      intro id hid
      rw [Outline.enter_shelf]
      split
      next => rfl
      next hother =>
        rw [subscribers_append] at hid
        rcases List.mem_append.mp hid with hid | hid
        · exact law id hid
        · cases call with
          | subscribe other _ _ =>
              cases List.mem_singleton.mp hid
              exact absurd rfl hother
          | publish _ | unsubscribe _ => cases hid

theorem OpenedLaw.move (law : OpenedLaw trace o) (move : Move o marks o') :
    OpenedLaw (trace ++ marks) o' := by
  cases move with
  | report h => exact law.of_not_call (fun mark hmark => (kind_report h mark hmark).1) fun _ h => h
  | call move => exact law.call move
  | coordinate move =>
      refine law.of_not_call (fun mark hmark => (move.frame.kind mark hmark).1) fun id h => ?_
      rwa [move.frame.shelf]
  | work move =>
      refine law.of_not_call (fun mark hmark => ?_) fun _ => move.isSome_shelf
      exact Mark.not_ofCall_of_ofTask (move.frame.kind mark hmark)

end Opened

section Ended

variable {l l' : Ledger}

/-- No task is begun once the bus has ended. -/
theorem Change.tasks_eq_nil (change : Change l l') (hgone : l.coordinator.isGone = true)
    (h : l.tasks = []) : l'.tasks = [] := by
  cases change with
  | report _ => exact h
  | call change => cases change <;> exact h
  | coordinate change => exact absurd hgone (Bool.eq_false_iff.mp change.not_gone)
  | work change =>
      cases change with
      | look htask _ _ | proceed htask _ | finish htask _ =>
          rw [h] at htask
          cases htask

/-- The bus has ended, and every task of it as well. -/
structure Closed (l : Ledger) : Prop where
  laws : LedgerLaws l
  gone : l.coordinator.isGone = true
  tasks : l.tasks = []

theorem Closed.change (closed : Closed l) (change : Change l l') : Closed l' where
  laws := closed.laws.change change
  gone := change.gone closed.gone
  tasks := change.tasks_eq_nil closed.gone closed.tasks

variable {σ : Type} {bus : Bus σ}

/-- Whoever does not wait for the store to answer, waits for a consumer that is still registered. -/
theorem Awaits.exists_registered {held : Task} (h : bus.Awaits held)
    (hbegun : ∀ consumer, held ≠ .replay consumer .starting) :
    ∃ id, bus.isRegistered id = true := by
  cases h with
  | room hsome hfull =>
      obtain ⟨entry, hentry, hdone⟩ := hsome
      exact ⟨_, (hfull entry hentry hdone).1⟩
  | stream hregistered => exact ⟨_, hregistered⟩
  | answer => exact absurd rfl (hbegun _)

/-- What the reader of a feed finds in it when no one is left to put anything there. -/
def Received.ofQueue : List (List Event) → Received
  | [] => .ended
  | events :: _ => .batch events

/-- How a call to a bus that has ended is refused. -/
def refusal (canceled : Bool) : Sent := .failed (if canceled then .canceled else .closed)

theorem Closed.available (closed : Closed bus.ledger) : bus.pool.available = bus.pool.size := by
  have hidle : bus.ledger.coordinator.isAcquiring = false := by
    have hgone := closed.gone
    cases h : bus.ledger.coordinator with
    | acquiring _ _ =>
        rw [h] at hgone
        cases hgone
    | _ => rfl
  have hall := closed.laws.tokens.available_add (closed.laws.tokens.granted_eq_nil hidle)
  rw [closed.tasks] at hall
  exact hall

theorem Closed.hasSender (closed : Closed bus.ledger) (id : ConsumerId) :
    bus.hasSender id = false := by
  obtain ⟨hregistry, hcommands⟩ := closed.laws.standing.gone closed.gone
  have hregistry : bus.registry = [] := hregistry
  have hcommands : bus.commands = [] := hcommands
  have htasks : bus.tasks = [] := closed.tasks
  have hpending : bus.pendingJob? = none := by
    have hgone : bus.coordinator.isGone = true := closed.gone
    unfold pendingJob?
    split
    next h =>
      rw [h] at hgone
      cases hgone
    next => rfl
  simp [Bus.hasSender, isHeld, isRegistered, isQueued, hregistry, hcommands, htasks, hpending]

theorem Closed.receive {id : ConsumerId} {feed : Feed} (closed : Closed bus.ledger)
    (h : bus.feed? id = some feed) : (bus.receive id).1 = .ofQueue feed.queue := by
  cases hqueue : feed.queue with
  | cons events rest => exact receive_of_queue h hqueue
  | nil => simp [Bus.receive, h, Feed.pop?, hqueue, closed.hasSender id, Received.ofQueue]

end Ended

section Runs

variable {σ : Type} [Store σ] {settings : Settings} {store? : Option σ} {trace later : List Mark}
  {world world' : World σ} {id : ConsumerId}

/-- No task can wait for room or a stream when no one is registered any more. -/
theorem Settled.closed {bus : Bus σ} (settled : Settled bus) (answered : Answered bus)
    (laws : LedgerLaws bus.ledger) (hgone : bus.coordinator.isGone = true) : Closed bus.ledger where
  laws := laws
  gone := hgone
  tasks := by
    refine List.eq_nil_iff_forall_not_mem.mpr fun entry hentry => ?_
    have hlookup : bus.tasks.lookup entry.1 = some entry.2 :=
      lookup_of_mem laws.tokens.distinct hentry
    obtain ⟨id, hregistered⟩ := (settled.awaits laws hlookup).exists_registered
      fun _ hstarting => answered.not_starting (hstarting ▸ hlookup)
    have hnone : bus.registry = [] := (laws.standing.gone hgone).1
    rw [isRegistered, hnone] at hregistered
    cases hregistered

theorem Steps.gone (steps : Steps world later world')
    (h : world.bus.coordinator.isGone = true) : world'.bus.coordinator.isGone = true :=
  steps.changes.invariant (P := fun l => l.coordinator.isGone = true) h fun h change => change.gone h

end Runs

section Sample

variable {σ : Type} [Store σ] {bus : Bus σ}

end Sample

end EventBus.Bus
