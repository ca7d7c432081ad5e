import EventBus.Proofs.Bus.Trace

/-!
A feed hands out what was put into it, in that order. Once the subscription is dropped
nothing more is put into the feed and nothing more is received.
-/

namespace EventBus.Bus

/-- What a subscription has received. -/
def received (id : ConsumerId) (trace : List Mark) : List (List Event) :=
  trace.filterMap fun
    | .received other batch => if other = id then some batch else none
    | _ => none

/-- What was put into the feed of a consumer. -/
def queued (id : ConsumerId) (trace : List Mark) : List (List Event) :=
  trace.filterMap fun
    | .noted (.queued other events _) => if other = id then some events else none
    | _ => none

/-- The batch that was put into the feed of the consumer, by the report. -/
def Notice.queued? (id : ConsumerId) : Notice → Option (List Event)
  | .queued other events _ => if other = id then some events else none
  | _ => none

/-- A feed, or that there is none yet, against what was put into it and what came out. -/
def FeedAgrees (shelf? : Option Shelf) (received queued : List (List Event)) (dropped : Prop) :
    Prop :=
  match shelf? with
  | none => received = [] ∧ queued = [] ∧ ¬dropped
  | some ⟨queue, false⟩ => received ++ queue = queued ∧ ¬dropped
  | some ⟨queue, true⟩ => queue = [] ∧ received <+: queued ∧ dropped

def FeedLaw (trace : List Mark) (o : Outline) : Prop :=
  ∀ id, FeedAgrees (o.shelf id) (received id trace) (queued id trace) (id ∈ gone trace)

variable {trace marks : List Mark} {o o' : Outline} {id : ConsumerId}

theorem received_append : received id (trace ++ marks) = received id trace ++ received id marks :=
  List.filterMap_append

theorem queued_append : queued id (trace ++ marks) = queued id trace ++ queued id marks :=
  List.filterMap_append

theorem received_eq_nil (h : ∀ mark ∈ marks, mark.isOfCall = false) : received id marks = [] := by
  refine filterMap_eq_nil_of_kind (fun mark hkind => ?_) h
  cases mark with
  | received _ _ => cases hkind
  | _ => rfl

theorem queued_eq_nil (h : ∀ mark ∈ marks, mark.isOfTask = false) : queued id marks = [] := by
  refine filterMap_eq_nil_of_kind (fun mark hkind => ?_) h
  cases mark with
  | noted notice =>
      cases notice with
      | queued _ _ _ => cases hkind
      | _ => rfl
  | _ => rfl

theorem queued_eq_reported :
    queued id trace = (reported trace).filterMap (·.queued? id) := by
  rw [queued, reported, List.filterMap_filterMap]
  refine List.filterMap_congr fun mark _ => ?_
  cases mark with
  | noted notice => cases notice <;> rfl
  | _ => rfl

theorem received_filter_isOfCall :
    received id (trace.filter Mark.isOfCall) = received id trace := by
  rw [received, received, List.filterMap_filter]
  refine List.filterMap_congr fun mark _ => ?_
  cases mark <;> rfl

theorem FeedLaw.prefix (law : FeedLaw trace o) (id : ConsumerId) :
    received id trace <+: queued id trace := by
  have hagrees := law id
  unfold FeedAgrees at hagrees
  split at hagrees
  · rw [hagrees.1]
    exact List.nil_prefix
  · exact ⟨_, hagrees.1⟩
  · exact hagrees.2.1

theorem FeedLaw.isGone_iff (law : FeedLaw trace o) (id : ConsumerId) :
    o.isGone id = true ↔ id ∈ gone trace := by
  have hagrees := law id
  unfold FeedAgrees at hagrees
  unfold Outline.isGone
  split at hagrees
  next h => simp [h, hagrees]
  next h => simp [h, hagrees]
  next h => simp [h, hagrees]

theorem FeedLaw.frame (law : FeedLaw trace o) (hreceived : ∀ id, received id marks = [])
    (hqueued : ∀ id, queued id marks = []) (hgone : gone marks = []) (hshelf : o'.shelf = o.shelf) :
    FeedLaw (trace ++ marks) o' := by
  intro id
  rw [received_append, hreceived, queued_append, hqueued, gone_append, hgone, List.append_nil,
    List.append_nil, List.append_nil, hshelf]
  exact law id

/-- Only the feed of one consumer changes. -/
theorem FeedLaw.update {shelf : Shelf} (law : FeedLaw trace o)
    (hothers : ∀ other, other ≠ id →
      received other marks = [] ∧ queued other marks = [] ∧ other ∉ gone marks)
    (hshelf : o'.shelf = Function.update o.shelf id (some shelf))
    (h : FeedAgrees (some shelf) (received id (trace ++ marks)) (queued id (trace ++ marks))
      (id ∈ gone (trace ++ marks))) : FeedLaw (trace ++ marks) o' := by
  intro other
  rw [hshelf]
  by_cases hother : other = id
  · subst hother
    rwa [Function.update_self]
  · obtain ⟨hreceived, hqueued, hgone⟩ := hothers other hother
    have hmem : other ∈ gone (trace ++ marks) ↔ other ∈ gone trace := by
      simp [gone_append, hgone]
    rw [Function.update_of_ne hother, received_append, hreceived, queued_append, hqueued, hmem,
      List.append_nil, List.append_nil]
    exact law other

theorem FeedLaw.looked {origin : Origin} {selected : List Event} {leg leg' : Leg}
    (law : FeedLaw trace o) (hlook : Looked id origin selected leg o marks leg' o') :
    FeedLaw (trace ++ marks) o' := by
  cases hlook with
  | without _ => exact law.frame (fun _ => rfl) (fun _ => rfl) rfl rfl
  | @put events queue _ hshelf =>
      have hagrees := law id
      rw [hshelf] at hagrees
      refine law.update ?_ rfl ?_
      · intro other hother
        exact ⟨rfl, by simp [queued, hother.symm], List.not_mem_nil⟩
      · have hqueued : queued id [.noted (.queued id events origin)] = [events] := by
          simp [queued]
        have hreceived : received id [.noted (.queued id events origin)] = [] := rfl
        have hgone : gone [.noted (.queued id events origin)] = [] := rfl
        rw [received_append, hreceived, queued_append, hqueued, gone_append, hgone,
          List.append_nil, List.append_nil, ← hagrees.1]
        exact ⟨(List.append_assoc _ _ _).symm, hagrees.2⟩

theorem FeedLaw.enter {before after : List Call} {call : Call} (law : FeedLaw trace o)
    (fresh : o.Fresh) (h : o.calls = before ++ call :: after) :
    FeedLaw (trace ++ [.sent call.command]) (o.enter call (before ++ after)) := by
  cases hnumber : call.number? with
  | none =>
      apply law.frame (fun _ => rfl) (fun _ => rfl) rfl
      funext id
      rw [Outline.enter_shelf, hnumber, if_neg (by simp)]
  | some id =>
      have hnone : o.shelf id = none := by
        apply fresh.unopened
        exact List.mem_filterMap.mpr ⟨call, by simp [h], hnumber⟩
      have hshelf : (o.enter call (before ++ after)).shelf
          = Function.update o.shelf id (some ⟨[], false⟩) := by
        funext other
        rw [Outline.enter_shelf, hnumber, Function.update_apply]
        simp [eq_comm]
      have hagrees := law id
      rw [hnone] at hagrees
      obtain ⟨hreceived, hqueued, hgone⟩ := hagrees
      refine law.update (fun _ _ => ⟨rfl, rfl, List.not_mem_nil⟩) hshelf ?_
      rw [received_append, queued_append, gone_append, hreceived, hqueued]
      exact ⟨rfl, by simpa [gone] using hgone⟩

theorem FeedLaw.receive {batch : List Event} {queue : List (List Event)} {closed : Bool}
    (law : FeedLaw trace o) (h : o.shelf id = some ⟨batch :: queue, closed⟩) :
    FeedLaw (trace ++ [.received id batch]) (o.setShelf id ⟨queue, closed⟩) := by
  have hagrees := law id
  rw [h] at hagrees
  cases closed with
  | true => exact absurd hagrees.1 (List.cons_ne_nil _ _)
  | false =>
      have hreceived : received id [.received id batch] = [batch] := by simp [received]
      have hqueued : queued id [.received id batch] = [] := rfl
      have hgone : gone [.received id batch] = [] := rfl
      refine law.update ?_ rfl ?_
      · intro other hother
        exact ⟨by simp [received, hother.symm], rfl, List.not_mem_nil⟩
      · rw [received_append, hreceived, queued_append, hqueued, gone_append, hgone,
          List.append_nil, List.append_nil, ← hagrees.1]
        exact ⟨List.append_assoc _ _ _, hagrees.2⟩

theorem FeedLaw.close {queue : List (List Event)} (law : FeedLaw trace o)
    (h : o.shelf id = some ⟨queue, false⟩) :
    FeedLaw (trace ++ [.gone id]) (o.setShelf id ⟨[], true⟩) := by
  have hagrees := law id
  rw [h] at hagrees
  have hreceived : received id [.gone id] = [] := rfl
  have hqueued : queued id [.gone id] = [] := rfl
  have hgone : gone [.gone id] = [id] := rfl
  refine law.update ?_ rfl ?_
  · intro other hother
    exact ⟨rfl, rfl, by rwa [hgone, List.mem_singleton]⟩
  · rw [received_append, hreceived, queued_append, hqueued, gone_append, hgone, List.append_nil,
      List.append_nil, ← hagrees.1]
    exact ⟨rfl, List.prefix_append _ _, by simp⟩

theorem FeedLaw.work (law : FeedLaw trace o) (move : TaskMove o marks o') :
    FeedLaw (trace ++ marks) o' := by
  have htask : ∀ {marks}, (∀ mark ∈ marks, mark.isOfTask = true) →
      (∀ id, received id marks = []) ∧ gone marks = [] := by
    intro marks hkind
    have hcall := fun mark hmark => Mark.not_ofCall_of_ofTask (hkind mark hmark)
    exact ⟨fun id => received_eq_nil hcall, gone_eq_nil hcall⟩
  cases move with
  | @deliver task publish batch seen consumer leg legs marks leg' o' h hlook =>
      obtain ⟨hreceived, hgone⟩ := htask (kind_attempt publish consumer.id leg)
      have hqueued : ∀ id, queued id (attempt publish consumer.id leg) = [] := by
        intro id
        cases leg <;> rfl
      have hattempted : FeedLaw (trace ++ attempt publish consumer.id leg) o :=
        law.frame hreceived hqueued hgone rfl
      have hlooked : FeedLaw (trace ++ attempt publish consumer.id leg ++ marks) o' :=
        hattempted.looked hlook
      rw [← List.append_assoc]
      exact hlooked
  | @read task consumer stream h =>
      obtain ⟨hreceived, hgone⟩ := htask (kind_yielded consumer.id stream.batches)
      exact law.frame hreceived (fun id => by simp [queued]) hgone rfl
  | @grow task consumer phase stream batches ends h hstream =>
      obtain ⟨hreceived, hgone⟩ := htask (kind_yielded consumer.id batches)
      exact law.frame hreceived (fun id => by simp [queued]) hgone rfl
  | @send _ _ _ _ _ _ _ _ o' _ h hsend hlook hnext =>
      have hlooked : FeedLaw (trace ++ marks) o' := law.looked hlook
      exact hlooked
  | finish h hend => exact law.frame (fun _ => rfl) (fun _ => rfl) rfl rfl

theorem FeedLaw.move (law : FeedLaw trace o) (fresh : o.Fresh) (move : Move o marks o') :
    FeedLaw (trace ++ marks) o' := by
  cases move with
  | report h =>
      have hkind := kind_report h
      exact law.frame (fun id => received_eq_nil fun mark hmark => (hkind mark hmark).1)
        (fun id => queued_eq_nil fun mark hmark => (hkind mark hmark).2)
        (gone_eq_nil fun mark hmark => (hkind mark hmark).1) rfl
  | call move =>
      cases move with
      | enter h hopen => exact law.enter fresh h
      | receive h => exact law.receive h
      | close h => exact law.close h
      | _ => exact law.frame (fun _ => rfl) (fun _ => rfl) rfl rfl
  | coordinate move =>
      have hkind := move.frame.kind
      exact law.frame (fun id => received_eq_nil fun mark hmark => (hkind mark hmark).1)
        (fun id => queued_eq_nil fun mark hmark => (hkind mark hmark).2)
        (gone_eq_nil fun mark hmark => (hkind mark hmark).1) move.frame.shelf
  | work move => exact law.work move

end EventBus.Bus
