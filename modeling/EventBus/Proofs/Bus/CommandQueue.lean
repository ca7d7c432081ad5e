import EventBus.Proofs.Bus.Trace

/-!
Commands leave the queue in the order in which they entered it, none is lost or doubled, and
every publish that is taken is written first; the first failing write is the last one.
-/

namespace EventBus.Bus

/-- All writes so far have succeeded, or the last one has failed and ended the bus. -/
inductive WritesLaw (coordinator : Coordinator) :
    List (List Event × Except StoreError Unit) → Prop where
  | allOk {written} (h : ∀ write ∈ written, write.2 = .ok ()) : WritesLaw coordinator written
  | lastFailed {written batch error} (h : ∀ write ∈ written, write.2 = .ok ())
      (hstopped : coordinator = .stopped (.error (.ofStore error))) :
      WritesLaw coordinator (written ++ [(batch, .error error)])

structure QueueLaw (trace : List Mark) (o : Outline) : Prop where
  in_order : taken trace <+: sent trace
  queued : o.coordinator.isGone = false → taken trace ++ o.commands = sent trace
  run_out : o.coordinator = .stopped (.ok ()) → taken trace = sent trace
  counted : o.publishes = ((taken trace).filterMap Command.batch?).length
  written : o.stored = true → (writes trace).map (·.1) = (taken trace).filterMap Command.batch?
  answers : WritesLaw o.coordinator (writes trace)

variable {trace marks : List Mark} {o o' : Outline}

theorem WritesLaw.allOk_of_not_gone {coordinator : Coordinator}
    {written : List (List Event × Except StoreError Unit)} (law : WritesLaw coordinator written)
    (h : coordinator.isGone = false) : ∀ write ∈ written, write.2 = .ok () := by
  cases law with
  | allOk hok => exact hok
  | lastFailed _ hstopped => simp [hstopped, Coordinator.isGone] at h

/-- A move that touches no command, no write and not the state of the coordinator, unless
that goes on working. -/
structure LeavesQueue (marks : List Mark) (o o' : Outline) : Prop where
  sent : sent marks = []
  taken : taken marks = []
  writes : writes marks = []
  commands : o'.commands = o.commands
  publishes : o'.publishes = o.publishes
  stored : o'.stored = o.stored
  coordinator : o'.coordinator = o.coordinator ∨
    o.coordinator.isGone = false ∧ o'.coordinator.isGone = false

theorem QueueLaw.frame (law : QueueLaw trace o) (leaves : LeavesQueue marks o o') :
    QueueLaw (trace ++ marks) o' := by
  have hsent : Bus.sent (trace ++ marks) = Bus.sent trace := by
    rw [sent_append, leaves.sent, List.append_nil]
  have htaken : Bus.taken (trace ++ marks) = Bus.taken trace := by
    rw [taken_append, leaves.taken, List.append_nil]
  have hwrites : Bus.writes (trace ++ marks) = Bus.writes trace := by
    rw [writes_append, leaves.writes, List.append_nil]
  refine ⟨?_, ?_, ?_, ?_, ?_, ?_⟩
  · rw [htaken, hsent]
    exact law.in_order
  · intro hgone
    have hbefore : o.coordinator.isGone = false := by
      rcases leaves.coordinator with h | h
      · rwa [← h]
      · exact h.1
    rw [htaken, hsent, leaves.commands]
    exact law.queued hbefore
  · intro hstopped
    rcases leaves.coordinator with h | ⟨-, h⟩
    · rw [htaken, hsent]
      exact law.run_out (h ▸ hstopped)
    · simp [hstopped, Coordinator.isGone] at h
  · rw [htaken, leaves.publishes]
    exact law.counted
  · rw [htaken, hwrites, leaves.stored]
    exact law.written
  · rw [hwrites]
    rcases leaves.coordinator with h | ⟨h, -⟩
    · rw [h]
      exact law.answers
    · exact .allOk (law.answers.allOk_of_not_gone h)

/-- A move that takes the next command, whose write does not fail. -/
structure TakesCommand (command : Command) (rest : List Command) (marks : List Mark)
    (o o' : Outline) : Prop where
  before : o.coordinator.isGone = false
  next : o.commands = command :: rest
  sent : sent marks = []
  taken : taken marks = [command]
  commands : o'.commands = rest
  after : o'.coordinator.isGone = false
  publishes : o'.publishes = o.publishes + command.batch?.toList.length
  stored : o'.stored = o.stored
  writes : writes marks = if o.stored then command.batch?.toList.map (·, .ok ()) else []

theorem QueueLaw.taken_eq {command : Command} {rest : List Command} (law : QueueLaw trace o)
    (hopen : o.coordinator.isGone = false) (hnext : o.commands = command :: rest)
    (hsent : sent marks = []) (htaken : taken marks = [command]) :
    taken (trace ++ marks) ++ rest = sent (trace ++ marks) := by
  rw [taken_append, sent_append, hsent, htaken, List.append_nil, ← law.queued hopen, hnext,
    List.append_assoc, List.singleton_append]

theorem QueueLaw.take {command : Command} {rest : List Command} (law : QueueLaw trace o)
    (takes : TakesCommand command rest marks o o') : QueueLaw (trace ++ marks) o' := by
  have hqueue := law.taken_eq takes.before takes.next takes.sent takes.taken
  have hbatches : (Bus.taken (trace ++ marks)).filterMap Command.batch?
      = (Bus.taken trace).filterMap Command.batch? ++ command.batch?.toList := by
    rw [taken_append, takes.taken, List.filterMap_append]
    cases command <;> rfl
  refine ⟨⟨rest, hqueue⟩, ?_, ?_, ?_, ?_, .allOk ?_⟩
  · intro _
    rw [takes.commands]
    exact hqueue
  · intro hstopped
    have hafter := takes.after
    simp [hstopped, Coordinator.isGone] at hafter
  · rw [hbatches, List.length_append, ← law.counted, takes.publishes]
  · intro hstored
    rw [takes.stored] at hstored
    rw [hbatches, writes_append, takes.writes, if_pos hstored, List.map_append,
      law.written hstored, List.map_map]
    simp [Function.comp_def]
  · have hok := law.answers.allOk_of_not_gone takes.before
    rw [writes_append, takes.writes]
    intro write hwrite
    rcases List.mem_append.mp hwrite with hwrite | hwrite
    · exact hok write hwrite
    · split at hwrite
      · obtain ⟨_, -, rfl⟩ := List.mem_map.mp hwrite
        rfl
      · cases hwrite

/-- The coordinator ends without a write that failed. -/
theorem QueueLaw.stop (law : QueueLaw trace o) (hopen : o.coordinator.isGone = false)
    (hmarks : sent marks = [] ∧ taken marks = [] ∧ writes marks = [])
    (hgone : o'.coordinator.isGone = true)
    (hrunOut : o'.coordinator = .stopped (.ok ()) → o.commands = [])
    (hpublishes : o'.publishes = o.publishes) (hstored : o'.stored = o.stored) :
    QueueLaw (trace ++ marks) o' := by
  obtain ⟨hsent, htaken, hwrites⟩ := hmarks
  refine ⟨?_, ?_, ?_, ?_, ?_, .allOk ?_⟩
  · rw [taken_append, htaken, sent_append, hsent, List.append_nil, List.append_nil]
    exact law.in_order
  · intro h
    rw [h] at hgone
    cases hgone
  · intro hstopped
    have hqueued := law.queued hopen
    rw [hrunOut hstopped, List.append_nil] at hqueued
    rw [taken_append, htaken, sent_append, hsent, hqueued]
  · rw [taken_append, htaken, List.append_nil, hpublishes]
    exact law.counted
  · rw [taken_append, htaken, writes_append, hwrites, List.append_nil, List.append_nil, hstored]
    exact law.written
  · rw [writes_append, hwrites, List.append_nil]
    exact law.answers.allOk_of_not_gone hopen

/-- A write fails: its publish is the last command taken, and its answer ends the bus. -/
theorem QueueLaw.refuse {batch : List Event} {rest : List Command} {error : StoreError}
    (law : QueueLaw trace o) (hopen : o.coordinator.isGone = false)
    (hnext : o.commands = .publish batch :: rest) (hsent : sent marks = [])
    (htaken : taken marks = [.publish batch]) (hwrites : writes marks = [(batch, .error error)])
    (hstopped : o'.coordinator = .stopped (.error (.ofStore error)))
    (hpublishes : o'.publishes = o.publishes + 1) (hstored : o'.stored = o.stored) :
    QueueLaw (trace ++ marks) o' := by
  have hqueue := law.taken_eq hopen hnext hsent htaken
  have hbatches : (taken (trace ++ marks)).filterMap Command.batch?
      = (taken trace).filterMap Command.batch? ++ [batch] := by
    rw [taken_append, htaken, List.filterMap_append]
    rfl
  refine ⟨⟨rest, hqueue⟩, ?_, ?_, ?_, ?_, ?_⟩
  · intro h
    simp [hstopped, Coordinator.isGone] at h
  · intro h
    simp [hstopped] at h
  · rw [hbatches, List.length_append, ← law.counted, hpublishes, List.length_singleton]
  · intro h
    rw [hstored] at h
    rw [hbatches, writes_append, hwrites, List.map_append, law.written h, List.map_singleton]
  · rw [writes_append, hwrites]
    exact .lastFailed (law.answers.allOk_of_not_gone hopen) hstopped

theorem Outline.Launches.not_gone {publish : Nat} {batch : List Event} {next : Coordinator}
    (h : o.Launches publish batch next) : next.isGone = false := by
  cases h <;> rfl

theorem QueueLaw.enter {call : Call} (law : QueueLaw trace o) (hopen : o.coordinator.isGone = false)
    (calls : List Call) : QueueLaw (trace ++ [.sent call.command]) (o.enter call calls) := by
  have htaken : taken (trace ++ [.sent call.command]) = taken trace := by
    rw [taken_append]
    exact List.append_nil _
  have hwrites : writes (trace ++ [.sent call.command]) = writes trace := by
    rw [writes_append]
    exact List.append_nil _
  have hsent : sent (trace ++ [.sent call.command]) = sent trace ++ [call.command] := sent_append
  have hqueued := law.queued hopen
  refine ⟨?_, ?_, ?_, ?_, ?_, ?_⟩
  · rw [htaken, hsent]
    exact law.in_order.trans (List.prefix_append _ _)
  · intro _
    rw [htaken, hsent, ← hqueued, List.append_assoc]
    rfl
  · intro hstopped
    have hstopped : o.coordinator = .stopped (.ok ()) := hstopped
    simp [hstopped, Coordinator.isGone] at hopen
  · rw [htaken]
    exact law.counted
  · rw [htaken, hwrites]
    exact law.written
  · rw [hwrites]
    exact law.answers

theorem QueueLaw.coordinate (law : QueueLaw trace o) (move : CoordinatorMove o marks o') :
    QueueLaw (trace ++ marks) o' := by
  have hopen := move.not_gone
  have hsent : sent marks = [] := sent_eq_nil fun mark hmark => (move.frame.kind mark hmark).1
  cases move with
  | ready h hnext =>
      exact law.frame ⟨rfl, rfl, rfl, rfl, rfl, rfl,
        Or.inr ⟨hopen, Coordinator.not_gone_of_isFree hnext⟩⟩
  | discard h =>
      exact law.stop hopen ⟨rfl, rfl, rfl⟩ rfl nofun rfl rfl
  | stop h hresult =>
      refine law.stop hopen ⟨rfl, rfl, rfl⟩ rfl ?_ rfl rfl
      intro hstopped
      rcases hresult with rfl | ⟨-, -, hcommands⟩
      · cases hstopped
      · exact hcommands
  | @refuse batch rest notices error h hcommands hstored hplain =>
      have hplain' : ∀ notice ∈ notices ++ [.stopped (.error (.ofStore error))],
          notice.isPlain = true := by
        simpa [or_imp, forall_and, Notice.isPlain] using hplain
      refine law.refuse hopen hcommands hsent (taken_took _ hplain') ?_ rfl rfl rfl
      exact congrArg (_ :: ·) (writes_noted _)
  | @accept batch rest notices next h hcommands hplain hnext =>
      refine law.take ⟨hopen, hcommands, hsent, ?_, rfl, hnext.not_gone, rfl, rfl, ?_⟩
      · rw [taken_append, taken_took _ (isPlain_of_mem_append_pruned hplain)]
        split <;> rfl
      · rw [writes_append, writes_noted]
        split <;> rfl
  | known h hcommands hregistered =>
      exact law.take ⟨hopen, hcommands, hsent, rfl, rfl, hopen, rfl, rfl, (ite_self _).symm⟩
  | enroll h hcommands hnew hconsumer hnext =>
      refine law.take ⟨hopen, hcommands, hsent, rfl, rfl, ?_, rfl, rfl, (ite_self _).symm⟩
      rcases hnext with rfl | ⟨-, _, rfl⟩ <;> rfl
  | expel h hcommands hplain =>
      refine law.take ⟨hopen, hcommands, hsent, taken_took _ hplain, rfl, hopen, rfl, rfl, ?_⟩
      exact (writes_noted _).trans (ite_self _).symm
  | launch h => exact law.frame ⟨rfl, rfl, rfl, rfl, rfl, rfl, Or.inr ⟨hopen, rfl⟩⟩
  | drop h => exact law.frame ⟨rfl, rfl, rfl, rfl, rfl, rfl, Or.inr ⟨hopen, rfl⟩⟩
  | abandon h => exact law.frame ⟨rfl, rfl, rfl, rfl, rfl, rfl, Or.inr ⟨hopen, rfl⟩⟩

theorem QueueLaw.move (law : QueueLaw trace o) (move : Move o marks o') :
    QueueLaw (trace ++ marks) o' := by
  cases move with
  | report h =>
      have hsent := sent_eq_nil fun mark hmark => (kind_report h mark hmark).1
      exact law.frame ⟨hsent, taken_noted h, writes_noted _, rfl, rfl, rfl, Or.inl rfl⟩
  | call move =>
      cases move with
      | enter h hopen => exact law.enter hopen _
      | _ => exact law.frame ⟨rfl, rfl, rfl, rfl, rfl, rfl, Or.inl rfl⟩
  | coordinate move => exact law.coordinate move
  | work move =>
      have frame := move.frame
      have hsent := sent_eq_nil fun mark hmark => Mark.not_ofCall_of_ofTask (frame.kind mark hmark)
      exact law.frame ⟨hsent, taken_eq_nil_of_task frame.kind, writes_eq_nil_of_task frame.kind,
        frame.commands, frame.publishes, frame.stored, Or.inl frame.coordinator⟩

end EventBus.Bus
