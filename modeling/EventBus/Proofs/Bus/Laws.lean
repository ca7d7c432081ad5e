import EventBus.Proofs.Bus.Causes
import EventBus.Proofs.Bus.Refinement
import EventBus.Store.Recorder

/-!
All the laws together hold at every point of every run.
-/

namespace EventBus.Bus

structure Laws (trace : List Mark) (o : Outline) : Prop where
  fresh : o.Fresh
  queue : QueueLaw trace o
  number : NumberLaw trace o
  feed : FeedLaw trace o
  registry : RegistryLaw trace o
  fanOut : FanOutLaw trace o
  replay : ReplayLaw trace o
  cause : CauseLaw trace o

variable {trace marks : List Mark} {o o' : Outline}

theorem Laws.move (laws : Laws trace o) (move : Move o marks o') : Laws (trace ++ marks) o' := by
  -- The registry after the move comes first: the targets of a publish are read off it.
  have registry := laws.registry.move laws.queue laws.number laws.feed move
  exact {
    fresh := move.fresh laws.fresh
    queue := laws.queue.move move
    number := laws.number.move move
    feed := laws.feed.move laws.fresh move
    registry := registry
    fanOut := laws.fanOut.move laws.queue laws.fresh registry move
    replay := laws.replay.move move
    cause := laws.cause.move laws.queue laws.fanOut laws.replay move }

theorem not_mem_nil_split {before after : List Mark} {mark : Mark}
    (h : [] = before ++ mark :: after) : False := by
  simp at h

section Runs

variable {σ : Type} {settings : Settings} {store? : Option σ}

/-- Of a bus that has just been made there is nothing to tell. -/
theorem create_laws : Laws [] ((create settings store?).outline []) where
  fresh := create_fresh settings store?
  queue := ⟨List.nil_prefix, fun _ => rfl, nofun, rfl, fun _ => rfl, .allOk nofun⟩
  number := ⟨List.nodup_nil, nofun, List.nodup_nil, nofun⟩
  feed _ := ⟨rfl, rfl, List.not_mem_nil⟩
  registry := by
    refine ⟨?_, List.nodup_nil, fun _ => List.not_mem_nil⟩
    intro _ consumer
    refine iff_of_false List.not_mem_nil ?_
    rintro ⟨before, query, after, h, -⟩
    exact not_mem_nil_split h
  fanOut := by
    refine ⟨fun publish _ => ⟨?_, ?_, rfl, rfl⟩, ?_⟩
    · rintro task ⟨batch, legs, h⟩
      cases h
    · rintro ⟨batch, targets, deadline, h⟩
      cases h
    · intro before batch after h
      exact (not_mem_nil_split h).elim
  replay := ⟨nofun, nofun⟩
  cause before id events origin after h := (not_mem_nil_split h).elim

variable [Store σ] {world : World σ}

theorem Run.laws (run : Run settings store? trace world) : Laws trace world.outline :=
  run.moves.invariant create_laws fun laws move => laws.move move

/-- How a bus is tuned, and whether it has a store, is settled when it is made. -/
theorem Run.constants (run : Run settings store? trace world) :
    world.outline.maxReplay = settings.maxReplay ∧ world.outline.stored = store?.isSome := by
  refine run.moves.invariant
    (P := fun _ o => o.maxReplay = settings.maxReplay ∧ o.stored = store?.isSome) ⟨rfl, rfl⟩ ?_
  intro trace middle marks last h move
  cases move with
  | report _ => exact h
  | call move => exact ⟨move.frame.maxReplay.trans h.1, move.frame.stored.trans h.2⟩
  | coordinate move => exact ⟨move.frame.maxReplay.trans h.1, move.frame.stored.trans h.2⟩
  | work move => exact ⟨move.frame.maxReplay.trans h.1, move.frame.stored.trans h.2⟩

end Runs

section Sample

def shortQuery : Query := ⟨false, 10, .pass⟩

def shortBatch (number : Int) : List Event := [⟨none, .number (.int number), none⟩]

def shortTrace : List Mark :=
  [.numbered 1, .sent (.subscribe 1 shortQuery), .sent (.publish (shortBatch 1)),
    .noted (.started 1 10 true),
    .noted (.took (.subscribe 1 shortQuery)), .noted (.registered ⟨1, shortQuery⟩),
    .wrote (shortBatch 1) (.ok ()), .noted (.took (.publish (shortBatch 1))),
    .noted (.stored (shortBatch 1)),
    .attempted 0 1, .noted (.queued 1 (shortBatch 1) (.live 0)), .noted (.delivered 1 1),
    .received 1 (shortBatch 1),
    .sent (.publish (shortBatch 2)),
    .wrote (shortBatch 2) (.error .closed), .noted (.took (.publish (shortBatch 2))),
    .noted (.stopped (.error (.store .closed)))]

/-- A consumer subscribes and receives a batch; the write of the next batch fails. -/
theorem exists_short_run : ∃ world, Run ⟨1, 10, 5, 5⟩ (some Recorder.empty) shortTrace world := by
  have h : Run ⟨1, 10, 5, 5⟩ (some Recorder.empty) [] _ := Steps.refl _
  have h := h.tail (.subscribe shortQuery 1)
  have h := h.tail (@Step.enter _ _ _ [] _ [] rfl)
  have h := h.tail (.call (.publish (shortBatch 1)) rfl)
  have h := h.tail (@Step.enter _ _ _ [] _ [] rfl)
  have h := h.tail .start
  have h := h.tail (.begin rfl)
  have h := h.tail (.take rfl rfl)
  have h := h.tail (.take rfl rfl)
  have h := h.tail (@Step.deliver _ _ _ _ 0 _ _ [] _ _ _ rfl)
  have h := h.tail (@Step.report _ _ _ _ 0 _ _ _ rfl rfl)
  have h := h.tail (@Step.receive _ _ _ _ _ 1 _ rfl)
  have h := h.tail (.mapStore fun recorder => { recorder with writeError? := some .closed })
  have h := h.tail (.call (.publish (shortBatch 2)) rfl)
  have h := h.tail (@Step.enter _ _ _ [] _ [] rfl)
  have h := h.tail (.take rfl rfl)
  exact ⟨_, h⟩

end Sample

end EventBus.Bus
