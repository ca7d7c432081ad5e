import EventBus.Proofs.Bus.Settling
import EventBus.Proofs.Ingest.Loop

/-!
What comes of publishing an input. In one go its events are sent one after the other, and where the
queue of the bus is full the bus goes on by itself first. So all of them are sent, unless the bus has
gone or leaves its queue full even when it has settled.
-/

namespace EventBus.Ingest

variable {σ : Type} [Store σ]

section InOneGo

/-- What publishing an input does to a bus, besides sending events. -/
def ofIngestion : Bus.Input σ → Bool
  | .publish false [_] => true
  | .remark _ => true
  | .settle => true
  | _ => false

/-- A bus takes events one by one, and comes to be another by that and nothing else. -/
structure Takes (bus : Bus σ) (inputs : List (Bus.Input σ)) (sent : List Event) (bus' : Bus σ) :
    Prop where
  only : ∀ input ∈ inputs, ofIngestion input = true
  reached : inputs.foldl Bus.perform bus = bus'
  admitted : admitted bus inputs = sent.map ([·])

variable {bus bus' bus'' : Bus σ} {inputs more : List (Bus.Input σ)} {sent later rest : List Event}

namespace Takes

theorem refl (bus : Bus σ) : Takes bus [] [] bus := ⟨nofun, rfl, rfl⟩

theorem trans (first : Takes bus inputs sent bus') (second : Takes bus' more later bus'') :
    Takes bus (inputs ++ more) (sent ++ later) bus'' where
  only input hinput := (List.mem_append.mp hinput).elim (first.only input) (second.only input)
  reached := by rw [List.foldl_append, first.reached, second.reached]
  admitted := by
    rw [admitted_append, first.reached, first.admitted, second.admitted, List.map_append]

theorem driven (takes : Takes bus inputs sent bus') (driven : Bus.Driven bus) : Bus.Driven bus' :=
  takes.reached ▸ driven.foldl_perform inputs

end Takes

end InOneGo

end EventBus.Ingest
