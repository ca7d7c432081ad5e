import EventBus.Store.Recorder
import EventBus.Store.Ring
import EventBus.Store.Script
import EventBus.Store.Traced

/-!
A store of any kind, chosen while the program runs, with its calls reported or not.
-/

namespace EventBus

inductive Backend where
  | ring (ring : Ring)
  | recorder (recorder : Recorder)
  | script (script : Script)

namespace Store.Answer

def lift {σ τ α : Type} (f : σ → τ) (answer : Store.Answer σ α) : Store.Answer τ α :=
  ⟨answer.result, f answer.store, answer.notices⟩

end Store.Answer

instance : Store Backend where
  reopen canceled
    | .ring ring => (Store.reopen canceled ring).lift .ring
    | .recorder recorder => (Store.reopen canceled recorder).lift .recorder
    | .script script => (Store.reopen canceled script).lift .script
  close canceled
    | .ring ring => (Store.close canceled ring).lift .ring
    | .recorder recorder => (Store.close canceled recorder).lift .recorder
    | .script script => (Store.close canceled script).lift .script
  write canceled batch
    | .ring ring => (Store.write canceled batch ring).lift .ring
    | .recorder recorder => (Store.write canceled batch recorder).lift .recorder
    | .script script => (Store.write canceled batch script).lift .script
  read canceled query
    | .ring ring => (Store.read canceled query ring).lift .ring
    | .recorder recorder => (Store.read canceled query recorder).lift .recorder
    | .script script => (Store.read canceled query script).lift .script

structure AnyStore where
  backend : Backend
  traced : Bool

namespace AnyStore

/-- Call the store inside, with reports or without. -/
def call {α : Type} (store : AnyStore) (direct : Backend → Store.Answer Backend α)
    (reported : Traced Backend → Store.Answer (Traced Backend) α) : Store.Answer AnyStore α :=
  if store.traced then (reported ⟨store.backend⟩).lift fun after => ⟨after.inner, true⟩
  else (direct store.backend).lift fun after => ⟨after, false⟩

instance : Store AnyStore where
  reopen canceled store := store.call (Store.reopen canceled) (Store.reopen canceled)
  close canceled store := store.call (Store.close canceled) (Store.close canceled)
  write canceled batch store := store.call (Store.write canceled batch) (Store.write canceled batch)
  read canceled query store := store.call (Store.read canceled query) (Store.read canceled query)

end AnyStore

end EventBus
