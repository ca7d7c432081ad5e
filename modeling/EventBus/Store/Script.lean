import EventBus.Store.Basic

/-!
A history of which nothing is known but what its reads yield: always the same stream,
whatever is asked for, or always the same error. Its writes succeed and leave no trace.
-/

namespace EventBus

/-- The stream of every read, or the error of every read. -/
structure Script where
  stream : Stream
  readError? : Option StoreError

namespace Script

def read (script : Script) : Except StoreError Stream :=
  match script.readError? with
  | some error => .error error
  | none => .ok script.stream

instance : Store Script where
  reopen _ script := ⟨.ok (), script, []⟩
  close _ script := ⟨.ok (), script, []⟩
  write _ _ script := ⟨.ok (), script, []⟩
  read _ _ script := ⟨script.read, script, []⟩

end Script

end EventBus
