import EventBus.Store.Basic

/-!
A store that reports on every call made to it and otherwise behaves as the store inside.
-/

namespace EventBus

structure Traced (σ : Type) where
  inner : σ

namespace Traced

variable {σ α : Type}

def report (before after : List Store.Notice) (answer : Store.Answer σ α) :
    Store.Answer (Traced σ) α :=
  ⟨answer.result, ⟨answer.store⟩, before ++ answer.notices ++ after⟩

def afterWrite : Except StoreError Unit → Store.Notice
  | .ok () => .written
  | .error .canceled => .writeCanceled
  | .error error => .writeFailed error

instance [Store σ] : Store (Traced σ) where
  reopen canceled store :=
    let answer := Store.reopen canceled store.inner
    report [] [match answer.result with | .ok () => .opened | .error e => .openFailed e] answer
  close canceled store :=
    let answer := Store.close canceled store.inner
    report [] [match answer.result with | .ok () => .closed | .error e => .closeFailed e] answer
  write canceled batch store :=
    let answer := Store.write canceled batch store.inner
    report [.writing batch.length] [afterWrite answer.result] answer
  read canceled query store :=
    let answer := Store.read canceled query store.inner
    report [.reading query]
      [match answer.result with | .ok _ => .readStarted | .error e => .readFailed e] answer

end Traced

end EventBus
