import EventBus.Event.Query

/-!
What a bus asks of a history: to take in published batches and to read stored events back.
A call answers at once, and is told whether its caller has been cancelled. What a call has
to report besides its answer comes back with it.
-/

namespace EventBus

inductive StoreError where
  | canceled
  | closed
  | backend (text : String)
  deriving DecidableEq, Repr

def StoreError.message : StoreError → String
  | .canceled => "store operation canceled"
  | .closed => "store is closed"
  | .backend text => "store backend failed: " ++ text

/--
What a read yields: batches one after the other, and whether the stream ends after them or
stays open. A stream that never ends is known by the batches it has yielded so far.
-/
structure Stream where
  batches : List (List Event)
  ends : Bool
  deriving Repr

namespace Store

inductive Notice where
  | opened
  | openFailed (error : StoreError)
  | closed
  | closeFailed (error : StoreError)
  | writing (events : Nat)
  | written
  | writeCanceled
  | writeFailed (error : StoreError)
  | reading (query : Query)
  | readStarted
  | readFailed (error : StoreError)
  deriving Repr

def Notice.line : Notice → String
  | .opened => "INFO store opened"
  | .openFailed error => "ERROR store open failed error=" ++ error.message
  | .closed => "INFO store closed"
  | .closeFailed error => "WARN store close failed error=" ++ error.message
  | .writing events => "SPAN store.write events=" ++ toString events
  | .written => "DEBUG written"
  | .writeCanceled => "DEBUG write canceled"
  | .writeFailed error => "ERROR write failed error=" ++ error.message
  | .reading query =>
      "SPAN store.read limit=" ++ toString query.limit ++ " filter=" ++ query.filter.text
  | .readStarted => "DEBUG read started"
  | .readFailed error => "WARN read failed error=" ++ error.message

/-- The answer of a call, the store after it, and what it reports. -/
structure Answer (σ α : Type) where
  result : Except StoreError α
  store : σ
  notices : List Notice

end Store

/-- A history that a bus writes to and replays from. -/
class Store (σ : Type) where
  reopen : (canceled : Bool) → σ → Store.Answer σ Unit
  close : (canceled : Bool) → σ → Store.Answer σ Unit
  write : (canceled : Bool) → List Event → σ → Store.Answer σ Unit
  read : (canceled : Bool) → Query → σ → Store.Answer σ Stream

end EventBus
