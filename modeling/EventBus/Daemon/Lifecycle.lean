import EventBus.Bus.Schedule

/-!
The life of a daemon: its store is opened first, and closed again when no address can be
had; then the bus runs until it stops by itself or is told to, and the store is closed
last. Being told to stop is no failure.
-/

namespace EventBus

structure Daemon (σ : Type) where
  bus : Bus σ

namespace Daemon

variable {σ : Type}

inductive StartError where
  | store (error : StoreError)
  | bind
  deriving DecidableEq, Repr

/-- Open the store and make the bus, if an address can be had. -/
def startup [Store σ] (settings : Bus.Settings) (store : σ) (canBind : Bool) :
    Except StartError (Daemon σ) :=
  let opened := Store.reopen false store
  match opened.result with
  | .error error => .error (.store error)
  | .ok () =>
      if canBind then .ok ⟨Bus.create settings (some opened.store)⟩ else .error .bind

/-- Start the coordinator; the server takes a handle of its own. -/
def start (daemon : Daemon σ) : Daemon σ := ⟨daemon.bus.start.addHandle⟩

/-- How the coordinator ended, if it has. Being cancelled is the usual end. -/
def outcome? (daemon : Daemon σ) : Option (Except BusError Unit) :=
  match daemon.bus.coordinator with
  | .stopped (.error .canceled) => some (.ok ())
  | .stopped result => some result
  | _ => none

def closeStore [Store σ] (bus : Bus σ) : Bus σ :=
  bus.mapStore fun store => (Store.close false store).store

def shutdown [Store σ] (daemon : Daemon σ) : Except BusError Unit × Daemon σ :=
  let stopped : Daemon σ := ⟨daemon.bus.cancel.settle⟩
  ((stopped.outcome?).getD (.ok ()), ⟨closeStore stopped.bus⟩)

end Daemon

end EventBus
