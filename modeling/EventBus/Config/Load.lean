import EventBus.Config.Document
import EventBus.Text.Utf8

/-!
Loading a configuration: defaults, a file if one is named, then flags, and at last a check
of the bounds. Files are read through a function, so that loading itself does nothing.
-/

namespace EventBus

inductive FileError where
  | missing
  | directory
  | notText
  | other (text : String)
  deriving DecidableEq, Repr

def FileError.message : FileError → String
  | .missing => "No such file or directory (os error 2)"
  | .directory => "Is a directory (os error 21)"
  | .notText => "stream did not contain valid UTF-8"
  | .other text => text

abbrev Files := String → Except FileError (List UInt8)

inductive ConfigError where
  | read (path : String) (error : FileError)
  | parse (path : String)
  | render
  | outOfRange (field : String) (value max : Nat)
  deriving DecidableEq, Repr

/-- Stands for the report on a text that is no configuration. -/
def Toml.complaint : String := "TOML parse error"

def ConfigError.message : ConfigError → String
  | .read path error => "cannot read config " ++ path ++ ": " ++ error.message
  | .parse path => "invalid config " ++ path ++ ": " ++ Toml.complaint
  | .render => "cannot render config: out-of-range value for u64 type"
  | .outOfRange field value max =>
      field ++ " = " ++ toString value ++ " exceeds the maximum of " ++ toString max

namespace Config

def readText (files : Files) (path : String) : Except ConfigError String :=
  match files path with
  | .error error => .error (.read path error)
  | .ok bytes =>
      match Utf8.decode bytes with
      | .ok cs => .ok (String.ofList cs)
      | .error _ => .error (.read path .notText)

def readLayer (files : Files) : Option String → Except ConfigError ConfigLayer
  | none => .ok .empty
  | some path =>
      match readText files path with
      | .error error => .error error
      | .ok text =>
          match ConfigLayer.ofText? text with
          | some layer => .ok layer
          | none => .error (.parse path)

def validate (config : Config) : Except ConfigError Config :=
  if maxWorkers < config.workers then
    .error (.outOfRange "workers" config.workers maxWorkers)
  else if maxRingCapacity < config.ringCapacity then
    .error (.outOfRange "ring_capacity" config.ringCapacity maxRingCapacity)
  else .ok config

def load (processors : Nat) (files : Files) (path? : Option String) (flags : ConfigLayer) :
    Except ConfigError Config :=
  match readLayer files path? with
  | .error error => .error error
  | .ok layer => (((initial processors).overlay layer).overlay flags).validate

def render (config : Config) : Except ConfigError String :=
  match config.text? with
  | some text => .ok text
  | none => .error .render

end Config

end EventBus
