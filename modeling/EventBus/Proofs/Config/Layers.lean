import EventBus.Config.Load
import EventBus.Proofs.Net.AddressText
import EventBus.Proofs.Time.SpanReading

/-!
Layers of a configuration. Addresses and lengths of time only come into a layer by reading a text,
so they are within their bounds in every layer that is read and in what such layers come to. A
layer laid over twice changes nothing the second time.
-/

namespace EventBus

/-- The addresses and lengths of time of a layer are within their bounds. -/
structure ConfigLayer.Valid (layer : ConfigLayer) : Prop where
  listen : ∀ address, layer.listen? = some address → address.Valid
  consumerTimeout : ∀ span, layer.consumerTimeout? = some span → span.Valid
  workersTimeout : ∀ span, layer.workersTimeout? = some span → span.Valid

structure Config.Valid (config : Config) : Prop where
  listen : config.listen.Valid
  consumerTimeout : config.consumerTimeout.Valid
  workersTimeout : config.workersTimeout.Valid

namespace ConfigLayer

theorem valid_empty : Valid empty := ⟨by simp [empty], by simp [empty], by simp [empty]⟩

section Reading

variable {α : Type} {read : Toml.Value → Option α} {P : α → Prop}

theorem of_setting? (hread : ∀ value a, read value = some a → P a) {value? : Option Toml.Value}
    {found : Option α} (h : setting? read value? = some found) : ∀ a, found = some a → P a := by
  cases value? with
  | none =>
      cases h
      simp
  | some value =>
      obtain ⟨a, hvalue, rfl⟩ := Option.map_eq_some_iff.mp h
      rintro _ ⟨rfl⟩
      exact hread value a hvalue

theorem valid_of_readSpan? (value : Toml.Value) (span : Span) (h : readSpan? value = some span) :
    span.Valid := by
  obtain ⟨s, -, hspan⟩ := Option.bind_eq_some_iff.mp h
  exact Span.valid_of_read? hspan

theorem valid_of_readAddress? (value : Toml.Value) (address : Address)
    (h : readAddress? value = some address) : address.Valid := by
  obtain ⟨s, -, haddress⟩ := Option.bind_eq_some_iff.mp h
  exact Address.valid_of_read? haddress

theorem valid_of_ofBusValues? {layer found : ConfigLayer} (valid : layer.Valid)
    {workers maxReplay consumerTimeout workersTimeout ringCapacity : Option Toml.Value}
    (h : layer.ofBusValues? workers maxReplay consumerTimeout workersTimeout ringCapacity =
      some found) : found.Valid := by
  obtain ⟨_, -, h⟩ := Option.bind_eq_some_iff.mp h
  obtain ⟨_, -, h⟩ := Option.bind_eq_some_iff.mp h
  obtain ⟨consumer, hconsumer, h⟩ := Option.bind_eq_some_iff.mp h
  obtain ⟨worker, hworker, h⟩ := Option.bind_eq_some_iff.mp h
  obtain ⟨_, -, h⟩ := Option.bind_eq_some_iff.mp h
  cases h
  exact ⟨valid.listen, of_setting? valid_of_readSpan? hconsumer,
    of_setting? valid_of_readSpan? hworker⟩

theorem valid_of_ofBus? {layer found : ConfigLayer} (valid : layer.Valid)
    {bus? : Option Toml.Value} (h : layer.ofBus? bus? = some found) : found.Valid := by
  unfold ofBus? at h
  split at h
  · cases h
    exact valid
  · exact valid_of_ofBusValues? valid h
  · exact valid_of_ofBusValues? valid h
  · cases h

/-- Every layer that a text stands for is valid. -/
theorem valid_of_ofText? {s : String} {layer : ConfigLayer} (h : ofText? s = some layer) :
    layer.Valid := by
  obtain ⟨entries, -, h⟩ := Option.bind_eq_some_iff.mp h
  obtain ⟨listen, hlisten, h⟩ := Option.bind_eq_some_iff.mp h
  obtain ⟨_, -, h⟩ := Option.bind_eq_some_iff.mp h
  obtain ⟨_, -, h⟩ := Option.bind_eq_some_iff.mp h
  obtain ⟨_, -, h⟩ := Option.bind_eq_some_iff.mp h
  refine valid_of_ofBus? ?_ h
  exact ⟨of_setting? valid_of_readAddress? hlisten, valid_empty.consumerTimeout,
    valid_empty.workersTimeout⟩

end Reading

end ConfigLayer

namespace Config

variable {config found : Config} {layer : ConfigLayer}

theorem valid_initial (processors : Nat) : (initial processors).Valid := by
  have hlisten : Address.Valid (.v4 127 0 0 1 8000) := ⟨by decide, by decide⟩
  have hconsumer : Span.Valid ⟨20, 0⟩ := ⟨by decide, by decide⟩
  have hworkers : Span.Valid ⟨10, 0⟩ := ⟨by decide, by decide⟩
  exact ⟨hlisten, hconsumer, hworkers⟩

theorem of_getD {α : Type} {P : α → Prop} {given : Option α} {fallback : α}
    (hgiven : ∀ a, given = some a → P a) (hfallback : P fallback) : P (given.getD fallback) := by
  cases given with
  | none => exact hfallback
  | some a => exact hgiven a rfl

theorem Valid.overlay (valid : config.Valid) (hlayer : layer.Valid) :
    (config.overlay layer).Valid :=
  ⟨of_getD hlayer.listen valid.listen, of_getD hlayer.consumerTimeout valid.consumerTimeout,
    of_getD hlayer.workersTimeout valid.workersTimeout⟩

theorem overlay_empty (config : Config) : config.overlay .empty = config := by
  simp [overlay, ConfigLayer.empty]

/-- The same layer laid over once more changes nothing. -/
theorem overlay_overlay (config : Config) (layer : ConfigLayer) :
    (config.overlay layer).overlay layer = config.overlay layer := by
  have htwice {α : Type} (given : Option α) (fallback : α) :
      given.getD (given.getD fallback) = given.getD fallback := by
    cases given <;> rfl
  have htwiceOr {α : Type} (given fallback : Option α) :
      given.or (given.or fallback) = given.or fallback := by
    cases given <;> rfl
  simp only [overlay, htwice, htwiceOr]

theorem valid_of_readLayer {files : Files} {path? : Option String}
    (h : readLayer files path? = .ok layer) : layer.Valid := by
  unfold readLayer at h
  split at h
  · cases h
    exact ConfigLayer.valid_empty
  · split at h
    · cases h
    · split at h
      next hlayer =>
        cases h
        exact ConfigLayer.valid_of_ofText? hlayer
      next => cases h

theorem validate_eq_ok_iff :
    config.validate = .ok found ↔ found = config ∧ config.workers ≤ maxWorkers ∧
      config.ringCapacity ≤ maxRingCapacity := by
  unfold validate
  split
  next hworkers => simp [Nat.not_le.mpr hworkers]
  next hworkers =>
    split
    next hring => simp [Nat.not_le.mpr hring]
    next hring => simp [Nat.not_lt.mp hworkers, Nat.not_lt.mp hring, eq_comm]

/-- Loading gives the defaults with the file and then the flags laid over, within the bounds. -/
theorem load_eq_ok_iff {processors : Nat} {files : Files} {path? : Option String}
    {flags : ConfigLayer} :
    load processors files path? flags = .ok found ↔
      ∃ layer, readLayer files path? = .ok layer ∧
        found = ((initial processors).overlay layer).overlay flags ∧
          found.workers ≤ maxWorkers ∧ found.ringCapacity ≤ maxRingCapacity := by
  unfold load
  split
  next error herror => simp [herror]
  next layer hlayer =>
    rw [validate_eq_ok_iff]
    constructor
    · rintro ⟨rfl, hbounds⟩
      exact ⟨layer, hlayer, rfl, hbounds⟩
    · rintro ⟨other, hother, rfl, hbounds⟩
      obtain rfl : layer = other := Except.ok.inj (hlayer.symm.trans hother)
      exact ⟨rfl, hbounds⟩

end Config

end EventBus
