import EventBus.Cli.Flags
import EventBus.Proofs.Config.Layers
import EventBus.Proofs.Pattern.DocumentParts

/-!
What flags can say. A value comes into the flags only by being read from an argument, so whatever
the command line, the layer of its flags is valid.
-/

namespace EventBus.Cli

section Values

variable {flags next : Flags}

theorem Flags.read?_of_checked {α : Type} {found? : Option α} {a : α}
    (h : checked found? = .ok a) : found? = some a := by
  unfold checked at h
  split at h
  · cases h
    rfl
  · cases h

theorem Flags.valid_of_take {value : String} {setting : Setting} (valid : flags.layer.Valid)
    (h : flags.take value setting = .ok next) : next.layer.Valid := by
  have hspan {value : String} {s : Span} (hread : span value = .ok s) : s.Valid :=
    Span.valid_of_read? (read?_of_checked hread)
  cases setting with
  | listen =>
      obtain ⟨address, hread, rfl⟩ := Pattern.map_eq_ok_iff.mp h
      have hvalid := Address.valid_of_read? (read?_of_checked hread)
      exact ⟨by simpa using hvalid, valid.consumerTimeout, valid.workersTimeout⟩
  | consumerTimeout =>
      obtain ⟨span, hread, rfl⟩ := Pattern.map_eq_ok_iff.mp h
      exact ⟨valid.listen, by simpa using hspan hread, valid.workersTimeout⟩
  | workersTimeout =>
      obtain ⟨span, hread, rfl⟩ := Pattern.map_eq_ok_iff.mp h
      exact ⟨valid.listen, valid.consumerTimeout, by simpa using hspan hread⟩
  | topic =>
      cases h
      exact ⟨valid.listen, valid.consumerTimeout, valid.workersTimeout⟩
  | _ =>
      obtain ⟨_, -, rfl⟩ := Pattern.map_eq_ok_iff.mp h
      exact ⟨valid.listen, valid.consumerTimeout, valid.workersTimeout⟩

theorem Flags.valid_of_set {setting : Setting} {value : String} (valid : flags.layer.Valid)
    (h : flags.set setting value = .ok next) : next.layer.Valid := by
  unfold set at h
  split at h
  · cases h
  · exact valid_of_take valid h

theorem Flags.valid_of_switch {switch : Switch} (valid : flags.layer.Valid)
    (h : flags.switch switch = .ok next) : next.layer.Valid := by
  cases switch with
  | noStdin =>
      simp only [Flags.switch] at h
      split at h
      · cases h
      · cases h
        exact valid
  | printConfig =>
      simp only [Flags.switch] at h
      split at h
      · cases h
      · cases h
        exact valid
  | help => cases h
  | version => cases h

theorem valid_of_resolve {pending : Pending} (valid : flags.layer.Valid)
    (h : resolve flags pending = .ok next) : next.layer.Valid := by
  unfold resolve at h
  split at h
  · cases h
    exact valid
  · cases h
  · exact Flags.valid_of_set valid h

end Values

section Arguments

variable {flags : Flags} {pending : Pending} {next : Flags × Pending}

theorem valid_of_takeLong {name : String} {value? : Option String} (valid : flags.layer.Valid)
    (h : takeLong flags pending name value? = .ok next) : next.1.layer.Valid := by
  unfold takeLong at h
  split at h
  · obtain ⟨resolved, hresolve, h⟩ := Pattern.bind_eq_ok_iff.mp h
    obtain ⟨set, hset, h⟩ := Pattern.bind_eq_ok_iff.mp h
    cases h
    exact Flags.valid_of_set (valid_of_resolve valid hresolve) hset
  · obtain ⟨resolved, hresolve, h⟩ := Pattern.bind_eq_ok_iff.mp h
    cases h
    exact valid_of_resolve valid hresolve
  · cases h
  · obtain ⟨resolved, hresolve, h⟩ := Pattern.bind_eq_ok_iff.mp h
    obtain ⟨switched, hswitch, h⟩ := Pattern.bind_eq_ok_iff.mp h
    cases h
    exact Flags.valid_of_switch (valid_of_resolve valid hresolve) hswitch
  · cases h

theorem valid_of_takeShort {letters : List Char} (valid : flags.layer.Valid)
    (h : takeShort flags pending letters = .ok next) : next.1.layer.Valid := by
  induction letters generalizing flags pending with
  | nil =>
      cases h
      exact valid
  | cons c letters ih =>
      rw [takeShort] at h
      split at h
      · cases h
      · obtain ⟨resolved, hresolve, h⟩ := Pattern.bind_eq_ok_iff.mp h
        obtain ⟨switched, hswitch, h⟩ := Pattern.bind_eq_ok_iff.mp h
        exact ih (Flags.valid_of_switch (valid_of_resolve valid hresolve) hswitch) h

end Arguments

theorem valid_of_readFrom {args : List String} {flags found : Flags} {pending : Pending}
    (valid : flags.layer.Valid) (h : readFrom flags pending args = .ok found) :
    found.layer.Valid := by
  induction args generalizing flags pending with
  | nil => exact valid_of_resolve valid h
  | cons arg args ih =>
      rw [readFrom.eq_def] at h
      cases harg : Argument.of arg with
      | separator =>
          simp only [harg] at h
          split at h
          · exact valid_of_resolve valid h
          · cases h
      | long name value? =>
          simp only [harg] at h
          obtain ⟨taken, htake, h⟩ := Pattern.bind_eq_ok_iff.mp h
          exact ih (valid_of_takeLong valid htake) h
      | short letters =>
          simp only [harg] at h
          obtain ⟨taken, htake, h⟩ := Pattern.bind_eq_ok_iff.mp h
          exact ih (valid_of_takeShort valid htake) h
      | plain value =>
          simp only [harg] at h
          split at h
          next heq => cases heq
          next heq => cases heq
          next heq => cases heq
          next => exact ih valid h
          next => cases h

/-- Every command line that is read gives a valid layer. -/
theorem valid_of_read {args : List String} {flags : Flags} (h : read args = .ok flags) :
    flags.layer.Valid := valid_of_readFrom ConfigLayer.valid_empty h

end EventBus.Cli
