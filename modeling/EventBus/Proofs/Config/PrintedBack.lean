import EventBus.Proofs.Cli.FlagValues
import EventBus.Proofs.Text.Utf8
import EventBus.Proofs.Toml.Lines

/-!
A printed configuration loads back unchanged. The text names every setting but an absent log file,
and absent is also what that is by default, so as a file the text leaves nothing of the defaults;
the flags that were given are in it already. Only counts past the greatest integer have no text.
-/

namespace EventBus.Config

section Documents

/-- The settings of the document itself, with the text of the one count among them. -/
def settingsOnTop (config : Config) (sessionLimit : String) : List Toml.Setting :=
  [⟨"listen", Toml.stringText config.listen.text, .string config.listen.text⟩,
    ⟨"topic", Toml.stringText config.topic, .string config.topic⟩,
    ⟨"session_limit", sessionLimit, .integer config.sessionLimit⟩] ++
  config.logFile?.toList.map fun path => ⟨"log_file", Toml.stringText path, .string path⟩

def settingsOfBus (config : Config) (workers maxReplay ringCapacity : String) :
    List Toml.Setting :=
  [⟨"workers", workers, .integer config.workers⟩,
    ⟨"max_replay", maxReplay, .integer config.maxReplay⟩,
    ⟨"consumer_timeout", Toml.stringText config.consumerTimeout.text,
      .string config.consumerTimeout.text⟩,
    ⟨"workers_timeout", Toml.stringText config.workersTimeout.text,
      .string config.workersTimeout.text⟩,
    ⟨"ring_capacity", ringCapacity, .integer config.ringCapacity⟩]

/-- The layer that names every setting. -/
def layer (config : Config) : ConfigLayer where
  listen? := some config.listen
  topic? := some config.topic
  sessionLimit? := some config.sessionLimit
  logFile? := config.logFile?
  workers? := some config.workers
  maxReplay? := some config.maxReplay
  consumerTimeout? := some config.consumerTimeout
  workersTimeout? := some config.workersTimeout
  ringCapacity? := some config.ringCapacity

variable {config : Config} {text : String}

theorem exists_settings_of_text? (h : config.text? = some text) :
    ∃ sessionLimit workers maxReplay ringCapacity,
      Toml.natText? config.sessionLimit = some sessionLimit ∧
      Toml.natText? config.workers = some workers ∧
      Toml.natText? config.maxReplay = some maxReplay ∧
      Toml.natText? config.ringCapacity = some ringCapacity ∧
      text = String.ofList (Toml.documentChars (config.settingsOnTop sessionLimit) "bus"
        (config.settingsOfBus workers maxReplay ringCapacity)) := by
  obtain ⟨sessionLimit, hsession, h⟩ := Option.bind_eq_some_iff.mp h
  obtain ⟨workers, hworkers, h⟩ := Option.bind_eq_some_iff.mp h
  obtain ⟨maxReplay, hreplay, h⟩ := Option.bind_eq_some_iff.mp h
  obtain ⟨ringCapacity, hring, h⟩ := Option.bind_eq_some_iff.mp h
  refine ⟨sessionLimit, workers, maxReplay, ringCapacity, hsession, hworkers, hreplay, hring, ?_⟩
  cases h
  refine String.toList_inj.mp ?_
  cases hlog : config.logFile? <;>
    simp [hlog, Toml.documentChars, settingsOnTop, settingsOfBus, Toml.Setting.chars, logFileLine]

theorem sound_of_mem_settingsOnTop {sessionLimit : String}
    (h : Toml.natText? config.sessionLimit = some sessionLimit) :
    ∀ s ∈ config.settingsOnTop sessionLimit, s.Sound := by
  intro s hs
  simp only [settingsOnTop, List.mem_append, List.mem_cons, List.not_mem_nil, or_false,
    List.mem_map] at hs
  rcases hs with (rfl | rfl | rfl) | ⟨path, -, rfl⟩
  · exact ⟨(by decide : Toml.Bare "listen"), Toml.writes_stringText _⟩
  · exact ⟨(by decide : Toml.Bare "topic"), Toml.writes_stringText _⟩
  · exact ⟨(by decide : Toml.Bare "session_limit"), Toml.writes_natText? h⟩
  · exact ⟨(by decide : Toml.Bare "log_file"), Toml.writes_stringText _⟩

theorem sound_of_mem_settingsOfBus {workers maxReplay ringCapacity : String}
    (hworkers : Toml.natText? config.workers = some workers)
    (hreplay : Toml.natText? config.maxReplay = some maxReplay)
    (hring : Toml.natText? config.ringCapacity = some ringCapacity) :
    ∀ s ∈ config.settingsOfBus workers maxReplay ringCapacity, s.Sound := by
  simp only [settingsOfBus, List.forall_mem_cons, List.not_mem_nil, false_implies, implies_true,
    and_true]
  exact ⟨⟨(by decide : Toml.Bare "workers"), Toml.writes_natText? hworkers⟩,
    ⟨(by decide : Toml.Bare "max_replay"), Toml.writes_natText? hreplay⟩,
    ⟨(by decide : Toml.Bare "consumer_timeout"), Toml.writes_stringText _⟩,
    ⟨(by decide : Toml.Bare "workers_timeout"), Toml.writes_stringText _⟩,
    ⟨(by decide : Toml.Bare "ring_capacity"), Toml.writes_natText? hring⟩⟩

theorem read?_of_text? (h : config.text? = some text) :
    ∃ sessionLimit workers maxReplay ringCapacity, Toml.read? text =
      some ((config.settingsOnTop sessionLimit).map (·.held) ++
        [("bus", .table ((config.settingsOfBus workers maxReplay ringCapacity).map (·.held)))]) := by
  obtain ⟨sessionLimit, workers, maxReplay, ringCapacity, hsession, hworkers, hreplay, hring,
    rfl⟩ := exists_settings_of_text? h
  have hkeys : ((config.settingsOnTop sessionLimit).map (·.key) ++ ["bus"]).Nodup := by
    cases hlog : config.logFile? <;> simp [settingsOnTop, hlog]
  exact ⟨sessionLimit, workers, maxReplay, ringCapacity,
    Toml.read?_documentChars (sound_of_mem_settingsOnTop hsession) (by decide)
      (sound_of_mem_settingsOfBus hworkers hreplay hring) hkeys (by simp [settingsOfBus])⟩

/-- A printed configuration is read as the layer that names all of it. -/
theorem ofText?_of_text? (valid : config.Valid) (h : config.text? = some text) :
    ConfigLayer.ofText? text = some config.layer := by
  obtain ⟨sessionLimit, workers, maxReplay, ringCapacity, hread⟩ := read?_of_text? h
  have hnat (n : Nat) : ConfigLayer.readNat? (.integer n) = some n := rfl
  rw [ConfigLayer.ofText?, hread]
  cases hlog : config.logFile? <;>
    simp [hlog, settingsOnTop, settingsOfBus, Toml.Setting.held, ConfigLayer.ofEntries?,
      ConfigLayer.ofBus?, ConfigLayer.ofBusValues?, ConfigLayer.setting?, Toml.lookup, hnat,
      ConfigLayer.readString?, ConfigLayer.readAddress?, ConfigLayer.readSpan?,
      Address.read?_text valid.listen, Span.read?_text valid.consumerTimeout,
      Span.read?_text valid.workersTimeout, layer]

theorem overlay_layer {base : Config} (h : base.logFile? = none) :
    base.overlay config.layer = config := by
  simp [overlay, layer, h]

end Documents

/-- Each setting is what the flags say, else what the file says, else what it was. -/
structure Layered (config base : Config) (flags file : ConfigLayer) : Prop where
  listen : config.listen = (flags.listen?.or file.listen?).getD base.listen
  topic : config.topic = (flags.topic?.or file.topic?).getD base.topic
  sessionLimit : config.sessionLimit =
    (flags.sessionLimit?.or file.sessionLimit?).getD base.sessionLimit
  logFile : config.logFile? = (flags.logFile?.or file.logFile?).or base.logFile?
  workers : config.workers = (flags.workers?.or file.workers?).getD base.workers
  maxReplay : config.maxReplay = (flags.maxReplay?.or file.maxReplay?).getD base.maxReplay
  consumerTimeout : config.consumerTimeout =
    (flags.consumerTimeout?.or file.consumerTimeout?).getD base.consumerTimeout
  workersTimeout : config.workersTimeout =
    (flags.workersTimeout?.or file.workersTimeout?).getD base.workersTimeout
  ringCapacity : config.ringCapacity =
    (flags.ringCapacity?.or file.ringCapacity?).getD base.ringCapacity

theorem layered_overlay_overlay (base : Config) (file flags : ConfigLayer) :
    ((base.overlay file).overlay flags).Layered base flags file := by
  have htwo {α : Type} (first second : Option α) (fallback : α) :
      first.getD (second.getD fallback) = (first.or second).getD fallback := by
    cases first <;> rfl
  have htwoOr {α : Type} (first second fallback : Option α) :
      first.or (second.or fallback) = (first.or second).or fallback := by
    cases first <;> rfl
  exact ⟨htwo .., htwo .., htwo .., htwoOr .., htwo .., htwo .., htwo .., htwo .., htwo ..⟩

/-- Text that is printed from a configuration, read as a file in place of another, gives it back
with no flags at all, and with the flags that it already followed from. -/
theorem load_printed {config : Config} {flags : ConfigLayer} {text : String} (valid : config.Valid)
    (hbounds : config.workers ≤ maxWorkers ∧ config.ringCapacity ≤ maxRingCapacity)
    (hflags : config.overlay flags = config) (h : config.text? = some text) (processors : Nat)
    {files : Files} {path : String} (hfile : files path = .ok (Utf8.encode text.toList)) :
    load processors files (some path) flags = .ok config := by
  have hlayer : readLayer files (some path) = .ok config.layer := by
    simp [readLayer, readText, hfile, Utf8.decode_eq_ok_iff.mpr rfl, ofText?_of_text? valid h]
  refine load_eq_ok_iff.mpr ⟨_, hlayer, ?_, hbounds⟩
  rw [overlay_layer rfl, hflags]

/-- What is loaded from a command line and perhaps a file has each setting from the flags, else from
the file, else by default, with both bounds kept wherever a setting came from. If it can be printed
and the text then stands in a file, loading that gives the same configuration back, whatever the
defaults are there, with no other flags as well as with the same flags again, and so the same
text. -/
theorem printed_loads_back {processors : Nat} {files : Files} {args : List String}
    {flags : Cli.Flags} {config : Config} (hargs : Cli.read args = .ok flags)
    (hload : load processors files flags.config? flags.layer = .ok config) :
    (∃ file, readLayer files flags.config? = .ok file ∧
      config.Layered (initial processors) flags.layer file) ∧
    config.workers ≤ maxWorkers ∧ config.ringCapacity ≤ maxRingCapacity ∧
    ∀ text, config.render = .ok text →
      ∀ (others : Nat) (written : Files) (path : String),
        written path = .ok (Utf8.encode text.toList) →
        ∀ again ∈ [.empty, flags.layer],
          load others written (some path) again = .ok config ∧
            (load others written (some path) again).bind render = .ok text := by
  obtain ⟨file, hfile, hconfig, hworkers, hring⟩ := load_eq_ok_iff.mp hload
  have valid : config.Valid := by
    rw [hconfig]
    exact ((valid_initial processors).overlay (valid_of_readLayer hfile)).overlay
      (Cli.valid_of_read hargs)
  refine ⟨⟨file, hfile, hconfig ▸ layered_overlay_overlay _ _ _⟩, hworkers, hring, ?_⟩
  intro text hrender others written path hwritten again hagain
  have htext : config.text? = some text := by
    unfold render at hrender
    split at hrender
    next htext =>
      cases hrender
      exact htext
    next => cases hrender
  have hkept : config.overlay again = config := by
    simp only [List.mem_cons, List.not_mem_nil, or_false] at hagain
    rcases hagain with rfl | rfl
    · exact overlay_empty config
    · rw [hconfig, overlay_overlay]
  have hback := load_printed valid ⟨hworkers, hring⟩ hkept htext others hwritten
  refine ⟨hback, ?_⟩
  rw [hback]
  exact hrender

/-- An address with a zone, a topic over two lines with both kinds of marks in it, a length of time
in two units, and a log file from a file that does not name the rest. -/
theorem flags_and_file_load_back :
    let args := ["--listen", "[fe80::1%3]:80", "--topic", "a\"b\nc'", "--workers-timeout=1min 2ns",
      "--config", "f"]
    let files : Files := fun _ => .ok (Utf8.encode "log_file = 'x'\n[bus]\nworkers = 7\n".toList)
    ∃ flags config text, Cli.read args = .ok flags ∧
      load 2 files flags.config? flags.layer = .ok config ∧
      config.workers = 7 ∧ config.topic = "a\"b\nc'" ∧ config.workersTimeout = ⟨60, 2⟩ ∧
      config.render = .ok text ∧
      load 3 (fun _ => .ok (Utf8.encode text.toList)) (some "printed") .empty = .ok config := by
  intro args files
  let layer : ConfigLayer := { ConfigLayer.empty with
    listen? := some (.v6 [0xFE80, 0, 0, 0, 0, 0, 0, 1] 3 80), topic? := some "a\"b\nc'",
    workersTimeout? := some ⟨60, 2⟩ }
  let file : ConfigLayer := { ConfigLayer.empty with logFile? := some "x", workers? := some 7 }
  have hargs : Cli.read args = .ok ⟨some "f", layer, false, false⟩ := by decide +kernel
  have htext : ConfigLayer.ofText? "log_file = 'x'\n[bus]\nworkers = 7\n" = some file := by
    decide +kernel
  have hfile : readLayer files (some "f") = .ok file := by
    simp [readLayer, readText, files, Utf8.decode_eq_ok_iff.mpr rfl, htext]
  have hload : load 2 files (some "f") layer = .ok (((initial 2).overlay file).overlay layer) :=
    load_eq_ok_iff.mpr ⟨file, hfile, rfl, by decide, by decide⟩
  obtain ⟨-, -, -, hback⟩ := printed_loads_back hargs hload
  obtain ⟨text, hrender⟩ :
      ∃ text, (((initial 2).overlay file).overlay layer).render = .ok text := ⟨_, rfl⟩
  exact ⟨_, _, text, hargs, hload, rfl, rfl, rfl, hrender,
    (hback text hrender 3 _ "printed" rfl .empty List.mem_cons_self).1⟩

end EventBus.Config
