import ConfigSchema.CommandLine.Invocation
import ConfigSchema.Generation.Output

/-!
# Runs of the command line

A run reads its settings, loads the sources, and writes what it makes.  It ends with status zero,
with one if something fails, and with two if its arguments make no invocation.
-/

namespace ConfigSchema

inductive CommandError where
  /-- The settings are a folder. -/
  | settingsFolder (path : Path)
  | settingsUndecodable (path : Path)
  | settingsNotJson (path : Path)
  | settingsBeyond (limit : Json.Limit)
  | settings (cause : SettingsFault)
  /-- A path cannot be looked up. -/
  | unnamable (fault : NameFault)
  | run (cause : RunError)
  deriving Inhabited

def CommandError.message [Runtime] : CommandError → Option String
  | .run cause => cause.message
  | _ => none

structure CommandOutcome where
  exitCode : Nat
  failure : Option CommandError := none
  /-- The lines that are shown of the log. -/
  log : List String := []
  files : FileSystem

namespace CommandLine

def settingsAt [Runtime] (files : FileSystem) (path : Path) : Except CommandError Settings :=
  match files.content? path with
  | none => .error (.settingsFolder path)
  | some content =>
      match Text.decoded? content with
      | none => .error (.settingsUndecodable path)
      | some text =>
          match Json.read text .settings with
          | .error .malformed => .error (.settingsNotJson path)
          | .error (.beyond limit) => .error (.settingsBeyond limit)
          | .ok value => (Settings.ofJson value).mapError .settings

/-- The settings of an invocation; a root type that it names counts before theirs. -/
def settingsOf [Runtime] (files : FileSystem) (invocation : Invocation) :
    Except CommandError Settings :=
  let settings := match invocation.settings with
    | some path => settingsAt files path
    | none => .ok {}
  settings.map fun settings =>
    match invocation.rootType with
    | some name => { settings with rootType := .str name }
    | none => settings

def targetsOf (invocation : Invocation) : Targets :=
  { json := invocation.json, typings := invocation.typings, docs := invocation.docs }

def logOf (trail : List Event) : Log :=
  trail.filterMap fun
    | .logged entry => some entry
    | .requested _ => none

def perform [Runtime] (medium : Medium) (tools : Toolbox) (files : FileSystem) (web : Web)
    (invocation : Invocation) : CommandOutcome :=
  match settingsOf files invocation with
  | .error e => { exitCode := 1, failure := some e, files }
  | .ok settings =>
      let run := Generation.run medium tools files web settings invocation.sources
        (targetsOf invocation)
      let log := (logOf run.trail).lines invocation.isVerbose
      match run.result with
      | .ok _ => { exitCode := 0, log, files := run.files }
      | .error e => { exitCode := 1, failure := some (.run e), log, files := run.files }

def execute [Runtime] (medium : Medium) (tools : Toolbox) (files : FileSystem) (web : Web)
    (arguments : List String) : CommandOutcome :=
  match meaning files arguments with
  | .help => { exitCode := 0, files }
  | .misgiven .misuse => { exitCode := 2, files }
  | .misgiven (.unnamable fault) => { exitCode := 1, failure := some (.unnamable fault), files }
  | .invoke invocation => perform medium tools files web invocation

end CommandLine

end ConfigSchema
