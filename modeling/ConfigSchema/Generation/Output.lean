import ConfigSchema.Files.Writing
import ConfigSchema.Generation.Artifacts

/-!
# Writing artifacts

The artifacts are written one after the other: the document, the type declarations, and the
fragments in their order.  The first write that fails ends this, and what was written before it
stays.
-/

namespace ConfigSchema

/-- Where artifacts go; what has no place is not made. -/
structure Targets where
  json : Path
  typings : Option Path := none
  docs : Option Path := none
  deriving DecidableEq, Inhabited

/-- What has to be made for the places that there are. -/
def Targets.demand (targets : Targets) : Demand :=
  { docs := targets.docs.isSome, typings := targets.typings.isSome }

structure PlannedFile where
  path : Path
  content : String
  /-- Whether the content is checked before it takes its place. -/
  isChecked : Bool := false
  deriving DecidableEq, Inhabited

inductive RunError where
  | generation (cause : GenerationError)
  | writing (cause : WriteError)
  deriving Inhabited

def RunError.message [Runtime] : RunError → Option String
  | .generation cause => cause.message
  | .writing cause => cause.message

structure Run (α : Type) where
  files : FileSystem
  trail : List Event
  result : Except RunError α

namespace Generation

/-- The files that artifacts are written to, in order. -/
def plan (targets : Targets) (artifacts : Artifacts) : List PlannedFile :=
  { path := targets.json, content := artifacts.text, isChecked := true } ::
    ((targets.typings.bind fun path => artifacts.typings.map fun content =>
        ({ path, content } : PlannedFile)).toList ++
      ((targets.docs.map fun folder => artifacts.fragments.map fun fragment =>
        ({ path := folder.join (Path.ofText fragment.file), content := fragment.content } :
          PlannedFile)).getD []))

/-- Writes files in order, up to the first that cannot be written. -/
def writeAll [Runtime] (medium : Medium) (files : FileSystem) : List PlannedFile → Run Unit
  | [] => { files, trail := [], result := .ok () }
  | file :: rest =>
      match Files.write medium files file.path file.content file.isChecked with
      | (files, some e) => { files, trail := [], result := .error (.writing e) }
      | (files, none) =>
          let run := writeAll medium files rest
          { run with
            trail := .logged ⟨.info, .writer, "Wrote " ++ file.path.toText⟩ :: run.trail }

/-- Makes the artifacts of a graph and writes them.  A failure to make them leaves the files as
they are. -/
def write [Runtime] (medium : Medium) (tools : Toolbox) (files : FileSystem) (graph : TypeGraph)
    (settings : Settings) (targets : Targets) : Run Artifacts :=
  let made := generate tools graph settings targets.demand
  match made.result with
  | .error e => { files, trail := made.trail, result := .error (.generation e) }
  | .ok artifacts =>
      let run := writeAll medium files (plan targets artifacts)
      { files := run.files
        trail := made.trail ++ run.trail
        result := run.result.map fun _ => artifacts }

/-- Loads the graph of sources, makes its artifacts and writes them. -/
def run [Runtime] (medium : Medium) (tools : Toolbox) (files : FileSystem) (web : Web)
    (settings : Settings) (sources : List String) (targets : Targets) : Run Artifacts :=
  let loaded := load files web settings sources
  match loaded.result with
  | .error e => { files, trail := loaded.trail, result := .error (.generation e) }
  | .ok graph =>
      let run := write medium tools files graph settings targets
      { run with trail := loaded.trail ++ run.trail }

end Generation

end ConfigSchema
