import ConfigSchema.CommandLine.Argument
import ConfigSchema.Files.FileSystem
import ConfigSchema.Files.Name

/-!
# Invocations

The arguments make an invocation if sources and a place for the document are given, and every
path can be what it has to be: a file may be missing but must not be a folder, the folder of the
fragments must not be a file, and the settings must be there.  The options are looked at in the
order in which they first stand on the command line, and what is not given last; the first that
fails decides.
-/

namespace ConfigSchema

structure Invocation where
  sources : List String
  json : Path
  rootType : Option String := none
  typings : Option Path := none
  docs : Option Path := none
  settings : Option Path := none
  isVerbose : Bool := false
  deriving DecidableEq, Inhabited

/-- Why arguments make no invocation. -/
inductive Misgiven where
  /-- They are not what the command takes. -/
  | misuse
  /-- A path cannot be looked up. -/
  | unnamable (fault : NameFault)
  deriving DecidableEq, Inhabited

inductive Meaning where
  | help
  | misgiven (cause : Misgiven)
  | invoke (invocation : Invocation)
  deriving DecidableEq, Inhabited

namespace CommandLine

/-- The path from the top of the file system that a text names; a double dot takes away the name
before it. -/
def resolved (files : FileSystem) (text : String) : Path :=
  let path := Path.ofText text
  { root := "/", parts := Path.folded (files.start path ++ path.parts) }

/-- The sources in the order in which they are loaded: the values of the option, and the plain
arguments behind them. -/
def sourcesOf (given : List Given) : List String :=
  values .schema given ++ plains given

/-- Whether a path can be what an option takes it for. -/
def isFeasible (files : FileSystem) (option : CommandOption) (path : Path) : Bool :=
  match option with
  | .json => !files.isFolder path
  | .typings => !files.isFolder path
  | .docs => !files.isFile path
  | .settings => (files.node? path).isSome
  | _ => true

def isPath : CommandOption → Bool
  | .json | .typings | .docs | .settings => true
  | _ => false

/-- Whether the command cannot do without an option. -/
def isRequired : CommandOption → Bool
  | .schema | .json => true
  | _ => false

/-- Looks at the value of an option that counts. -/
def check [Runtime] (files : FileSystem) (given : List Given) (option : CommandOption) :
    Except Misgiven Unit :=
  match value? option given with
  | none => if isRequired option then .error .misuse else .ok ()
  | some text =>
      if !isPath option then .ok ()
      else
        match (Path.ofText text).parts.findSome? Files.nameFault? with
        | some fault => .error (.unnamable fault)
        | none =>
            if isFeasible files option (resolved files text) then .ok () else .error .misuse

/-- All options: those that are given in the order in which they first are, then the others. -/
def lookedAt (given : List Given) : List CommandOption :=
  (given.filterMap Given.option? ++ CommandOption.all).eraseDups

/-- The invocation of arguments that pass all checks. -/
def invocationOf (files : FileSystem) (given : List Given) : Invocation :=
  let path (option : CommandOption) : Option Path := (value? option given).map (resolved files)
  { sources := sourcesOf given
    json := (path .json).getD {}
    rootType := value? .rootType given
    typings := path .typings
    docs := path .docs
    settings := path .settings
    isVerbose := hasFlag .verbose given }

def meaning [Runtime] (files : FileSystem) (arguments : List String) : Meaning :=
  match read? arguments with
  | none => .misgiven .misuse
  | some given =>
      if hasFlag .help given then .help
      else
        match (lookedAt given).forM (check files given) with
        | .ok _ => .invoke (invocationOf files given)
        | .error cause => .misgiven cause

end CommandLine

end ConfigSchema
