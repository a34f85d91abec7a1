import ConfigSchema.Introspection.Document
import ConfigSchema.Introspection.Reader
import ConfigSchema.Log
import ConfigSchema.Marks
import ConfigSchema.Schema.Graph
import ConfigSchema.Schema.OfDocument
import ConfigSchema.Sdl.Merge
import ConfigSchema.Sources.Origin
import ConfigSchema.Sources.Web
import ConfigSchema.Text.Newline
import ConfigSchema.Traced

/-!
# Loading

Every source is read into documents; the documents are merged behind the one that defines the
marks, and the merged document has to have a schema.  The schema gives the type graph.
-/

namespace ConfigSchema

inductive Event where
  | logged (entry : LogEntry)
  | requested (request : Request)
  deriving Inhabited

/-- The surroundings that sources are read in. -/
structure Surroundings where
  files : FileSystem
  web : Web
  asking : Asking

abbrev Loading := Traced Event LoadError

namespace Sources

def log (level : LogLevel) (source : LogSource) (text : String) : Event :=
  .logged ⟨level, source, text⟩

/-! ## Documents -/

def documentOfText [Runtime] (origin text : String) : Except LoadError Sdl.Document :=
  match Sdl.parse? text with
  | some document => .ok document
  | none => .error (.unparsed origin)

/-- The part of a value that describes a schema. -/
def describing (value : Json) : Json :=
  (value.get? "data").getD value

def documentOfValue [Runtime] (origin : String) (value : Json) : Except LoadError Sdl.Document :=
  match value with
  | .obj _ =>
      match Introspection.read (describing value) with
      | .error .malformed => .error (.malformed origin)
      | .error .notAnObject => .error (.partless origin)
      | .ok schema =>
          match Introspection.Document.definitions schema with
          | .error cause => .error (.inexpressible origin cause)
          | .ok definitions =>
              match Introspection.Document.ofDefinitions? schema definitions with
              | some document => .ok document
              | none => .error (.unparsed origin)
  | _ => .error (.notAnObject origin value)

def documentOfFile [Runtime] (files : FileSystem) (path : Path) : Except LoadError Sdl.Document :=
  match files.content? path with
  | none => .error (.unreadable path)
  | some content =>
      match Text.decoded? content with
      | none => .error (.undecodable path.toText)
      | some text =>
          if path.suffix = jsonSuffix then
            match Json.read text .schema with
            | .error .malformed => .error (.notJson path)
            | .error (.beyond limit) => .error (.beyond limit)
            | .ok value => documentOfValue path.toText value
          else documentOfText path.toText text

def unansweredBy (url : String) : Unanswered → LoadError
  | .failed => .unfetched url
  | .undecodable => .undecodable url
  | .unencodable => .unencodable url
  | .beyond limit => .beyond limit

def documentOfReply [Runtime] (url : String) (reply : Reply) : Except LoadError Sdl.Document :=
  match reply.value with
  | .error cause => .error (unansweredBy url cause)
  | .ok value =>
      match value.get? "errors" with
      | some errors =>
          if errors.isTruthy then .error (.refused url errors) else documentOfValue url value
      | none => documentOfValue url value

def documentOf [Runtime] (around : Surroundings) : Origin → Except LoadError Sdl.Document
  | .url address => documentOfReply address (around.web address)
  | .file path => documentOfFile around.files path
  | .inline text => documentOfText "<inline>" text

/-- What is done before the document of an origin is known. -/
def opening (around : Surroundings) : Origin → List Event
  | .url address =>
      [log .info .loader ("Fetching schema from " ++ address),
        .requested { url := address, asking := around.asking }]
  | .file path => [log .info .loader ("Loading schema file " ++ path.toText)]
  | .inline _ => []

/-! ## Merging -/

def marks : Sdl.Document :=
  [.directive { name := docsDirective, locations := [.object] },
    .directive { name := openDirective, locations := [.object] }]

def merged (documents : List Sdl.Document) : Except LoadError Sdl.Document :=
  (Sdl.merge (marks :: documents)).mapError .conflict

def schemaOf [Runtime] (document : Sdl.Document) : Except LoadError Schema :=
  match Schema.ofDocument? document with
  | some schema => .ok schema
  | none => .error .invalid

/-! ## Sources -/

def documents [Runtime] (around : Surroundings) (source : String) : Loading (List Sdl.Document) :=
    do
  let origins ← originsOf around.files source
  origins.mapM fun origin => do
    Traced.leave (opening around origin)
    documentOf around origin

/-- Reads sources in order and makes one schema of all that they define. -/
def load [Runtime] (around : Surroundings) (sources : List String) : Loading Schema := do
  let documents := (← sources.mapM (documents around)).flatten
  Traced.leave ((Sdl.repeatedTypes (marks :: documents)).map fun type =>
    log .debug .loader ("Skipping duplicate definition of " ++ type))
  let schema ← schemaOf (← merged documents)
  Traced.leave [log .info .loader
    ("Loaded schema with " ++ toString schema.orderedTypes.length ++ " types")]
  return schema

def graph [Runtime] (around : Surroundings) (sources : List String) : Loading TypeGraph := do
  let graph := (← load around sources).toGraph
  Traced.leave [log .debug .builder
    ("Built type graph with " ++ toString graph.types.length ++ " types")]
  return graph

end Sources

end ConfigSchema
