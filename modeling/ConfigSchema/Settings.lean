import ConfigSchema.Json.Basic

/-!
# Settings

Settings are taken from a document as they are; what a value means is decided where it is used.
Names that are no settings are passed over, but a few names stand for what settings are made of:
one replaces all settings at once, two cannot be set, and one takes the place of the listing.
-/

namespace ConfigSchema

/-- The command that turns a document into type declarations unless another one is set. -/
def Settings.defaultTypingsCommand : List String :=
  ["datamodel-codegen", "--input-file-type", "jsonschema", "--class-name", "Config"]

/-- Why settings cannot be taken from a document, set or listed. -/
inductive SettingsFault where
  /-- The document is no object. -/
  | notAnObject
  /-- A value is no value that its name can have. -/
  | mistyped (name : String)
  | readOnly (name : String)
  /-- The listing was replaced by a value. -/
  | unlistable
  /-- There is no typings command. -/
  | commandless
  deriving DecidableEq, Inhabited

structure Settings where
  /-- The object type whose fields become the top-level properties. -/
  rootType : Json := .str "Query"
  title : Json := .str "Config"
  schemaUri : Json := .str "http://json-schema.org/draft-04/schema#"
  /-- Whether enums and variants carry a note that lists them. -/
  describeVariants : Json := .bool false
  /-- Whether an unknown root type gives an empty top level instead of an error. -/
  allowMissingRoot : Json := .bool false
  /-- What follows the type name in the name of a documentation file. -/
  markdownSuffix : Json := .str ".generated.md"
  indent : Json := .int 2
  /-- The typings command; it goes missing where all settings are replaced without one. -/
  typingsCommand : Option Json := some (Json.texts Settings.defaultTypingsCommand)
  fetchTimeout : Json := .float (.ofDecimal false 30 0)
  isListable : Bool := true
  deriving Inhabited

namespace Settings

/-- Gives a setting a value. -/
def put (settings : Settings) (name : String) (value : Json) : Settings :=
  match name with
  | "root_type" => { settings with rootType := value }
  | "title" => { settings with title := value }
  | "schema_uri" => { settings with schemaUri := value }
  | "describe_variants" => { settings with describeVariants := value }
  | "allow_missing_root" => { settings with allowMissingRoot := value }
  | "markdown_suffix" => { settings with markdownSuffix := value }
  | "indent" => { settings with indent := value }
  | "typings_command" => { settings with typingsCommand := some value }
  | "fetch_timeout" => { settings with fetchTimeout := value }
  | "to_dict" => { settings with isListable := false }
  | _ => settings

/-- The settings that are given by these values and no others. -/
def replaced (values : Entries Json) : Settings :=
  values.foldl (fun settings entry => settings.put entry.1 entry.2) { typingsCommand := none }

def set (settings : Settings) (name : String) (value : Json) : Except SettingsFault Settings :=
  match name, value with
  | "__dict__", .obj values => .ok (replaced values)
  | "__dict__", _ => .error (.mistyped name)
  | "__class__", _ => .error (.mistyped name)
  | "__weakref__", _ => .error (.readOnly name)
  | name, value => .ok (settings.put name value)

/-- Sets values in order up to the first that cannot be set; what was set before it stays. -/
def setAll (settings : Settings) : List (String × Json) → Settings × Option SettingsFault
  | [] => (settings, none)
  | (name, value) :: rest =>
      match settings.set name value with
      | .ok settings => settings.setAll rest
      | .error fault => (settings, some fault)

/-- Sets a value of a document, unless there is no such setting. -/
def take (settings : Settings) (entry : String × Json) : Except SettingsFault Settings :=
  if entry.1 = "typings_command" && settings.typingsCommand.isNone then .ok settings
  else settings.set entry.1 entry.2

/-- The settings of a document. -/
def ofJson : Json → Except SettingsFault Settings
  | .obj entries => entries.foldlM take {}
  | _ => .error .notAnObject

/-- Lists all settings. -/
def toJson (settings : Settings) : Except SettingsFault Json :=
  if settings.isListable then
    match settings.typingsCommand with
    | none => .error .commandless
    | some command =>
        .ok (.obj [("root_type", settings.rootType), ("title", settings.title),
          ("schema_uri", settings.schemaUri), ("describe_variants", settings.describeVariants),
          ("allow_missing_root", settings.allowMissingRoot),
          ("markdown_suffix", settings.markdownSuffix), ("indent", settings.indent),
          ("typings_command", command), ("fetch_timeout", settings.fetchTimeout)])
  else .error .unlistable

end Settings

end ConfigSchema
