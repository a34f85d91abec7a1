import ConfigSchema.Files.Name
import ConfigSchema.Files.Path
import ConfigSchema.Json.Display
import ConfigSchema.Json.Reader
import ConfigSchema.Schema.Default

/-!
# Why loading fails

A source may name nothing, what it names may be out of reach or make no sense, and definitions
that make sense by themselves may not fit together.
-/

namespace ConfigSchema

/-- Why sources do not load.  An origin is given by the text that stands for it in messages. -/
inductive LoadError where
  | noMatch (pattern : String)
  | missing (source : String)
  | notASource (source : String)
  | unreadable (path : Path)
  /-- The bytes of an origin are no text. -/
  | undecodable (origin : String)
  /-- The body of a reply is a text that has no bytes. -/
  | unencodable (url : String)
  /-- A pattern leads through a name that cannot be looked up. -/
  | unnamable (pattern : String) (fault : NameFault)
  /-- A text, or the folders that a pattern leads down, have too much of something. -/
  | beyond (limit : Json.Limit)
  | notJson (path : Path)
  | unfetched (url : String)
  /-- A service answers a query with errors. -/
  | refused (url : String) (errors : Json)
  | notAnObject (origin : String) (value : Json)
  /-- An introspection result that describes no schema. -/
  | malformed (origin : String)
  /-- A value at the top of an introspection result is asked for parts that it cannot have. -/
  | partless (origin : String)
  /-- A default of an introspection result has no literal. -/
  | inexpressible (origin : String) (cause : Schema.Unwritable)
  | unparsed (origin : String)
  | conflict (type : String)
  | invalid
  deriving Inhabited

/-- The text of a message; some causes have none. -/
def LoadError.message [Runtime] : LoadError → Option String
  | .noMatch pattern => some ("No schema files match pattern: " ++ pattern)
  | .missing source => some ("Schema file not found: " ++ source)
  | .notASource source => some ("Schema source is not a file or valid SDL: " ++ source)
  | .unreadable path => some ("Cannot read schema file " ++ path.toText)
  | .undecodable _ => none
  | .unencodable _ => none
  | .unnamable _ _ => none
  | .beyond _ => none
  | .notJson path => some ("Invalid JSON in " ++ path.toText)
  | .unfetched url => some ("Cannot fetch schema from " ++ url)
  | .refused url errors =>
      some ("Introspection query failed for " ++ url ++ ": " ++ errors.display)
  | .notAnObject origin value =>
      some ("Invalid introspection result in " ++ origin ++ ": expected a JSON object, got " ++
        value.kindWord)
  | .malformed origin => some ("Invalid introspection result in " ++ origin)
  | .partless _ => none
  | .inexpressible _ _ => none
  | .unparsed origin => some ("Cannot parse schema " ++ origin)
  | .conflict type => some ("Conflicting definitions for type '" ++ type ++ "'")
  | .invalid => some "Invalid schema"

end ConfigSchema
