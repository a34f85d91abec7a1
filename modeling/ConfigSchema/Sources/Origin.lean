import ConfigSchema.Files.Pattern
import ConfigSchema.Sources.Error
import ConfigSchema.Text.Blank

/-!
# Origins

A source names where definitions come from: the address of a service, a pattern of files, a file,
or the definitions themselves.  A source that looks like the name of a file has to be one.
-/

namespace ConfigSchema

inductive Origin where
  | url (address : String)
  | file (path : Path)
  | inline (text : String)
  deriving DecidableEq, Inhabited

namespace Sources

def isUrl (source : String) : Bool :=
  "http://".toList.isPrefixOf source.toList || "https://".toList.isPrefixOf source.toList

/-- Whether a source holds a block of the language, and so is no pattern. -/
def hasBrace (source : String) : Bool :=
  source.toList.contains '\x7b'

def jsonSuffix : String := ".json"

/-- The suffixes of files that hold definitions. -/
def suffixes : List String := [".graphql", ".gql", ".graphqls", jsonSuffix]

/-- The failure of a pattern that cannot be followed. -/
def unfollowed (pattern : String) : Files.PatternFault → LoadError
  | .unnamable fault => .unnamable pattern fault
  | .tooDeep => .beyond .depth

/-- The origins that a source names, in order. -/
def originsOf [Runtime] (files : FileSystem) (source : String) : Except LoadError (List Origin) :=
  let path := Path.ofText source
  if isUrl source then .ok [.url source]
  else if Files.Glyph.isPattern source && !hasBrace source then
    match Files.pathsOf files source with
    | .error fault => .error (unfollowed source fault)
    | .ok [] => .error (.noMatch source)
    | .ok paths => .ok (paths.map .file)
  else if files.isFile path then .ok [.file path]
  else if suffixes.contains path.suffix then .error (.missing source)
  else if (Text.words source).length ≤ 1 && !hasBrace source then .error (.notASource source)
  else .ok [.inline source]

end Sources

end ConfigSchema
