import ConfigSchema.Files.FileSystem
import ConfigSchema.Files.Name
import ConfigSchema.Json.Reader

/-!
# Writing a file at once

A file is written beside its target under a temporary name, checked, and only then moved to the
target, so a reader finds the old content or the new one and never a part of it.  Every step may
fail.  A failure leaves the folders that were made on the way, and the temporary file only if that
cannot be taken away again.
-/

namespace ConfigSchema

inductive FileOperation where
  | makeFolder (location : Location)
  | createFile (location : Location)
  | fillFile (location : Location)
  | moveFile (source target : Location)
  | removeFile (location : Location)
  deriving DecidableEq, Inhabited

/-- The medium of a file system may refuse operations for reasons of its own. -/
structure Medium where
  refuses : FileOperation → Bool := fun _ => false
  /-- What is in a file after its filling has been refused. -/
  remains : Location → ByteArray := fun _ => .empty

inductive WriteError where
  | refused (path : Path)
  | unnamable (path : Path) (fault : NameFault)
  /-- Too many folders are missing on the way. -/
  | tooFar (path : Path)
  /-- The content has no bytes. -/
  | unencodable (path : Path)
  | notJson
  | notAnObject
  | beyond (limit : Json.Limit)
  /-- After a failure the temporary file could not be taken away. -/
  | uncleared (temporary : Location)
  deriving DecidableEq, Inhabited

def WriteError.message : WriteError → Option String
  | .refused path => some ("Cannot write " ++ path.toText)
  | .unnamable _ _ => none
  | .tooFar _ => none
  | .unencodable _ => none
  | .beyond _ => none
  | .uncleared _ => none
  | .notJson => some "Generated JSON is not valid"
  | .notAnObject => some "Generated JSON Schema must be an object"

namespace Files

/-! ## Operations -/

def makeFolder [Runtime] (medium : Medium) (files : FileSystem) (folder : Location)
    (name : String) : Option FileSystem :=
  let location := folder ++ [name]
  if medium.refuses (.makeFolder location) || nameLimit < Text.byteCount name then none
  else some { files with root := FileNode.put (.folder []) files.root location }

/-- Follows names from a folder and makes the folders that are missing, the one that goes wrong
and those behind it left out. -/
def makeFolders [Runtime] (medium : Medium) (files : FileSystem) (folder : Location) :
    List String → FileSystem × Option Location
  | [] => (files, some folder)
  | name :: rest =>
      match files.step folder name with
      | some next =>
          if (files.root.at? next).any FileNode.isFolder then makeFolders medium files next rest
          else (files, none)
      | none =>
          match makeFolder medium files folder name with
          | some files => makeFolders medium files (folder ++ [name]) rest
          | none => (files, none)

/-- Follows names from a folder as far as there are folders; tells how many names are left, or that
something else is in the way. -/
def missingFrom (files : FileSystem) (folder : Location) : List String → Option Nat
  | [] => some 0
  | name :: rest =>
      match files.step folder name with
      | some next =>
          if (files.root.at? next).any FileNode.isFolder then missingFrom files next rest else none
      | none => some (rest.length + 1)

/-- Makes the folders on the way to a file.  Nothing is made if the path is too long or too many
folders are missing. -/
def makeWay [Runtime] (medium : Medium) (files : FileSystem) (path : Path) :
    FileSystem × Except WriteError Location :=
  let folder := path.folder
  if pathLimit < Text.byteCount folder.toText then (files, .error (.refused path))
  else if (missingFrom files (files.start path) folder.parts).any (Runtime.missingFolders < ·) then
    (files, .error (.tooFar path))
  else
    let (files, made) := makeFolders medium files (files.start path) folder.parts
    (files, made.elim (.error (.refused path)) .ok)

def temporaryName (name : String) (number : Nat) : String :=
  let digits := toString number
  "." ++ name ++ "." ++ "".pushn '0' (8 - digits.length) ++ digits ++ ".tmp"

/-- A temporary name that a folder has no entry of. -/
def freshName? (entries : Entries FileNode) (name : String) : Option String :=
  ((List.range (entries.length + 1)).map (temporaryName name)).find? fun candidate =>
    !entries.names.contains candidate

/-- Makes an empty file beside a path under a name that is free in the folder. -/
def createTemporary [Runtime] (medium : Medium) (files : FileSystem) (folder : Location)
    (path : Path) : Option (FileSystem × Location) := do
  let node ← files.root.at? folder
  let fresh ← freshName? node.entries path.name
  let location := folder ++ [fresh]
  let isTooLong := nameLimit < Text.byteCount fresh ||
    pathLimit < Text.byteCount (path.folder.toText ++ "/" ++ fresh)
  if !node.isFolder || medium.refuses (.createFile location) || isTooLong then none
  else some ({ files with root := FileNode.put (.file .empty) files.root location }, location)

def fill (files : FileSystem) (location : Location) (content : ByteArray) : FileSystem :=
  { files with root := FileNode.put (.file content) files.root location }

/-- The location of a name seen from a folder. -/
def targetOf (folder : Location) (name : String) : Location :=
  if name = "" then folder else if name = ".." then folder.dropLast else folder ++ [name]

/-- Moves a file to a location where no folder is. -/
def move (medium : Medium) (files : FileSystem) (source target : Location) :
    Option FileSystem := do
  let node ← files.root.at? source
  if medium.refuses (.moveFile source target) ||
      (files.root.at? target).any FileNode.isFolder then none
  else some { files with root := FileNode.put node (files.root.erase source) target }

def remove (files : FileSystem) (location : Location) : FileSystem :=
  { files with root := files.root.erase location }

/-- Takes a temporary file away after a failure. -/
def clear (medium : Medium) (files : FileSystem) (temporary : Location) (failure : WriteError) :
    FileSystem × Option WriteError :=
  if medium.refuses (.removeFile temporary) then (files, some (.uncleared temporary))
  else (remove files temporary, some failure)

/-! ## Writes -/

/-- What a document has to be. -/
def checkDocument [Runtime] (content : String) : Except WriteError Unit :=
  match Json.read content .check with
  | .error .malformed => .error .notJson
  | .error (.beyond limit) => .error (.beyond limit)
  | .ok (.obj _) => .ok ()
  | .ok _ => .error .notAnObject

/-- The bytes of a content. -/
def bytesOf [Runtime] (path : Path) (content : String) : Except WriteError ByteArray :=
  if Text.hasSurrogate content then .error (.unencodable path) else .ok content.toUTF8

/-- What is done under the temporary name: the content goes in, is checked, and is moved. -/
def complete [Runtime] (medium : Medium) (files : FileSystem) (temporary target : Location)
    (path : Path) (content : String) (isChecked : Bool) : FileSystem × Option WriteError :=
  match bytesOf path content with
  | .error e => clear medium files temporary e
  | .ok bytes =>
      if medium.refuses (.fillFile temporary) then
        clear medium (fill files temporary (medium.remains temporary)) temporary (.refused path)
      else
        let filled := fill files temporary bytes
        match if isChecked then checkDocument content else .ok () with
        | .error e => clear medium filled temporary e
        | .ok _ =>
            match move medium filled temporary target with
            | some files => (files, none)
            | none => clear medium filled temporary (.refused path)

/-- Writes a text to a path; gives what the file system becomes, and what went wrong. -/
def write [Runtime] (medium : Medium) (files : FileSystem) (path : Path) (content : String)
    (isChecked : Bool) : FileSystem × Option WriteError :=
  match nameFault? path.folder.toText with
  | some fault => (files, some (.unnamable path fault))
  | none =>
      match makeWay medium files path with
      | (files, .error e) => (files, some e)
      | (files, .ok folder) =>
          match nameFault? path.name with
          | some fault => (files, some (.unnamable path fault))
          | none =>
              match createTemporary medium files folder path with
              | none => (files, some (.refused path))
              | some (started, temporary) =>
                  complete medium started temporary (targetOf folder path.name) path content
                    isChecked

end Files

end ConfigSchema
