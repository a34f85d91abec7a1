import ConfigSchema.Entries
import ConfigSchema.Files.Path

/-!
# File systems

A file system is a finite tree of folders and files.  A location lists the names from the top of
the tree; a path finds a location by walking, and a walk goes on only through folders.
-/

namespace ConfigSchema

/-- What stands at a location. -/
inductive FileNode where
  | file (content : ByteArray)
  | folder (entries : List (String × FileNode))
  deriving Inhabited

abbrev Location := List String

/-- A tree, and the folder that relative paths start from. -/
structure FileSystem where
  root : FileNode
  here : Location := []
  deriving Inhabited

namespace FileNode

def isFolder : FileNode → Bool
  | .folder _ => true
  | .file _ => false

def content? : FileNode → Option ByteArray
  | .file content => some content
  | .folder _ => none

/-- The entries of a folder; a file has none. -/
def entries : FileNode → Entries FileNode
  | .folder entries => entries
  | .file _ => []

def at? : FileNode → Location → Option FileNode
  | node, [] => some node
  | node, name :: rest => (node.entries.get? name).bind fun child => child.at? rest

/-- Puts a node at a location in place of what is there; nothing happens where no folder can hold
it. -/
def put (new : FileNode) : FileNode → Location → FileNode
  | _, [] => new
  | .folder entries, [name] => .folder (Entries.put name new entries)
  | .folder entries, name :: next :: rest =>
      match Entries.get? name entries with
      | some child => .folder (Entries.put name (put new child (next :: rest)) entries)
      | none => .folder entries
  | .file content, _ :: _ => .file content

def erase : FileNode → Location → FileNode
  | node, [] => node
  | .folder entries, [name] => .folder (Entries.erase name entries)
  | .folder entries, name :: next :: rest =>
      match Entries.get? name entries with
      | some child => .folder (Entries.put name (child.erase (next :: rest)) entries)
      | none => .folder entries
  | .file content, _ :: _ => .file content

mutual

/-- Everything inside a node, each with its location; `base` is that of the node. -/
def inside (base : Location) : FileNode → List (Location × FileNode)
  | .file _ => []
  | .folder entries => insideEntries base entries

def insideEntries (base : Location) : List (String × FileNode) → List (Location × FileNode)
  | [] => []
  | (name, node) :: rest =>
      (base ++ [name], node) :: (inside (base ++ [name]) node ++ insideEntries base rest)

end

end FileNode

namespace FileSystem

/-- One step of a walk: up, or to an entry; only folders lead on. -/
def step (files : FileSystem) (location : Location) (name : String) : Option Location :=
  match files.root.at? location with
  | some (.folder entries) =>
      if name = ".." then some location.dropLast
      else if (Entries.get? name entries).isSome then some (location ++ [name])
      else none
  | _ => none

def start (files : FileSystem) (path : Path) : Location :=
  if path.isAbsolute then [] else files.here

def locate (files : FileSystem) (path : Path) : Option Location :=
  path.parts.foldlM files.step (files.start path)

def node? (files : FileSystem) (path : Path) : Option FileNode :=
  (files.locate path).bind files.root.at?

def content? (files : FileSystem) (path : Path) : Option ByteArray :=
  (files.node? path).bind FileNode.content?

def isFile (files : FileSystem) (path : Path) : Bool :=
  (files.content? path).isSome

def isFolder (files : FileSystem) (path : Path) : Bool :=
  (files.node? path).any FileNode.isFolder

/-- What stands at a location that may be missing. -/
def at? (files : FileSystem) (location : Option Location) : Option FileNode :=
  location.bind files.root.at?

/-- Everything inside the working folder, by the names from there. -/
def listing (files : FileSystem) : List (Location × FileNode) :=
  ((files.root.at? files.here).map (FileNode.inside [])).getD []

/-- Makes the folders on the way to a location and puts a node there. -/
def withNode (files : FileSystem) (location : Location) (node : FileNode) : FileSystem :=
  let ways := (List.range location.length).map location.take
  let root := ways.foldl (fun root way =>
    if (root.at? way).isSome then root else FileNode.put (.folder []) root way) files.root
  { files with root := node.put root location }

end FileSystem

end ConfigSchema
