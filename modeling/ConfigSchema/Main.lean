import ConfigSchema.CommandLine.Outcome
import ConfigSchema.Typings.Toolbox

/-!
# The program

What the arguments name is read from disk, the command line runs on that, and the files that it
has made or changed are written back.  There is no way to ask services from here.
-/

open ConfigSchema

/-- How deep folders are read for patterns. -/
def depth : Nat := 32

/-- A file, or a folder with its contents down to a depth; what cannot be read is empty. -/
def treeOnDisk : (depth : Nat) → IO.FS.DirEntry → IO FileNode
  | 0, _ => return .folder []
  | depth + 1, entry => do
      try
        return .file (← IO.FS.readBinFile entry.path)
      catch _ =>
        try
          let entries ← entry.path.readDir
          return .folder (← entries.toList.mapM fun entry => do
            return (entry.fileName, ← treeOnDisk depth entry))
        catch _ => return .folder []

/-- What stands at a path on disk; a folder is shown without its contents. -/
def nodeOnDisk (path : String) : IO (Option FileNode) := do
  try
    return some (.file (← IO.FS.readBinFile path))
  catch
    | .inappropriateType .. => return some (.folder [])
    | _ => return none

def pathTexts (arguments : List String) : List String :=
  ((CommandLine.read? arguments).getD []).filterMap fun
    | .value _ text => some text
    | .plain text => some text
    | .flag _ => none

/-- The files that arguments name, as far as they are there, and all of the working folder if
there is a pattern among them. -/
def filesOnDisk (arguments : List String) : IO FileSystem := do
  let folder ← IO.currentDir
  let here := (Path.ofText (toString folder)).parts
  let start : FileSystem := { root := .folder [], here }
  let tree ← if (pathTexts arguments).any Files.Glyph.isPattern then treeOnDisk depth ⟨folder, "."⟩
    else pure (.folder [])
  let mut files := start.withNode here tree
  for text in pathTexts arguments do
    let path := CommandLine.resolved files text
    if (files.node? path).isNone then
      match ← nodeOnDisk path.toText with
      | some node => files := files.withNode path.parts node
      | none => pure ()
  return files

/-- Writes what is new or other than before. -/
def writeBack (before after : FileSystem) : IO Unit := do
  for (way, node) in FileNode.inside [] after.root do
    let path := ({ root := "/", parts := way } : Path).toText
    match node, (before.root.at? way).bind FileNode.content? with
    | .folder _, _ => if (before.root.at? way).isNone then IO.FS.createDirAll path
    | .file content, known =>
        if known.map ByteArray.toList ≠ some content.toList then
          let temporary := path ++ ".tmp"
          IO.FS.writeBinFile temporary content
          IO.FS.rename temporary path

def usage : String :=
  "Usage: --schema SOURCE --json FILE [--rootType NAME] [--typings FILE] [--md FOLDER] " ++
    "[--config FILE] [--verbose] [SOURCE ...]"

def main (arguments : List String) : IO UInt32 := do
  let files ← filesOnDisk arguments
  let outcome :=
    CommandLine.execute {} (Toolbox.standard files) files (fun _ => .unreachable) arguments
  for line in outcome.log do
    IO.eprintln line
  writeBack files outcome.files
  if let some e := outcome.failure then
    IO.eprintln ("Error: " ++ e.message.getD "the input cannot be used")
  else if CommandLine.meaning files arguments = .help then IO.println usage
  else if outcome.exitCode ≠ 0 then IO.eprintln usage
  return outcome.exitCode.toUInt32
