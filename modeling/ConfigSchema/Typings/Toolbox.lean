import ConfigSchema.Runtime
import ConfigSchema.Text.Parts
import ConfigSchema.Typings.Shell

/-!
# The tools at hand

Every tool has a name, and stands under that name in the folders of the system.  The interpreter
that the program itself is run by is the usual one.
-/

namespace ConfigSchema

namespace Toolbox

def filters (files : FileSystem) : List (String × Program) :=
  [("cat", Filter.concatenate files), ("true", Filter.succeed), ("false", Filter.fail),
    ("head", Filter.first), ("tail", Filter.last), ("wc", Filter.count),
    ("tr", Filter.exchange), ("sort", Filter.sorted), ("tac", Filter.reversed),
    ("uniq", Filter.distinct), ("test", Filter.check files),
    ("[", Filter.checkBracketed files), ("echo", Format.plainEcho),
    ("printf", Format.formatted (Filter.misuse "printf" "missing operand")),
    ("sleep", Filter.wait)]

/-- The folders that hold the tools. -/
def folders : List (List String) := [["bin"], ["usr", "bin"]]

/-- The folders of the system that paths of programs may lead through. -/
def passages : List (List String) :=
  [[], ["usr"], ["usr", "local"], ["usr", "local", "bin"], ["usr", "lib"], ["usr", "sbin"],
    ["usr", "share"], ["sbin"], ["lib"], ["etc"], ["var"], ["tmp"], ["home"], ["root"], ["opt"],
    ["dev"], ["proc"], ["sys"], ["run"]] ++ folders

/-- Follows a path through folders of the system; single dots and empty names say nothing. -/
def follow (place : List String) (name : String) : Option (List String) :=
  if !passages.contains place then none
  else if name = "" || name = "." then some place
  else if name = ".." then some place.dropLast
  else some (place ++ [name])

/-- The name of the tool that a name or a path of a program means. -/
def named? (program : String) : Option String :=
  match Text.parts '/' program with
  | [name] => some name
  | "" :: names => do
      let place ← names.foldlM follow []
      let name ← place.getLast?
      if folders.contains place.dropLast && names.getLast? = some name then some name else none
  | _ => none

/-- A program that runs the one that its arguments name. -/
def runOther (tools : Toolbox) : Program := fun arguments input =>
  match arguments with
  | [] => { unread := input }
  | name :: arguments =>
      match tools name with
      | some program => program arguments input
      | none =>
          .failure 127 ("env: " ++ Filter.quoted name ++ ": No such file or directory\n") input

/-- The filters, and the programs that run others: shells, which see the files, and what runs its
arguments.  They may run each other as often as `depth` says. -/
def ofDepth (files : FileSystem) : Nat → Toolbox
  | 0 => fun program => (named? program).bind fun name => (filters files).lookup name
  | depth + 1 => fun program =>
      let tools := ofDepth files depth
      match named? program with
      | some "sh" => some (Shell.program .plain tools files program)
      | some "dash" => some (Shell.program .plain tools files program)
      | some "bash" => some (Shell.program .wordy tools files program)
      | some "env" => some (runOther tools)
      | some name => (filters files).lookup name
      | none => none

def standard (files : FileSystem) : Toolbox := ofDepth files 8

end Toolbox

attribute [instance] Runtime.usual

end ConfigSchema
