import ConfigSchema.Text.Parts

/-!
# Paths

A path names a place by the names on the way to it.  Empty names and single dots say nothing and
are dropped; double dots stay, for they lead up only where there is a folder.
-/

namespace ConfigSchema

/-- A path from the top of the file system, if it has a root, or from the working folder. -/
structure Path where
  /-- Empty, one slash, or two of them. -/
  root : String := ""
  parts : List String := []
  deriving DecidableEq, Inhabited

namespace Path

/-- The root of a text that starts with a number of slashes. -/
def rootOf (slashes : Nat) : String :=
  if slashes = 0 then "" else if slashes = 2 then "//" else "/"

def isPart (name : String) : Bool :=
  name ≠ "" && name ≠ "."

def ofText (text : String) : Path :=
  { root := rootOf (text.toList.takeWhile (· = '/')).length
    parts := (Text.parts '/' text).filter isPart }

theorem ofText_of_notMem {text : String} (htext : '/' ∉ text.toList) (hpart : isPart text = true) :
    ofText text = { parts := [text] } := by
  have hslashes : text.toList.takeWhile (· = '/') = [] := by
    cases hletters : text.toList with
    | nil => rfl
    | cons c rest =>
        rw [hletters] at htext
        have hc : c ≠ '/' := fun heq => htext (heq ▸ List.mem_cons_self)
        rw [List.takeWhile_cons_of_neg (by simpa using hc)]
  have hparts : Text.parts '/' text = [text] := by
    rw [Text.parts, Text.cut_of_notMem htext, List.map_singleton, String.ofList_toList]
  rw [ofText, hslashes, hparts, List.filter_cons_of_pos hpart]
  rfl

def toText (path : Path) : String :=
  let text := path.root ++ "/".intercalate path.parts
  if text = "" then "." else text

def isAbsolute (path : Path) : Bool :=
  path.root ≠ ""

def name (path : Path) : String :=
  path.parts.getLast?.getD ""

/-- The path of the folder that holds the place of a path. -/
def folder (path : Path) : Path :=
  { path with parts := path.parts.dropLast }

/-- The place that a path leads to from the place of another one. -/
def join (base path : Path) : Path :=
  if path.isAbsolute then path else { base with parts := base.parts ++ path.parts }

/-- The end of a name from its last dot, if something stands in front of it and behind it. -/
def suffixOf (name : String) : String :=
  let tail := name.toList.reverse.takeWhile (· ≠ '.')
  let front := name.toList.reverse.dropWhile (· ≠ '.')
  if tail.isEmpty || front.length ≤ 1 then "" else String.ofList ('.' :: tail.reverse)

def suffix (path : Path) : String :=
  suffixOf path.name

/-- The names of a path in which every double dot has taken away the name before it. -/
def folded (parts : List String) : List String :=
  parts.foldl (fun done name => if name = ".." then done.dropLast else done ++ [name]) []

end Path

end ConfigSchema
