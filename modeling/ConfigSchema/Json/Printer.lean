import ConfigSchema.Json.Basic
import ConfigSchema.Decimal.Digits
import ConfigSchema.Decimal.Shortest
import ConfigSchema.Text.Surrogate

/-!
# Writing JSON

A document is written in ASCII.  Without an indentation it stands on one line; with one, every
item starts on a line of its own, and empty arrays and objects stay closed up.  A value that nests
too deep or has too long an integer is not written.
-/

namespace ConfigSchema

namespace Json

/-- How a document is broken into lines: not at all, or with a unit that is repeated once for
each level. -/
inductive Indentation where
  | oneLine
  | perLevel (unit : String)
  deriving DecidableEq

/-- Why a setting is no indentation. -/
inductive Unindentable where
  /-- It is neither a count nor a text. -/
  | kind
  /-- A count that is no machine word. -/
  | overflow
  /-- A count of blanks that there is no memory for. -/
  | tooWide
  deriving DecidableEq, Inhabited

/-- The blanks of a level; a count below zero adds none. -/
def Indentation.ofCount [Runtime] (n : Int) : Except Unindentable Indentation :=
  if n < -0x8000000000000000 ∨ 0x8000000000000000 ≤ n then .error .overflow
  else if !Runtime.affords n.toNat then .error .tooWide
  else .ok (.perLevel (String.ofList (List.replicate n.toNat ' ')))

/-- The indentation that a setting stands for: a count of blanks, or a text. -/
def Indentation.ofJson [Runtime] : Json → Except Unindentable Indentation
  | .null => .ok .oneLine
  | .bool b => .ok (.perLevel (if b then " " else ""))
  | .int n => Indentation.ofCount n
  | .str unit => .ok (.perLevel unit)
  | _ => .error .kind

namespace Printer

def hexDigits (width n : Nat) : String :=
  String.ofList (DecimalLayout.padded width (Nat.toDigits 16 n))

def unicodeEscape (unit : Nat) : String :=
  "\\u" ++ hexDigits 4 unit

/-- The form of a character inside a string. -/
def escapedChar [Runtime] (c : Char) : String :=
  if c = '"' then "\\\""
  else if c = '\\' then "\\\\"
  else if c = '\n' then "\\n"
  else if c = '\r' then "\\r"
  else if c = '\t' then "\\t"
  else if c = '\x08' then "\\b"
  else if c = '\x0c' then "\\f"
  else if ' ' ≤ c ∧ c ≤ '~' then c.toString
  else if Text.isSurrogate c then unicodeEscape (Text.codeOf c)
  else if c.toNat < 0x10000 then unicodeEscape c.toNat
  else
    let offset := c.toNat - 0x10000
    unicodeEscape (0xD800 + offset / 0x400) ++ unicodeEscape (0xDC00 + offset % 0x400)

def quoted [Runtime] (s : String) : String :=
  "\"" ++ String.join (s.toList.map escapedChar) ++ "\""

/-- The line break before an item at a level, nothing where all stands on one line. -/
def newline (style : Indentation) (level : Nat) : String :=
  match style with
  | .oneLine => ""
  | .perLevel unit => "\n" ++ String.join (List.replicate level unit)

def separator : Indentation → String
  | .oneLine => ", "
  | .perLevel _ => ","

/-- Items between brackets, one level deeper than the brackets. -/
def enclosed (style : Indentation) (level : Nat) (opening closing : String)
    (items : List String) : String :=
  if items.isEmpty then opening ++ closing
  else
    let gap := newline style (level + 1)
    opening ++ gap ++ String.intercalate (separator style ++ gap) items ++
      newline style level ++ closing

mutual

/-- The text of a value whose first character stands at the given level. -/
def value [Runtime] (style : Indentation) (level : Nat) : Json → String
  | .null => "null"
  | .bool b => if b then "true" else "false"
  | .int n => toString n
  | .float x => x.render "Infinity" "NaN"
  | .str s => quoted s
  | .arr items => enclosed style level "[" "]" (values style (level + 1) items)
  | .obj entries => enclosed style level "\x7b" "\x7d" (members style (level + 1) entries)

def values [Runtime] (style : Indentation) (level : Nat) : List Json → List String
  | [] => []
  | v :: rest => value style level v :: values style level rest

def members [Runtime] (style : Indentation) (level : Nat) : List (String × Json) → List String
  | [] => []
  | (name, v) :: rest =>
      (quoted name ++ ": " ++ value style level v) :: members style level rest

end

end Printer

def render [Runtime] (style : Indentation) (v : Json) : String :=
  Printer.value style 0 v

mutual

/-- What a value has too much of to be written, if so many arrays and objects may stand inside each
other; of several things the one that comes first. -/
def excess? (room : Nat) : Json → Option Limit
  | .int n => if Nat.pow 10 Decimal.digitLimit ≤ n.natAbs then some .digits else none
  | .arr items => if room = 0 then some .depth else excessOfItems? (room - 1) items
  | .obj entries => if room = 0 then some .depth else excessOfMembers? (room - 1) entries
  | _ => none

def excessOfItems? (room : Nat) : List Json → Option Limit
  | [] => none
  | v :: rest => (excess? room v).or (excessOfItems? room rest)

def excessOfMembers? (room : Nat) : List (String × Json) → Option Limit
  | [] => none
  | (_, v) :: rest => (excess? room v).or (excessOfMembers? room rest)

end

/-- The text that is written for a value. -/
def written [Runtime] (style : Indentation) (v : Json) : Except Limit String :=
  match v.excess? (Runtime.writingDepth (style = .oneLine)) with
  | some limit => .error limit
  | none => .ok (v.render style)

end Json

end ConfigSchema
