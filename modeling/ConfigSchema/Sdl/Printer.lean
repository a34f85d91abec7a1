import ConfigSchema.Sdl.Document
import ConfigSchema.Text.Hex
import ConfigSchema.Json.Printer

/-!
# The written form of type definitions

The written form of a definition shows all of it and nothing of its layout in the text that it
comes from, so two definitions say the same in the same words exactly if their written forms are
equal.  It is a text of the language itself.
-/

namespace ConfigSchema

namespace Sdl

namespace Printer

/-- Joins the parts that are not empty. -/
def joined (separator : String) (parts : List String) : String :=
  separator.intercalate (parts.filter (· ≠ ""))

/-- A text between two others, nothing if it is empty. -/
def wrapped (opening text closing : String) : String :=
  if text = "" then "" else opening ++ text ++ closing

def indented (text : String) : String :=
  String.join (text.toList.map fun c => if c = '\n' then "\n  " else c.toString)

def block (items : List String) : String :=
  wrapped "\x7b\n  " (indented ("\n".intercalate items)) "\n\x7d"

/-! ## Literals -/

def escapedChar (c : Char) : String :=
  if c = '"' then "\\\""
  else if c = '\\' then "\\\\"
  else if c = '\n' then "\\n"
  else if c = '\r' then "\\r"
  else if c = '\t' then "\\t"
  else if c = '\x08' then "\\b"
  else if c = '\x0c' then "\\f"
  else if c.toNat < 0x20 ∨ (0x7F ≤ c.toNat ∧ c.toNat ≤ 0x9F) then
    Json.Printer.unicodeEscape c.toNat
  else c.toString

def quoted (text : String) : String :=
  "\"" ++ String.join (text.toList.map escapedChar) ++ "\""

/-- A text with its runs of three quotes escaped. -/
def escapedQuotes : List Char → List Char
  | '"' :: '"' :: '"' :: rest => '\\' :: '"' :: '"' :: '"' :: escapedQuotes rest
  | c :: rest => c :: escapedQuotes rest
  | [] => []

/-- A block string.  More lines than one stand between the quotes on lines of their own; a single
line stands beside them, unless it ends in what would change the closing quotes. -/
def blockQuoted (text : String) : String :=
  let chars := text.toList
  let quotes := "\"\"\""
  let body := String.ofList (escapedQuotes chars)
  if chars.contains '\n' then quotes ++ "\n" ++ body ++ "\n" ++ quotes
  else if chars.getLast? = some '"' ∨ chars.getLast? = some '\\' then
    quotes ++ body ++ "\n" ++ quotes
  else quotes ++ body ++ quotes

def literal (l : Literal) : String :=
  if l.isBlock then blockQuoted l.value else quoted l.value

mutual

def value : Value → String
  | .variable name => "$" ++ name
  | .int text => text
  | .float text => text
  | .string l => literal l
  | .boolean b => if b then "true" else "false"
  | .null => "null"
  | .enum name => name
  | .list items => "[" ++ ", ".intercalate (values items) ++ "]"
  | .object fields => "\x7b" ++ ", ".intercalate (namedValues fields) ++ "\x7d"

def values : List Value → List String
  | [] => []
  | v :: rest => value v :: values rest

def namedValues : List (String × Value) → List String
  | [] => []
  | (name, v) :: rest => (name ++ ": " ++ value v) :: namedValues rest

end

/-! ## Definitions -/

def directive (d : Directive) : String :=
  "@" ++ d.name ++ wrapped "(" (", ".intercalate (namedValues d.arguments)) ")"

def directives (ds : List Directive) : String :=
  " ".intercalate (ds.map directive)

def description : Option Literal → String
  | some l => literal l ++ "\n"
  | none => ""

def inputValue (input : InputValue) : String :=
  description input.description ++
    joined " " [input.name ++ ": " ++ input.type.toText,
      match input.default with
      | some v => "= " ++ value v
      | none => "",
      directives input.directives]

/-- Arguments in parentheses, on lines of their own if one of them has more lines than one. -/
def arguments (inputs : List InputValue) : String :=
  let texts := inputs.map inputValue
  if texts.any fun text => text.toList.contains '\n' then
    wrapped "(\n  " (indented ("\n".intercalate texts)) "\n)"
  else wrapped "(" (", ".intercalate texts) ")"

def field (f : FieldDefinition) : String :=
  description f.description ++ f.name ++ arguments f.arguments ++ ": " ++ f.type.toText ++
    wrapped " " (directives f.directives) ""

def enumValue (v : EnumValueDefinition) : String :=
  description v.description ++ joined " " [v.name, directives v.directives]

def keyword : TypeBody.Kind → String
  | .scalar => "scalar"
  | .object => "type"
  | .interface => "interface"
  | .union => "union"
  | .enum => "enum"
  | .input => "input"

/-- What stands before and after the directives of a type. -/
def body : TypeBody → String × String
  | .scalar => ("", "")
  | .object interfaces fields =>
      (wrapped "implements " (" & ".intercalate interfaces) "", block (fields.map field))
  | .interface interfaces fields =>
      (wrapped "implements " (" & ".intercalate interfaces) "", block (fields.map field))
  | .union members => ("", wrapped "= " (" | ".intercalate members) "")
  | .enum values => ("", block (values.map enumValue))
  | .input fields => ("", block (fields.map inputValue))

def typeNode (node : TypeNode) : String :=
  let (before, after) := body node.body
  joined " " [keyword node.body.kind, node.name, before, directives node.directives, after]

end Printer

def TypeNode.render (about : Option Literal) (node : TypeNode) : String :=
  Printer.description about ++ Printer.typeNode node

end Sdl

end ConfigSchema
