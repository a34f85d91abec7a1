import ConfigSchema.Decimal.Shortest
import ConfigSchema.Json.Basic
import ConfigSchema.Json.Printer
import ConfigSchema.Text.Printable

/-!
# JSON values in messages

A message shows a text as it is, and quotes the texts that stand inside another value.  Quotes
are single unless the text holds a single one and no double one.
-/

namespace ConfigSchema

namespace Json

namespace Display

/-- The form of a character inside a text that is quoted by `quote`. -/
def escapedChar [Runtime] (quote c : Char) : String :=
  if c = quote ∨ c = '\\' then "\\" ++ c.toString
  else if c = '\n' then "\\n"
  else if c = '\r' then "\\r"
  else if c = '\t' then "\\t"
  else if Text.isPrintable c then c.toString
  else if c.toNat < 0x100 then "\\x" ++ Printer.hexDigits 2 c.toNat
  else if Text.codeOf c < 0x10000 then "\\u" ++ Printer.hexDigits 4 (Text.codeOf c)
  else "\\U" ++ Printer.hexDigits 8 c.toNat

def quoted [Runtime] (s : String) : String :=
  let chars := s.toList
  let quote := if chars.contains '\'' && !chars.contains '"' then '"' else '\''
  quote.toString ++ String.join (chars.map (escapedChar quote)) ++ quote.toString

mutual

def inner [Runtime] : Json → String
  | .null => "None"
  | .bool b => if b then "True" else "False"
  | .int n => toString n
  | .float x => x.render "inf" "nan"
  | .str s => quoted s
  | .arr items => "[" ++ ", ".intercalate (inners items) ++ "]"
  | .obj entries => "\x7b" ++ ", ".intercalate (members entries) ++ "\x7d"

def inners [Runtime] : List Json → List String
  | [] => []
  | v :: rest => inner v :: inners rest

def members [Runtime] : List (String × Json) → List String
  | [] => []
  | (name, v) :: rest => (quoted name ++ ": " ++ inner v) :: members rest

end

end Display

/-- The text that a message shows for a value. -/
def display [Runtime] : Json → String
  | .str s => s
  | v => Display.inner v

/-- The word for the kind of a value. -/
def kindWord : Json → String
  | .null => "NoneType"
  | .bool _ => "bool"
  | .int _ => "int"
  | .float _ => "float"
  | .str _ => "str"
  | .arr _ => "list"
  | .obj _ => "dict"

end Json

end ConfigSchema
