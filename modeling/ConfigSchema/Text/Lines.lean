/-!
# Lines of a text

Beside carriage returns and line feeds, some other characters end a line.  A carriage return and
the line feed behind it end one line together.
-/

namespace ConfigSchema

namespace Text

/-- The codes of the characters that end a line. -/
def lineEnds : List Nat := [0x0A, 0x0B, 0x0C, 0x0D, 0x1C, 0x1D, 0x1E, 0x85, 0x2028, 0x2029]

def isLineEnd (c : Char) : Bool :=
  lineEnds.contains c.toNat

/-- The lines of a text, the first of which may already have begun.  A line end at the end of the
text starts no further line. -/
def linesFrom (begun : List Char) : List Char → List (List Char)
  | [] => if begun.isEmpty then [] else [begun.reverse]
  | '\r' :: '\n' :: rest => begun.reverse :: linesFrom [] rest
  | c :: rest =>
      if isLineEnd c then begun.reverse :: linesFrom [] rest else linesFrom (c :: begun) rest

def lines (s : List Char) : List (List Char) :=
  linesFrom [] s

end Text

end ConfigSchema
