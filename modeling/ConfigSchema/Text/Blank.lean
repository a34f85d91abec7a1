/-!
# Blank characters

Blank is what separates words: the ASCII blanks, the four separators of information, the next
line character and the spaces of Unicode.  Words of a text are its maximal runs of other
characters.
-/

namespace ConfigSchema

namespace Text

/-- The codes of the blank characters beyond the runs of codes that `isBlank` names. -/
def singleBlanks : List Nat := [0x20, 0x85, 0xA0, 0x1680, 0x2028, 0x2029, 0x202F, 0x205F, 0x3000]

def isBlank (c : Char) : Bool :=
  let n := c.toNat
  (0x09 ≤ n && n ≤ 0x0D) || (0x1C ≤ n && n ≤ 0x1F) || (0x2000 ≤ n && n ≤ 0x200A) ||
    singleBlanks.contains n

/-- The text without the blanks at its start and its end. -/
def stripped (s : String) : String :=
  String.ofList ((s.toList.dropWhile isBlank).reverse.dropWhile isBlank).reverse

/-- The words of a text, the first of which may already have begun. -/
def wordsFrom (begun : List Char) : List Char → List (List Char)
  | [] => if begun.isEmpty then [] else [begun.reverse]
  | c :: rest =>
      if isBlank c then
        if begun.isEmpty then wordsFrom [] rest else begun.reverse :: wordsFrom [] rest
      else wordsFrom (c :: begun) rest

def words (s : String) : List String :=
  (wordsFrom [] s.toList).map String.ofList

/-- The words of a text, one blank between two of them. -/
def oneLine (s : String) : String :=
  " ".intercalate (words s)

end Text

end ConfigSchema
