import ConfigSchema.Runtime
import ConfigSchema.Text.Hex

/-!
# Lone surrogates

A text from outside can hold half of a surrogate pair, which is no character.  Such a half is
held as a private character, one for each of its codes, so that a text stays a text.  Wherever codes
show, the half shows with the code that it had.  Which block of private characters that is can be
chosen, so that it is one that the texts at hand have no characters of; it can also be beyond all
characters, and then every character stands for itself.
-/

namespace ConfigSchema

namespace Text

section

variable [Runtime]

/-- Whether a character stands for a lone surrogate. -/
def isSurrogate (c : Char) : Bool :=
  0xD800 + Runtime.surrogateOffset ≤ c.toNat && c.toNat < 0xE000 + Runtime.surrogateOffset

/-- The character that holds a surrogate, or the one for what is no character. -/
def ofSurrogate (n : Nat) : Char :=
  if n + Runtime.surrogateOffset < 0x110000 then Char.ofNat (n + Runtime.surrogateOffset)
  else '\uFFFD'

/-- The character of a code, or the one that holds it if it is a surrogate. -/
def ofCode (n : Nat) : Char :=
  if isHighSurrogate n || isLowSurrogate n then ofSurrogate n else Char.ofNat n

/-- The code that a character has outside. -/
def codeOf (c : Char) : Nat :=
  if isSurrogate c then c.toNat - Runtime.surrogateOffset else c.toNat

/-- The characters of a row of codes, in which a pair of surrogates stands for one character. -/
def joinSurrogates : List Nat → List Char
  | [] => []
  | [n] => [ofCode n]
  | high :: low :: rest =>
      if isHighSurrogate high && isLowSurrogate low then
        Char.ofNat (pairedSurrogates high low) :: joinSurrogates rest
      else
        ofCode high :: joinSurrogates (low :: rest)

def hasSurrogate (s : String) : Bool :=
  s.toList.any isSurrogate

/-- Whether a text stands before another one, or is the same, by the codes of its characters. -/
def precedes (a b : String) : Bool :=
  !List.lex (b.toList.map codeOf) (a.toList.map codeOf)

/-! ## Bytes of names -/

/-- A byte of a name that encodes no character is held as one of these. -/
def isByte (c : Char) : Bool :=
  isSurrogate c && 0xDC80 ≤ codeOf c && codeOf c ≤ 0xDCFF

/-- Whether a name can be written in bytes. -/
def isEncodable (name : String) : Bool :=
  name.toList.all fun c => !isSurrogate c || isByte c

/-- The number of bytes of a name. -/
def byteCount (name : String) : Nat :=
  name.toList.foldl (fun count c => count + if isByte c then 1 else c.utf8Size) 0

end

end Text

end ConfigSchema
