import ConfigSchema.Decimal.Digits
import ConfigSchema.Json.Basic
import ConfigSchema.Text.Surrogate

/-!
# Reading JSON

The reader takes the whole text or nothing.  Beyond the standard it admits the numbers `NaN`,
`Infinity` and `-Infinity`, and surrogate escapes that stand alone.  Of a name that occurs twice
in an object the last value counts, at the place of the first.  A text that goes too deep or has
too long an integer is not read on from there, whatever follows.
-/

namespace ConfigSchema

namespace Json

/-- Why a text is not read. -/
inductive Unread where
  | malformed
  | beyond (limit : Limit)
  deriving DecidableEq, Inhabited

namespace Reader

/-- What is read at the start of a text, and the rest of the text. -/
abbrev Step (α : Type) := Except Unread (α × List Char)

def isSpace (c : Char) : Bool :=
  c = ' ' || c = '\t' || c = '\n' || c = '\r'

def skipSpace (s : List Char) : List Char :=
  s.dropWhile isSpace

def escape? : Char → Option Char
  | '"' => some '"'
  | '\\' => some '\\'
  | '/' => some '/'
  | 'b' => some '\x08'
  | 'f' => some '\x0c'
  | 'n' => some '\n'
  | 'r' => some '\r'
  | 't' => some '\t'
  | _ => none

/-- The codes of a string up to its closing quote, in reverse, and what follows the quote. -/
def codes [Runtime] (seen : List Nat) : List Char → Step (List Nat)
  | [] => .error .malformed
  | '"' :: rest => .ok (seen, rest)
  | '\\' :: 'u' :: a :: b :: c :: d :: rest =>
      match Text.hexValue? [a, b, c, d] with
      | some n => codes (n :: seen) rest
      | none => .error .malformed
  | '\\' :: c :: rest =>
      match escape? c with
      | some e => codes (e.toNat :: seen) rest
      | none => .error .malformed
  | c :: rest =>
      if c.toNat < 0x20 ∨ c = '\\' then .error .malformed else codes (Text.codeOf c :: seen) rest

/-- A string whose opening quote is already read. -/
def text [Runtime] (s : List Char) : Step String :=
  (codes [] s).map fun (seen, rest) => (String.ofList (Text.joinSurrogates seen.reverse), rest)

def isDigit (c : Char) : Bool := '0' ≤ c && c ≤ '9'

/-- The digits before the point: a zero alone, or digits that start with another one. -/
def wholeDigits : List Char → Option (List Char × List Char)
  | '0' :: rest => some (['0'], rest)
  | s =>
      let digits := s.takeWhile isDigit
      if digits.isEmpty then none else some (digits, s.dropWhile isDigit)

/-- The digits after a point, none if there is no point with digits. -/
def fractionDigits : List Char → List Char × List Char
  | '.' :: rest =>
      let digits := rest.takeWhile isDigit
      if digits.isEmpty then ([], '.' :: rest) else (digits, rest.dropWhile isDigit)
  | s => ([], s)

/-- The exponent, nothing if there is no mark with digits. -/
def exponentPart : List Char → Option Int × List Char
  | [] => (none, [])
  | mark :: rest =>
      if mark = 'e' ∨ mark = 'E' then
        let (negative, tail) := Decimal.signed rest
        let digits := tail.takeWhile isDigit
        if digits.isEmpty then (none, mark :: rest)
        else (some (Decimal.intOfDigits negative digits), tail.dropWhile isDigit)
      else (none, mark :: rest)

/-- A number after its sign: an integer unless it has a fraction or an exponent. -/
def unsignedNumber (negative : Bool) (s : List Char) : Step Json :=
  match wholeDigits s with
  | none => .error .malformed
  | some (whole, s) =>
      let (fraction, s) := fractionDigits s
      let (exponent?, s) := exponentPart s
      if fraction.isEmpty ∧ exponent?.isNone then
        if Decimal.digitLimit < whole.length then .error (.beyond .digits)
        else .ok (.int (Decimal.intOfDigits negative whole), s)
      else
        let exponent := exponent?.getD 0 - fraction.length
        .ok (.float (.ofDecimal negative (Decimal.natOfDigits (whole ++ fraction)) exponent), s)

def number : List Char → Step Json
  | '-' :: rest => unsignedNumber true rest
  | s => unsignedNumber false s

/-- The rest after a word, if the text starts with the word. -/
def after? (word : String) (s : List Char) : Option (List Char) :=
  let chars := word.toList
  if chars.isPrefixOf s then some (s.drop chars.length) else none

/-- Values that are written as words. -/
def words : List (String × Json) :=
  [("null", .null), ("true", .bool true), ("false", .bool false), ("NaN", .float .notANumber),
    ("Infinity", .float (.infinite false)), ("-Infinity", .float (.infinite true))]

def word? (s : List Char) : Option (Json × List Char) :=
  words.findSome? fun (name, value) => (after? name s).map fun rest => (value, rest)

/-- A value that has no parts: a word or a number. -/
def plain (s : List Char) : Step Json :=
  match word? s with
  | some found => .ok found
  | none => number s

/-- The name of a member and the colon behind it. -/
def label [Runtime] : List Char → Step String
  | '"' :: rest =>
      match text rest with
      | .error e => .error e
      | .ok (name, rest) =>
          match skipSpace rest with
          | ':' :: rest => .ok (name, skipSpace rest)
          | _ => .error .malformed
  | _ => .error .malformed

mutual

/-- A value at the start of the text; `room` says how deep its parts may nest, and `fuel` bounds
the steps. -/
def value [Runtime] (room : Nat) : (fuel : Nat) → List Char → Step Json
  | 0, _ => .error .malformed
  | fuel + 1, s =>
      match s with
      | '"' :: rest => (text rest).map fun (t, rest) => (.str t, rest)
      | '[' :: rest =>
          match room, skipSpace rest with
          | 0, _ => .error (.beyond .depth)
          | _, ']' :: rest => .ok (.arr [], rest)
          | room + 1, rest => (items room fuel [] rest).map fun (vs, rest) => (.arr vs, rest)
      | '\x7b' :: rest =>
          match room, skipSpace rest with
          | 0, _ => .error (.beyond .depth)
          | _, '\x7d' :: rest => .ok (.obj [], rest)
          | room + 1, rest =>
              (members room fuel [] rest).map fun (ms, rest) => (.obj (Entries.ofList ms), rest)
      | s => plain s

/-- The items of an array up to its closing bracket, behind those already seen, in reverse. -/
def items [Runtime] (room : Nat) : (fuel : Nat) → (seen : List Json) → List Char → Step (List Json)
  | 0, _, _ => .error .malformed
  | fuel + 1, seen, s =>
      match value room fuel s with
      | .error e => .error e
      | .ok (v, rest) =>
          match skipSpace rest with
          | ']' :: rest => .ok ((v :: seen).reverse, rest)
          | ',' :: rest => items room fuel (v :: seen) (skipSpace rest)
          | _ => .error .malformed

/-- The members of an object up to its closing brace, behind those already seen, in reverse. -/
def members [Runtime] (room : Nat) :
    (fuel : Nat) → (seen : List (String × Json)) → List Char → Step (List (String × Json))
  | 0, _, _ => .error .malformed
  | fuel + 1, seen, s =>
      match label s with
      | .error e => .error e
      | .ok (name, rest) =>
          match value room fuel rest with
          | .error e => .error e
          | .ok (v, rest) =>
              match skipSpace rest with
              | '\x7d' :: rest => .ok (((name, v) :: seen).reverse, rest)
              | ',' :: rest => members room fuel ((name, v) :: seen) (skipSpace rest)
              | _ => .error .malformed

end

end Reader

/-- Reads a text that holds one value and nothing else but space around it.  Each step down
takes a character or is the only one before the next that does, so twice the length bounds the
steps. -/
def read [Runtime] (s : String) (purpose : Purpose := .plain) : Except Unread Json :=
  let chars := Reader.skipSpace s.toList
  match Reader.value (Runtime.readingDepth purpose) (2 * chars.length + 2) chars with
  | .error e => .error e
  | .ok (v, rest) => if (Reader.skipSpace rest).isEmpty then .ok v else .error .malformed

end Json

end ConfigSchema
