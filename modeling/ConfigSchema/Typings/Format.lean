import ConfigSchema.Typings.Program

/-!
# Written texts

The programs that write their arguments: escapes stand for bytes, and the places of a format are
filled from values, as often as there are values left.
-/

namespace ConfigSchema

namespace Format

/-! ## Escapes -/

def isOctal (c : Char) : Bool := '0' ≤ c && c ≤ '7'

/-- The byte of an escape by one letter. -/
def letterEscape? (c : Char) : Option UInt8 :=
  match c with
  | 'a' => some 7
  | 'b' => some 8
  | 'e' => some 27
  | 'f' => some 12
  | 'n' => some 10
  | 'r' => some 13
  | 't' => some 9
  | 'v' => some 11
  | '\\' => some 92
  | _ => none

/-- The bytes of a text with escapes: `octal` counts the digits that an octal one may still take
and says what it has come to, and `afterZero` counts those that may follow a leading zero. -/
def unescaped (afterZero : Nat) (octal : Option (Nat × Nat)) : List Char → Bytes
  | [] => (octal.map fun (_, code) => code.toUInt8).toList
  | c :: rest =>
      match octal with
      | some (places + 1, code) =>
          if isOctal c then
            unescaped afterZero (some (places, 8 * code + (c.toNat - '0'.toNat))) rest
          else code.toUInt8 :: plain c rest
      | some (0, code) => code.toUInt8 :: plain c rest
      | none => plain c rest
where
  /-- The bytes from a character that does not go on with an escape. -/
  plain (c : Char) (rest : List Char) : Bytes :=
    if c = '\\' then
      match rest with
      | [] => [92]
      | letter :: rest =>
          match letterEscape? letter with
          | some b => b :: unescaped afterZero none rest
          | none =>
              if isOctal letter then
                let places := if letter = '0' then afterZero else 2
                unescaped afterZero (some (places, letter.toNat - '0'.toNat)) rest
              else 92 :: (Bytes.ofString letter.toString ++ unescaped afterZero none rest)
    else Bytes.ofString c.toString ++ unescaped afterZero none rest

/-- The bytes of a text in which an octal escape may have three digits after a zero. -/
def escaped (text : String) : Bytes := unescaped 3 none text.toList

/-! ## Lines of arguments -/

/-- What stands at the end of the arguments, unless a mark leaves it out. -/
def ended (isOpen : Bool) (bytes : Bytes) : Bytes :=
  if isOpen then bytes else bytes ++ [10]

/-- Whether an argument is made of the letters that are options when arguments are written. -/
def isEchoOption (argument : String) : Bool :=
  match argument.toList with
  | '-' :: letter :: letters => (letter :: letters).all ['n', 'e', 'E'].contains
  | _ => false

/-- Writes its arguments, escapes read only on request. -/
def plainEcho : Program := fun arguments input =>
  let letters := (arguments.takeWhile isEchoOption).flatMap String.toList
  let text := " ".intercalate (arguments.dropWhile isEchoOption)
  let readsEscapes := (letters.filter ['e', 'E'].contains).getLast? = some 'e'
  let bytes := if readsEscapes then escaped text else Bytes.ofString text
  { output := ended (letters.contains 'n') bytes, unread := input }

/-- Writes its arguments, escapes read. -/
def escapedEcho : Program := fun arguments input =>
  match arguments with
  | "-n" :: rest => { output := ended true (escaped (" ".intercalate rest)), unread := input }
  | rest => { output := ended false (escaped (" ".intercalate rest)), unread := input }

/-! ## Formats -/

inductive Part where
  | fixed (bytes : Bytes)
  | place (kind : Char)
  deriving DecidableEq, Inhabited

def kinds : List Char := ['s', 'b', 'c', 'd', 'i', 'u']

def Part.isPlace : Part → Bool
  | .fixed _ => false
  | .place _ => true

/-- The parts of a format: `before` holds what comes before the next place. -/
def parts (before : List Char) : List Char → List Part
  | '%' :: '%' :: rest => parts (before ++ ['%']) rest
  | '%' :: kind :: rest =>
      if kinds.contains kind then
        .fixed (unescaped 2 none before) :: .place kind :: parts [] rest
      else parts (before ++ ['%']) (kind :: rest)
  | c :: rest => parts (before ++ [c]) rest
  | [] => [.fixed (unescaped 2 none before)]

/-- The bytes of a value at a place; where it is missing, a number is zero and a text empty. -/
def valueOf (kind : Char) (value : Option String) : Bytes :=
  match kind, value with
  | 's', value => Bytes.ofString (value.getD "")
  | 'b', value => escaped (value.getD "")
  | 'c', value => Bytes.ofString (String.ofList ((value.getD "").toList.take 1))
  | _, some "" => Bytes.ofString "0"
  | _, value => Bytes.ofString (value.getD "0")

def fill : List Part → List String → Bytes
  | [], _ => []
  | .fixed bytes :: rest, values => bytes ++ fill rest values
  | .place kind :: rest, values => valueOf kind values.head? ++ fill rest values.tail

/-- A format is written once, and again as long as values are left for its places; `misuse` is what
comes of a call without a format. -/
def formatted (misuse : Bytes → Outcome) : Program := fun arguments input =>
  match if arguments.head? = some "--" then arguments.tail else arguments with
  | [] => misuse input
  | format :: values =>
      let parts := parts [] format.toList
      let places := parts.countP Part.isPlace
      let runs := if places = 0 then 1 else max 1 ((values.length + places - 1) / places)
      { output := (List.range runs).flatMap fun i => fill parts (values.drop (i * places))
        unread := input }

end Format

end ConfigSchema
