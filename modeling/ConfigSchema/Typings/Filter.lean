import ConfigSchema.Files.FileSystem
import ConfigSchema.Typings.Program

/-!
# Filters

Small programs that pass their input on, count it, cut it or change it, in the way in which the
tools of these names do.
-/

namespace ConfigSchema

namespace Filter

def lineFeed : UInt8 := 10

/-- The lines of an input, each with the line feed that ends it. -/
def linesOf : Bytes → List Bytes
  | [] => []
  | b :: rest =>
      if b = lineFeed then [b] :: linesOf rest
      else
        match linesOf rest with
        | [] => [[b]]
        | line :: lines => (b :: line) :: lines

def isBlank (b : UInt8) : Bool :=
  b = 32 || (9 ≤ b && b ≤ 13)

def number? (text : String) : Option Nat :=
  let digits := text.toList
  if digits.isEmpty || !digits.all Char.isDigit then none
  else some (digits.foldl (fun n c => 10 * n + (c.toNat - '0'.toNat)) 0)

/-! ## Misuse -/

/-- A text between the quotes that stand in complaints. -/
def quoted (text : String) : String := "‘" ++ text ++ "’"

/-- A complaint that names the program and says where help is. -/
def misuse (name complaint : String) (input : Bytes) : Outcome :=
  .failure 1 (name ++ ": " ++ complaint ++ "\nTry '" ++ name ++ " --help' for more information.\n")
    input

def unknownOption (name : String) (letter : Char) (input : Bytes) : Outcome :=
  misuse name ("invalid option -- '" ++ letter.toString ++ "'") input

/-- The letters of an argument that is made of options. -/
def letters? (argument : String) : Option (List Char) :=
  match argument.toList with
  | '-' :: letter :: letters => if letter = '-' then none else some (letter :: letters)
  | _ => none

/-- The options of a program that takes single letters, and its other arguments; a mark ends the
options. -/
def options : List String → List Char × List String
  | [] => ([], [])
  | "--" :: rest => ([], rest)
  | argument :: rest =>
      let (letters, names) := options rest
      match letters? argument with
      | some own => (own ++ letters, names)
      | none => (letters, argument :: names)

/-- Runs a program on the letters of its options and on its other arguments, if it knows the
letters. -/
def withOptions (name known : String) (program : List Char → Program) : Program :=
  fun arguments input =>
    let (letters, names) := options arguments
    match letters.find? fun letter => !known.toList.contains letter with
    | some letter => unknownOption name letter input
    | none => program letters names input

/-! ## Passing on -/

def succeed : Program := fun _ input => { unread := input }

def fail : Program := fun _ input => { ending := .exited 1, unread := input }

/-- Joins an outcome and that of what runs after it on what it leaves; a failure of either is one
of both. -/
def joined (before after : Outcome) : Outcome :=
  { ending := if before.ending = .exited 0 then after.ending else before.ending
    output := before.output ++ after.output
    complaints := before.complaints ++ after.complaints
    unread := after.unread }

/-- The content of what an argument names: the input for a hyphen, otherwise a file. -/
def contentOf (files : FileSystem) (input : Bytes) (name : String) : Outcome :=
  if name = "-" then { output := input }
  else if name = "" then .failure 1 "cat: '': No such file or directory\n" input
  else if name = "/dev/null" then { unread := input }
  else
    match files.node? (Path.ofText name) with
    | some (.file content) => { output := content.toList, unread := input }
    | some (.folder _) => .failure 1 ("cat: " ++ name ++ ": Is a directory\n") input
    | none => .failure 1 ("cat: " ++ name ++ ": No such file or directory\n") input

def padded (width : Nat) (n : Nat) : String :=
  let digits := toString n
  "".pushn ' ' (width - digits.length) ++ digits

/-- A line as it is shown: with its number before it, and with a sign before its end. -/
def shown (isNumbered hasSign : Bool) (number : Nat) (line : Bytes) : Bytes :=
  let line := if hasSign then line.flatMap fun b => if b = lineFeed then [36, b] else [b] else line
  if isNumbered then Bytes.ofString (padded 6 number ++ "\t") ++ line else line

def concatenate (files : FileSystem) : Program :=
  withOptions "cat" "unE" fun letters names input =>
    let outcome := (if names.isEmpty then ["-"] else names).foldl
      (fun outcome name => joined outcome (contentOf files outcome.unread name))
      { unread := input }
    let lines := (linesOf outcome.output).zipIdx
    { outcome with
      output := lines.flatMap fun (line, i) =>
        shown (letters.contains 'n') (letters.contains 'E') (i + 1) line }

/-! ## Cutting -/

/-- How much of an input is meant: a count of bytes or lines, with the sign before it. -/
structure Amount where
  isBytes : Bool := false
  sign : Option Char := none
  count : Nat := 10
  deriving Inhabited

def Amount.ofText? (isBytes : Bool) (text : String) : Option Amount :=
  match text.toList with
  | '-' :: digits => (number? (String.ofList digits)).map (⟨isBytes, some '-', ·⟩)
  | '+' :: digits => (number? (String.ofList digits)).map (⟨isBytes, some '+', ·⟩)
  | digits => (number? (String.ofList digits)).map (⟨isBytes, none, ·⟩)

/-- The amount that a text gives, or a complaint about it. -/
def Amount.read (name : String) (isBytes : Bool) (text : String) :
    Except (Bytes → Outcome) Amount :=
  match Amount.ofText? isBytes text with
  | some amount => .ok amount
  | none => .error (.failure 1 (name ++ ": invalid number of " ++
      (if isBytes then "bytes" else "lines") ++ ": " ++ quoted text ++ "\n"))

/-- The amount that the arguments of a program give, the last one said; otherwise ten lines. -/
def amount (name : String) (given : Amount) : List String → Except (Bytes → Outcome) Amount
  | [] => .ok given
  | "-" :: rest => amount name given rest
  | "--" :: rest => amount name given rest
  | "-q" :: rest => amount name given rest
  | ["-c"] => .error (misuse name "option requires an argument -- 'c'")
  | ["-n"] => .error (misuse name "option requires an argument -- 'n'")
  | "-c" :: text :: rest => do amount name (← Amount.read name true text) rest
  | "-n" :: text :: rest => do amount name (← Amount.read name false text) rest
  | argument :: rest =>
      match argument.toList with
      | '-' :: 'c' :: text => do
          amount name (← Amount.read name true (String.ofList text)) rest
      | '-' :: 'n' :: text => do
          amount name (← Amount.read name false (String.ofList text)) rest
      | '-' :: text => do
          amount name { ← Amount.read name false (String.ofList text) with sign := none } rest
      | _ => .error (.failure 1 (name ++ ": cannot open '" ++ argument ++
          "' for reading: No such file or directory\n"))

/-- The first items, or all but the last ones. -/
def firstOf {α : Type} (amount : Amount) (items : List α) : List α :=
  items.take (if amount.sign = some '-' then items.length - amount.count else amount.count)

/-- The last items, or all from one on. -/
def lastOf {α : Type} (amount : Amount) (items : List α) : List α :=
  items.drop (if amount.sign = some '+' then amount.count - 1 else items.length - amount.count)

def first : Program := fun arguments input =>
  match amount "head" {} arguments with
  | .ok amount =>
      if amount.isBytes then
        let output := firstOf amount input
        { output, unread := input.drop output.length }
      else { output := (firstOf amount (linesOf input)).flatten }
  | .error misused => misused input

def last : Program := fun arguments input =>
  match amount "tail" {} arguments with
  | .ok amount =>
      if amount.isBytes then { output := lastOf amount input }
      else { output := (lastOf amount (linesOf input)).flatten }
  | .error misused => misused input

/-! ## Counting -/

def wordCount (input : Bytes) : Nat :=
  (input.foldl (fun (count, inWord) b =>
    if isBlank b then (count, false) else (if inWord then count else count + 1, true))
    ((0, false) : Nat × Bool)).1

/-- The bytes that start a character. -/
def characterCount (input : Bytes) : Nat :=
  input.countP fun b => b &&& 0xC0 ≠ 0x80

def counts (letters : List Char) (input : Bytes) : List Nat :=
  ['l', 'w', 'm', 'c'].filterMap fun letter =>
    if !letters.contains letter then none
    else some (match letter with
      | 'l' => input.count lineFeed
      | 'w' => wordCount input
      | 'm' => characterCount input
      | _ => input.length)

/-- Counts lines, words, characters and bytes, in this order; several counts stand in columns. -/
def count : Program :=
  withOptions "wc" "lwmc" fun letters names input =>
    let counts := counts (if letters.isEmpty then ['l', 'w', 'c'] else letters) input
    let width := if counts.length = 1 then 0 else 7
    let line := " ".intercalate (counts.map (padded width))
    match names with
    | [] => { output := Bytes.ofString (line ++ "\n") }
    | ["-"] => { output := Bytes.ofString (line ++ " -\n") }
    | name :: _ => .failure 1 ("wc: " ++ name ++ ": No such file or directory\n") input

/-! ## Changing -/

def between (first last : Char) : List Char :=
  (List.range (last.toNat + 1 - first.toNat)).map fun n => Char.ofNat (first.toNat + n)

/-- The characters that a class names. -/
def classes : List (String × List Char) :=
  let upper := between 'A' 'Z'
  let lower := between 'a' 'z'
  let digit := between '0' '9'
  [("[:upper:]", upper), ("[:lower:]", lower), ("[:digit:]", digit), ("[:alpha:]", upper ++ lower),
    ("[:alnum:]", digit ++ upper ++ lower), ("[:blank:]", [' ', '\t']),
    ("[:space:]", between '\t' '\r' ++ [' '])]

/-- The characters that a list of single ones and of ranges names. -/
def characters : List Char → List Char
  | '\\' :: c :: rest =>
      (if c = 'n' then '\n' else if c = 't' then '\t' else if c = 'r' then '\r' else c) ::
        characters rest
  | first :: '-' :: last :: rest =>
      if first ≤ last then between first last ++ characters rest else []
  | c :: rest => c :: characters rest
  | [] => []

/-- The bytes of the characters of a class or a list. -/
def bytesNamed (text : String) : Bytes :=
  Bytes.ofString (String.ofList ((classes.lookup text).getD (characters text.toList)))

/-- The byte that stands for a byte when one list stands for another, whose last byte stands for
all that the first has more. -/
def exchanged (source target : Bytes) (b : UInt8) : UInt8 :=
  match source.findIdx? (· = b) with
  | none => b
  | some i => ((target[i]?).or target.getLast?).getD b

/-- The runs of some bytes become single ones. -/
def squeezed (isMeant : UInt8 → Bool) : Bytes → Bytes
  | a :: b :: rest =>
      if a = b && isMeant a then squeezed isMeant (b :: rest) else a :: squeezed isMeant (b :: rest)
  | rest => rest

def exchange : Program :=
  withOptions "tr" "cds" fun letters lists input =>
    let isMeant (list : String) (b : UInt8) : Bool :=
      (bytesNamed list).contains b ≠ letters.contains 'c'
    match letters.contains 'd', letters.contains 's', lists with
    | _, _, [] => misuse "tr" "missing operand" input
    | true, false, [list] => { output := input.filter fun b => !isMeant list b }
    | false, true, [list] => { output := squeezed (isMeant list) input }
    | false, false, [list] =>
        misuse "tr" ("missing operand after " ++ quoted list ++
          "\nTwo strings must be given when translating.") input
    | true, false, _ :: list :: _ =>
        misuse "tr" ("extra operand " ++ quoted list ++
          "\nOnly one string may be given when deleting without squeezing repeats.") input
    | false, _, [source, target] =>
        let target := bytesNamed target
        let output := input.map fun b =>
          if letters.contains 'c' then if isMeant source b then target.getLast?.getD b else b
          else exchanged (bytesNamed source) target b
        { output := if letters.contains 's' then squeezed target.contains output else output }
    | _, _, _ => misuse "tr" "extra operand" input

/-- Lines in the order of their bytes, each with a line feed at its end. -/
def sorted : Program :=
  withOptions "sort" "ru" fun letters names input =>
    match names.find? (· ≠ "-") with
    | some name =>
        .failure 2 ("sort: cannot read: " ++ name ++ ": No such file or directory\n") input
    | none =>
        let lines := (linesOf input).map fun line => line.filter (· ≠ lineFeed)
        let lines := lines.mergeSort fun a b => decide (a ≤ b)
        let lines := if letters.contains 'u' then lines.eraseDups else lines
        let lines := if letters.contains 'r' then lines.reverse else lines
        { output := lines.flatMap (· ++ [lineFeed]) }

def reversed : Program := fun _ input => { output := (linesOf input).reverse.flatten }

/-- Lines without those that repeat the one before. -/
def distinct : Program := fun _ input =>
  let lines := (linesOf input).map fun line => line.filter (· ≠ lineFeed)
  let kept :=
    lines.foldr (fun line kept => if kept.head? = some line then kept else line :: kept) []
  { output := kept.flatMap (· ++ [lineFeed]) }

/-! ## Tests -/

/-- The answer of a comparison of numbers, where the texts are such. -/
def compared? (operator left right : String) : Option Bool := do
  let left ← number? left
  let right ← number? right
  match operator with
  | "-eq" => some (left = right)
  | "-ne" => some (left ≠ right)
  | "-lt" => some (left < right)
  | "-le" => some (left ≤ right)
  | "-gt" => some (left > right)
  | "-ge" => some (left ≥ right)
  | _ => none

/-- The answer of a test. -/
def answer? (files : FileSystem) : List String → Option Bool
  | [] => some false
  | [text] => some (text ≠ "")
  | "!" :: rest => (answer? files rest).map not
  | ["-n", text] => some (text ≠ "")
  | ["-z", text] => some (text = "")
  | ["-e", name] => some (files.node? (Path.ofText name)).isSome
  | ["-f", name] => some (files.content? (Path.ofText name)).isSome
  | [left, "=", right] => some (left = right)
  | [left, "!=", right] => some (left ≠ right)
  | [left, operator, right] => compared? operator left right
  | _ => none

def check (files : FileSystem) : Program := fun arguments input =>
  match answer? files arguments with
  | some true => succeed arguments input
  | some false => fail arguments input
  | none => .failure 2 "test: unexpected operator\n" input

/-- A test whose arguments end with a bracket. -/
def checkBracketed (files : FileSystem) : Program := fun arguments input =>
  if arguments.getLast? = some "]" then check files arguments.dropLast input
  else .failure 2 "[: missing ']'\n" input

/-! ## Waiting -/

/-- Longer than any run is waited for. -/
def endless : Nat := Nat.pow 10 15

/-- The units of time by the letters that follow a number, in seconds. -/
def units : List (Char × Nat) := [('s', 1), ('m', 60), ('h', 3600), ('d', 86400)]

/-- The milliseconds of a number of seconds with at most three decimal places that count. -/
def thousandths? (chars : List Char) : Option Nat :=
  let whole := chars.takeWhile (· ≠ '.')
  let decimals := (chars.dropWhile (· ≠ '.')).drop 1
  let places := (decimals ++ ['0', '0', '0']).take 3
  if chars.isEmpty then none
  else number? (String.ofList ((if whole.isEmpty then ['0'] else whole) ++ places))

/-- The milliseconds that a text of time means. -/
def milliseconds? (text : String) : Option Nat :=
  if text = "inf" || text = "infinity" then some endless
  else
    let chars := text.toList
    match chars.getLast?.bind fun c => units.lookup c with
    | some unit => (thousandths? chars.dropLast).map (unit * ·)
    | none => thousandths? chars

/-- Waits as long as all its arguments say together. -/
def wait : Program := fun arguments input =>
  let arguments := if arguments.head? = some "--" then arguments.tail else arguments
  match arguments, arguments.find? fun text => (milliseconds? text).isNone with
  | [], _ => misuse "sleep" "missing operand" input
  | _, none =>
      { unread := input, milliseconds := (arguments.filterMap milliseconds?).foldl (· + ·) 0 }
  | _, some text =>
      match letters? text with
      | some (letter :: _) => unknownOption "sleep" letter input
      | _ => misuse "sleep" ("invalid time interval " ++ quoted text) input

end Filter

end ConfigSchema
