import ConfigSchema.Typings.Filter

/-!
# Shell scripts

A script is a row of pipelines.  Each of them runs or not by how the one before it ended.  The
words of a command may hold values that are known only when the command runs.
-/

namespace ConfigSchema

namespace Script

inductive Piece where
  | char (c : Char)
  /-- The value of a name; between quotes it stays in one field. -/
  | parameter (name : String) (isQuoted : Bool)
  /-- A quote, by which a word is there even if it is empty. -/
  | quote
  deriving DecidableEq, Inhabited

abbrev Word := List Piece

inductive Target where
  | stream (number : Nat)
  /-- What is written is lost. -/
  | nowhere
  /-- What is read comes from a file. -/
  | file (name : Word)
  deriving DecidableEq, Inhabited

structure Command where
  line : Nat := 1
  words : List Word := []
  redirections : List (Nat × Target) := []
  deriving DecidableEq, Inhabited

inductive Condition where
  | always
  | afterSuccess
  | afterFailure
  deriving DecidableEq, Inhabited

/-- Whether what depends on a status runs. -/
def Condition.isMet (condition : Condition) (status : Nat) : Bool :=
  match condition with
  | .always => true
  | .afterSuccess => status = 0
  | .afterFailure => status ≠ 0

structure Pipeline where
  condition : Condition
  isNegated : Bool
  commands : List Command
  deriving DecidableEq, Inhabited

/-! ## Tokens -/

inductive Token where
  | word (word : Word)
  /-- The number of a stream, right before a redirection of it. -/
  | stream (number : Nat)
  | operator (c : Char)
  deriving DecidableEq, Inhabited

inductive Quote where
  | none
  | single
  | double
  deriving DecidableEq, Inhabited

/-- What has been read of the name of a value. -/
inductive Naming where
  | none
  | started
  | named (name : List Char)
  | braced (name : List Char)
  deriving DecidableEq, Inhabited

/-- What is known while a script is read; the word that is being read, and the tokens before it,
stand in reverse. -/
structure Scan where
  tokens : List Token := []
  word : Option Word := none
  quote : Quote := .none
  isEscaped : Bool := false
  naming : Naming := .none
  inComment : Bool := false
  deriving Inhabited

def Scan.add (scan : Scan) (pieces : List Piece) : Scan :=
  { scan with word := some (pieces.reverse ++ scan.word.getD []) }

def Scan.finishWord (scan : Scan) : Scan :=
  match scan.word with
  | some word => { scan with tokens := .word word.reverse :: scan.tokens, word := none }
  | none => scan

/-- Finishes the word before a redirection, where a digit names a stream. -/
def Scan.finishStream (scan : Scan) : Scan :=
  match scan.word with
  | some [.char c] =>
      if c.isDigit then
        { scan with tokens := .stream (c.toNat - '0'.toNat) :: scan.tokens, word := none }
      else scan.finishWord
  | _ => scan.finishWord

def Scan.addParameter (scan : Scan) (name : List Char) : Scan :=
  { scan.add [.parameter (String.ofList name) (scan.quote = .double)] with naming := .none }

def isOperator (c : Char) : Bool :=
  [';', '&', '|', '>', '<', '(', ')', '\n'].contains c

/-- Whether a backslash between double quotes escapes a character. -/
def isSpecial (c : Char) : Bool :=
  c = '"' || c = '\\' || c = '$'

def isNameStart (c : Char) : Bool := c.isAlpha || c = '_'

def isNamePart (c : Char) : Bool := c.isAlphanum || c = '_'

/-- Whether a character alone names a value. -/
def isShortName (c : Char) : Bool :=
  c.isDigit || ['?', '$', '#', '@', '*', '!', '-'].contains c

/-- Reads one character outside quotes that is not escaped. -/
def Scan.plain (scan : Scan) (c : Char) : Scan :=
  if c = ' ' || c = '\t' then scan.finishWord
  else if isOperator c then
    let scan := if c = '>' || c = '<' then scan.finishStream else scan.finishWord
    { scan with tokens := .operator c :: scan.tokens }
  else if c = '\'' then { scan.add [.quote] with quote := .single }
  else if c = '"' then { scan.add [.quote] with quote := .double }
  else if c = '\\' then { scan with isEscaped := true }
  else if c = '$' then { scan with naming := .started }
  else if c = '#' && scan.word.isNone then { scan with inComment := true }
  else scan.add [.char c]

/-- Reads one character that is not escaped and belongs to no name of a value. -/
def Scan.ordinary (scan : Scan) (c : Char) : Scan :=
  match scan.quote with
  | .none => scan.plain c
  | .single => if c = '\'' then { scan with quote := .none } else scan.add [.char c]
  | .double =>
      if c = '"' then { scan with quote := .none }
      else if c = '\\' then { scan with isEscaped := true }
      else if c = '$' then { scan with naming := .started }
      else scan.add [.char c]

def Scan.escaped (scan : Scan) (c : Char) : Scan :=
  let pieces := if c = '\n' then [] else if scan.quote = .double && !isSpecial c then
    [Piece.char '\\', .char c] else [.char c]
  let scan := if pieces.isEmpty then scan else scan.add pieces
  { scan with isEscaped := false }

def Scan.next (scan : Scan) (c : Char) : Scan :=
  if scan.inComment then
    if c = '\n' then { scan with inComment := false, tokens := .operator '\n' :: scan.tokens }
    else scan
  else if scan.isEscaped then scan.escaped c
  else
    match scan.naming with
    | .none => scan.ordinary c
    | .started =>
        if isShortName c then scan.addParameter [c]
        else if isNameStart c then { scan with naming := .named [c] }
        else if c.toNat = 0x7b then { scan with naming := .braced [] }
        else { scan.add [.char '$'] with naming := .none }.ordinary c
    | .named name =>
        if isNamePart c then { scan with naming := .named (name ++ [c]) }
        else (scan.addParameter name).ordinary c
    | .braced name =>
        if c.toNat = 0x7d then scan.addParameter name
        else { scan with naming := .braced (name ++ [c]) }

def Scan.finish (scan : Scan) : Scan :=
  match scan.naming with
  | .none => scan.finishWord
  | .started => (scan.add [.char '$']).finishWord
  | .named name => (scan.addParameter name).finishWord
  | .braced name => (scan.addParameter name).finishWord

/-! ## Pipelines -/

inductive Fault where
  | openQuote
  | unexpected (token : String)
  | tooShort
  | noStream
  deriving DecidableEq, Inhabited

def Fault.message : Fault → String
  | .openQuote => "Unterminated quoted string"
  | .unexpected token => "\"" ++ token ++ "\" unexpected"
  | .tooShort => "end of file unexpected"
  | .noStream => "Bad fd number"

/-- What has been read of a script: the pipelines that are complete, and the parts of the next
one. -/
structure Draft where
  pipelines : List Pipeline := []
  condition : Condition := .always
  isNegated : Bool := false
  commands : List Command := []
  command : Command := {}
  line : Nat := 1
  /-- The stream that the next redirection is about, where it is said. -/
  stream : Option Nat := none
  deriving Inhabited

def Draft.isBare (draft : Draft) : Bool :=
  draft.command.words.isEmpty && draft.command.redirections.isEmpty

/-- Whether something must follow. -/
def Draft.isOpen (draft : Draft) : Bool :=
  !draft.commands.isEmpty || draft.condition ≠ .always || draft.isNegated

def Draft.addWord (draft : Draft) (word : Word) : Draft :=
  { draft with command := { draft.command with words := draft.command.words ++ [word] } }

def Draft.pipe (draft : Draft) : Draft :=
  { draft with commands := draft.commands ++ [draft.command], command := { line := draft.line } }

/-- Completes a pipeline; `condition` is that of the next one. -/
def Draft.finish (draft : Draft) (condition : Condition) : Draft :=
  let pipeline : Pipeline :=
    ⟨draft.condition, draft.isNegated, draft.commands ++ [draft.command]⟩
  { pipelines := draft.pipelines ++ [pipeline], condition, line := draft.line,
    command := { line := draft.line } }

def Draft.endLine (draft : Draft) : Draft :=
  let draft := { draft with line := draft.line + 1 }
  if draft.isBare then { draft with command := { line := draft.line } } else draft.finish .always

def Draft.redirect (draft : Draft) (usual : Nat) (target : Target) : Draft :=
  let redirection := (draft.stream.getD usual, target)
  { draft with
    stream := none
    command := { draft.command with
      redirections := draft.command.redirections ++ [redirection] } }

/-- The target that stands for a file that is written to. -/
def targetOf (word : Word) : Target :=
  if word = "/dev/stderr".toList.map Piece.char then .stream 2
  else if word = "/dev/stdout".toList.map Piece.char then .stream 1
  else .nowhere

def streamOf (word : Word) : Except Fault Target :=
  match word with
  | [.char c] => if c.isDigit then .ok (.stream (c.toNat - '0'.toNat)) else .error .noStream
  | _ => .error .noStream

def Draft.readWord (draft : Draft) (word : Word) : Except Fault Draft :=
  if word = [.char '!'] && draft.isBare && draft.commands.isEmpty then
    if draft.isNegated then .error (.unexpected "!") else .ok { draft with isNegated := true }
  else .ok (draft.addWord word)

/-- A command must stand before an operator. -/
def Draft.before (draft : Draft) (operator : String) : Except Fault Draft :=
  if draft.isBare then .error (.unexpected operator) else .ok draft

def Draft.readAll (draft : Draft) : List Token → Except Fault Draft
  | [] =>
      if !draft.isBare then .ok (draft.finish .always)
      else if draft.isOpen then .error .tooShort
      else .ok draft
  | .word word :: rest => do (← draft.readWord word).readAll rest
  | .stream number :: rest => { draft with stream := some number }.readAll rest
  | .operator '\n' :: rest => draft.endLine.readAll rest
  | .operator ';' :: .operator ';' :: _ => .error (.unexpected ";;")
  | .operator ';' :: rest => do ((← draft.before ";").finish .always).readAll rest
  | .operator '&' :: .operator '&' :: rest => do
      ((← draft.before "&&").finish .afterSuccess).readAll rest
  | .operator '|' :: .operator '|' :: rest => do
      ((← draft.before "||").finish .afterFailure).readAll rest
  | .operator '|' :: rest => do (← draft.before "|").pipe.readAll rest
  | .operator '>' :: .operator '&' :: .word word :: rest => do
      (draft.redirect 1 (← streamOf word)).readAll rest
  | .operator '>' :: .operator '>' :: .word word :: rest =>
      (draft.redirect 1 (targetOf word)).readAll rest
  | .operator '>' :: .word word :: rest => (draft.redirect 1 (targetOf word)).readAll rest
  | .operator '<' :: .word word :: rest => (draft.redirect 0 (.file word)).readAll rest
  | [.operator _] => .error .tooShort
  | .operator c :: _ => .error (.unexpected c.toString)

def read (script : String) : Except Fault (List Pipeline) :=
  let scan := (script.toList.foldl Scan.next {}).finish
  if scan.quote = .none then
    (Draft.readAll {} scan.tokens.reverse).map Draft.pipelines
  else .error .openQuote

/-! ## Words with their values -/

/-- The parts of a piece: characters that go on with a field, and ends of fields.  A value that is
not quoted is cut at its blanks. -/
def Piece.parts (valueOf : String → String) : Piece → List (Option (List Char))
  | .char c => [some [c]]
  | .quote => [some []]
  | .parameter name true => [some (valueOf name).toList]
  | .parameter name false => (valueOf name).toList.map fun c =>
      if c = ' ' || c = '\t' || c = '\n' then none else some [c]

/-- The fields that parts make: each is a run of parts between ends. -/
def fieldsOf (parts : List (Option (List Char))) : List String :=
  let (fields, last) := parts.foldl (fun (fields, field) part =>
    match part with
    | some chars => (fields, some (field.getD [] ++ chars))
    | none => (fields ++ field.toList, none)) (([], none) : List (List Char) × Option (List Char))
  (fields ++ last.toList).map String.ofList

/-- The fields of a word; a word without quotes whose values are empty has none. -/
def Word.fields (valueOf : String → String) (word : Word) : List String :=
  fieldsOf (word.flatMap (Piece.parts valueOf))

/-- The text of a word as one field. -/
def Word.text (valueOf : String → String) (word : Word) : String :=
  String.join (word.map fun piece : Piece =>
    match piece with
    | .char c => c.toString
    | .parameter name _ => valueOf name
    | .quote => "")

def Piece.char? : Piece → Option Char
  | .char c => some c
  | _ => none

/-- The name and the value of a word that gives one to the other. -/
def Word.assignment? (word : Word) : Option (String × Word) :=
  let before := word.takeWhile (· ≠ .char '=')
  match before.mapM Piece.char?, word.drop before.length with
  | some (c :: name), _ :: value =>
      if isNameStart c && name.all isNamePart then some (String.ofList (c :: name), value) else none
  | _, _ => none

end Script

end ConfigSchema
