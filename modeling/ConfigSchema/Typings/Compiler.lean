import ConfigSchema.Files.Name
import ConfigSchema.Json.Basic
import ConfigSchema.Log
import ConfigSchema.Settings
import ConfigSchema.Text.Blank
import ConfigSchema.Text.Newline
import ConfigSchema.Typings.Program

/-!
# Compiling type declarations

The text of a schema document goes through a program that turns it into type declarations.  The
program may be missing, take too long, or end in failure.
-/

namespace ConfigSchema

inductive TypingsError where
  /-- The setting is no command. -/
  | unusable
  | notFound (command : List String)
  | timedOut
  | failed (status : Int) (complaint : String)
  /-- What the program writes is no text. -/
  | undecodable
  /-- A word of the command, or the document, cannot be handed to the program. -/
  | unnamable (fault : NameFault)
  deriving DecidableEq, Inhabited

def TypingsError.message : TypingsError → Option String
  | .unusable => none
  | .notFound command =>
      let words := " ".intercalate command
      some ("Typings compiler not found: " ++ if words = "" then "<empty command>" else words)
  | .timedOut => some "Typings compiler failed"
  | .failed status complaint =>
      some ("Typings compiler exited with status " ++ toString status ++ ": " ++ complaint)
  | .undecodable => none
  | .unnamable _ => none

namespace Typings

/-- The words of a command setting: items, the characters of a text, or names.  A setting that
counts as not given stands for the usual command. -/
def words? (setting : Json) : Option (List Json) :=
  if !setting.isTruthy then some (Settings.defaultTypingsCommand.map .str)
  else
    match setting with
    | .arr items => some items
    | .str text => some (text.toList.map fun c => .str c.toString)
    | .obj entries => some (entries.map fun entry => .str entry.1)
    | _ => none

def isAvailable (tools : Toolbox) (setting : Json) : Except TypingsError Bool :=
  match words? setting with
  | some (.str name :: _) => .ok (tools name).isSome
  | some [] => .ok false
  | _ => .error .unusable

/-- A command whose words are texts. -/
def command? (setting : Json) : Option (List String) :=
  (words? setting).bind fun words => words.mapM Json.text?

/-- The milliseconds that a time in seconds allows; the outer level is missing where a value is no
time, and the inner one where there is no limit. -/
def allowance? : Json → Option (Option Int)
  | .null => some none
  | .bool b => some (some (if b then 1000 else 0))
  | .int seconds => some (some (1000 * seconds))
  | .float (.finite negative significand exponent) =>
      let thousands := 1000 * significand
      let magnitude := if exponent < 0 then thousands >>> exponent.natAbs
        else thousands <<< exponent.natAbs
      some (some (if negative then -(magnitude : Int) else magnitude))
  | .float _ => some none
  | _ => none

def isTooSlow (allowance : Option Int) (outcome : Outcome) : Bool :=
  match allowance with
  | none => false
  | some allowance => allowance ≤ 0 || allowance ≤ outcome.milliseconds

/-- The status of an ending; that of a signal is negative. -/
def statusOf : ProgramEnd → Int
  | .exited status => status
  | .killed signal => -signal

def textOf (bytes : Bytes) : Except TypingsError String :=
  match Text.decoded? (ByteArray.mk bytes.toArray) with
  | some text => .ok text
  | none => .error .undecodable

def resultOf (outcome : Outcome) : Except TypingsError String := do
  let output ← textOf outcome.output
  let complaint ← textOf outcome.complaints
  let status := statusOf outcome.ending
  if status ≠ 0 then .error (.failed status (Text.stripped complaint)) else .ok output

/-- What is wrong with the input of a program: it may hold a zero, but no lone surrogate. -/
def inputFault? [Runtime] (document : String) : Option NameFault :=
  if Text.hasSurrogate document then some .unencodable else none

/-- Runs a program on a document. -/
def runProgram [Runtime] (program : Program) (arguments : List String) (timeout : Json)
    (document : String) : Except TypingsError String :=
  match arguments.findSome? Files.nameFault?, allowance? timeout, inputFault? document with
  | some fault, _, _ => .error (.unnamable fault)
  | none, none, _ => .error .unusable
  | none, some _, some fault => .error (.unnamable fault)
  | none, some allowance, none =>
      let outcome := program arguments (Bytes.ofString document)
      if isTooSlow allowance outcome then .error .timedOut else resultOf outcome

def compile [Runtime] (tools : Toolbox) (setting timeout : Json) (document : String) :
    Except TypingsError String :=
  match command? setting with
  | none => .error .unusable
  | some [] => .error (.notFound [])
  | some (name :: arguments) =>
      match tools name with
      | none => .error (.notFound (name :: arguments))
      | some program => runProgram program arguments timeout document

def log (tools : Toolbox) (setting : Json) : Log :=
  match command? setting with
  | some (name :: arguments) =>
      if (tools name).isSome then
        [⟨.debug, .typings,
          "Running typings compiler: " ++ " ".intercalate (name :: arguments)⟩]
      else []
  | _ => []

/-- The seconds that a run may take unless something else is said. -/
def defaultTimeout : Json := .int 120

end Typings

end ConfigSchema
