import ConfigSchema.Typings.Format
import ConfigSchema.Typings.Script

/-!
# Shells

A shell runs the pipelines of a script.  The commands of a pipeline pass their output on; the
first of them reads the input of the script, and their complaints and the output of the last one
are those of the script.
-/

namespace ConfigSchema

namespace Shell

open Script

/-! ## Shells and their calls -/

/-- What shells differ in. -/
structure Dialect where
  /-- What stands before the number of a line. -/
  lineWord : String
  /-- What is said of a program that is not there. -/
  missing : String
  echo : Program

def Dialect.plain : Dialect where
  lineWord := ""
  missing := "not found"
  echo := Format.escapedEcho

def Dialect.wordy : Dialect where
  lineWord := "line "
  missing := "command not found"
  echo := Format.plainEcho

/-- A call of a shell, with all that a script may use and not change. -/
structure Call where
  dialect : Dialect
  tools : Toolbox
  files : FileSystem
  /-- The name by which the shell is called. -/
  name : String
  /-- The name by which the script knows itself, and its arguments. -/
  arguments : List String

/-- A complaint about a line of the script. -/
def Call.complaint (call : Call) (line : Nat) (text : String) : String :=
  call.name ++ ": " ++ call.dialect.lineWord ++ toString line ++ ": " ++ text ++ "\n"

/-! ## State -/

structure State where
  unread : Bytes
  output : Bytes := []
  complaints : Bytes := []
  status : Nat := 0
  milliseconds : Nat := 0
  values : List (String × String) := [("PATH", "/usr/local/bin:/usr/bin:/bin")]
  /-- Whether a failure ends the script. -/
  stopsAtFailure : Bool := false
  /-- How the script has ended, if it has. -/
  ending : Option ProgramEnd := none
  deriving Inhabited

/-- The number by which a script knows itself. -/
def ownNumber : String := "4242"

def valueOf (call : Call) (state : State) (name : String) : String :=
  match name with
  | "?" => toString state.status
  | "$" => ownNumber
  | "#" => toString (call.arguments.length - 1)
  | "@" => " ".intercalate call.arguments.tail
  | "*" => " ".intercalate call.arguments.tail
  | name =>
      match Filter.number? name with
      | some number => (call.arguments[number]?).getD ""
      | none => (state.values.lookup name).getD ""

def State.assign (state : State) (name value : String) : State :=
  { state with values := (name, value) :: state.values }

/-! ## Commands -/

/-- What a command does: it runs as a program does, and may end the script or change what the
script knows. -/
structure Effect where
  outcome : Outcome
  ends : Bool := false
  assigned : List (String × String) := []
  stopsAtFailure : Bool := false

def Effect.fail (status : Nat) (complaint : String) (input : Bytes) : Effect :=
  { outcome := .failure status complaint input }

def signals : List (String × Nat) :=
  [("HUP", 1), ("INT", 2), ("QUIT", 3), ("ABRT", 6), ("KILL", 9), ("USR1", 10), ("SEGV", 11),
    ("USR2", 12), ("PIPE", 13), ("ALRM", 14), ("TERM", 15)]

def signal? (text : String) : Option Nat :=
  match Filter.number? text with
  | some number => if number ≤ 64 then some number else none
  | none => (signals.lookup text).or (signals.lookup (String.ofList (text.toList.drop 3)))

def kill (complaint : String → String) (arguments : List String) (input : Bytes) : Effect :=
  let signal := match arguments with
    | [_] => some 15
    | ["-s", name, _] => signal? name
    | [option, _] => signal? (String.ofList (option.toList.drop 1))
    | _ => none
  match signal with
  | some signal =>
      if arguments.getLast? ≠ some ownNumber then
        .fail 1 (complaint "kill: No such process" ++ "\n") input
      else if signal = 0 then { outcome := { unread := input } }
      else { outcome := { ending := .killed signal, unread := input }, ends := true }
  | none => .fail 2 (complaint ("kill: Illegal option " ++ arguments.headD "")) input

def exit (complaint : String → String) (status : Nat) (arguments : List String) (input : Bytes) :
    Effect :=
  match arguments with
  | [] => { outcome := { ending := .exited status, unread := input }, ends := true }
  | text :: _ =>
      match Filter.number? text with
      | some number =>
          { outcome := { ending := .exited (number % 256), unread := input }, ends := true }
      | none =>
          { outcome := .failure 2 (complaint ("exit: Illegal number: " ++ text)) input
            ends := true }

/-- Gives names to the words of a line; the last name gets all that is left. -/
def assignedWords : List String → List String → List (String × String)
  | [], _ => []
  | [name], words => [(name, " ".intercalate words)]
  | name :: names, words => (name, words.headD "") :: assignedWords names words.tail

def readLine (names : List String) (input : Bytes) : Effect :=
  let line := (Filter.linesOf input).headD []
  let text := ((String.fromUTF8? (ByteArray.mk line.toArray)).getD "").toList
  let words := fieldsOf (text.map fun c =>
    if c = ' ' || c = '\t' || c = '\n' then none else some [c])
  let isWhole := line.getLast? = some Filter.lineFeed
  { outcome :=
      { ending := .exited (if isWhole then 0 else 1), unread := input.drop line.length }
    assigned := assignedWords names words }

/-- Runs a program of the tools in the place of the script. -/
def replace (call : Call) (complaint : String → String) (input : Bytes) : List String → Effect
  | [] => { outcome := { unread := input } }
  | name :: arguments =>
      match call.tools name with
      | some program => { outcome := program arguments input, ends := true }
      | none =>
          { outcome := .failure 127 (complaint ("exec: " ++ name ++ ": not found")) input
            ends := true }

/-- What a shell does by itself, and what it leaves to programs. -/
def effect (call : Call) (status line : Nat) (input : Bytes) : List String → Effect
  | [] => { outcome := { unread := input } }
  | ":" :: _ => { outcome := { unread := input } }
  | "exit" :: arguments => exit (call.complaint line) status arguments input
  | "return" :: arguments => exit (call.complaint line) status arguments input
  | "kill" :: arguments => kill (call.complaint line) arguments input
  | "exec" :: words => replace call (call.complaint line) input words
  | "read" :: names => readLine names input
  | ["set", "-e"] => { outcome := { unread := input }, stopsAtFailure := true }
  | "echo" :: arguments => { outcome := call.dialect.echo arguments input }
  | "printf" :: arguments =>
      let misuse := Outcome.failure 2
        (call.complaint line "printf: usage: printf format [arg ...]")
      { outcome := Format.formatted misuse arguments input }
  | name :: arguments =>
      match call.tools name with
      | some program => { outcome := program arguments input }
      | none => .fail 127 (call.complaint line (name ++ ": " ++ call.dialect.missing)) input

/-- What comes of the words of a command.  Words that only give values to names change what the
script knows; before a command they are for the command. -/
def effectOfWords (call : Call) (state : State) (line : Nat) (input : Bytes) (words : List Word) :
    Effect :=
  let valueOf := valueOf call state
  let assigned := (words.map Word.assignment?).takeWhile Option.isSome |>.filterMap id
  let rest := words.drop assigned.length
  if rest.isEmpty then
    { outcome := { unread := input }
      assigned := assigned.map fun (name, value) => (name, Word.text valueOf value) }
  else effect call state.status line input (rest.flatMap (Word.fields valueOf))

/-! ## Redirections -/

/-- Where the streams of a command go after its redirections, the later ones seeing the
earlier. -/
def routes (redirections : List (Nat × Target)) : Target × Target :=
  redirections.foldl (fun (output, complaints) (stream, target) =>
    let target := match target with
      | .stream 1 => output
      | .stream 2 => complaints
      | other => other
    if stream = 1 then (target, complaints)
    else if stream = 2 then (output, target)
    else (output, complaints)) (.stream 1, .stream 2)

/-- The bytes that a target receives from a stream. -/
def received (number : Nat) (target : Target) (bytes : Bytes) : Bytes :=
  if target = .stream number then bytes else []

/-- What a file holds for a command that reads it, or its name if there is none. -/
def contentOf (files : FileSystem) (name : String) : Except String Bytes :=
  if name = "/dev/null" then .ok []
  else
    match files.content? (Path.ofText name) with
    | some content => .ok content.toList
    | none => .error name

/-- The input that the redirections of a command give it, if they do. -/
def givenInput (call : Call) (state : State) (redirections : List (Nat × Target)) :
    Except String (Option Bytes) :=
  redirections.foldlM (fun given (_, target) =>
    match target with
    | .file name => do
        return some (← contentOf call.files (Word.text (valueOf call state) name))
    | _ => return given) none

/-! ## Running -/

/-- What comes of a command on an input.  What a redirection gives it leaves the input as it
is. -/
def effectOf (call : Call) (state : State) (input : Bytes) (command : Command) : Effect :=
  match givenInput call state command.redirections with
  | .error name =>
      .fail 2 (call.complaint command.line ("cannot open " ++ name ++ ": No such file")) input
  | .ok none => effectOfWords call state command.line input command.words
  | .ok (some given) =>
      let effect := effectOfWords call state command.line given command.words
      { effect with outcome := { effect.outcome with unread := input } }

/-- Takes what comes of a command into the state; what goes to the output is returned. -/
def State.note (state : State) (redirections : List (Nat × Target)) (outcome : Outcome) :
    State × Bytes :=
  let (output, complaints) := routes redirections
  let toOutput := received 1 output outcome.output ++ received 1 complaints outcome.complaints
  let toComplaints := received 2 output outcome.output ++ received 2 complaints outcome.complaints
  ({ state with
      complaints := state.complaints ++ toComplaints
      status := outcome.ending.status
      milliseconds := state.milliseconds + outcome.milliseconds }, toOutput)

/-- Runs a command that is a whole pipeline. -/
def runAlone (call : Call) (state : State) (command : Command) : State :=
  let effect := effectOf call state state.unread command
  let (state, output) := state.note command.redirections effect.outcome
  let state := effect.assigned.foldl (fun state (name, value) => state.assign name value) state
  { state with
    output := state.output ++ output
    unread := effect.outcome.unread
    stopsAtFailure := state.stopsAtFailure || effect.stopsAtFailure
    ending := if effect.ends then some effect.outcome.ending else none }

/-- Runs the commands of a pipeline, each on the output of the one before.  They change nothing
that the script knows. -/
def runJoined (call : Call) (state : State) (input : Bytes) : List Command → State × Bytes
  | [] => (state, input)
  | command :: rest =>
      let effect := effectOf call state input command
      let (state, output) := state.note command.redirections effect.outcome
      runJoined call state output rest

/-- Runs the commands of a pipeline; the first of them reads what the script reads. -/
def runCommands (call : Call) (state : State) : List Command → State
  | [] => state
  | [command] => runAlone call state command
  | command :: rest =>
      let effect := effectOf call state state.unread command
      let (state, output) := state.note command.redirections effect.outcome
      let (state, output) := runJoined call state output rest
      { state with output := state.output ++ output, unread := effect.outcome.unread }

/-- A status with its meaning turned round. -/
def negated (status : Nat) : Nat := if status = 0 then 1 else 0

def runPipeline (call : Call) (state : State) (pipeline : Pipeline) : State :=
  let state := runCommands call state pipeline.commands
  if pipeline.isNegated && state.ending.isNone then
    { state with status := negated state.status }
  else state

/-- Whether a failure of a pipeline ends the script: what depends on it does not. -/
def isFinal (pipeline : Pipeline) (rest : List Pipeline) : Bool :=
  !pipeline.isNegated && (rest.head?.map Pipeline.condition).getD .always = .always

def runPipelines (call : Call) (state : State) : List Pipeline → State
  | [] => state
  | pipeline :: rest =>
      if !pipeline.condition.isMet state.status then runPipelines call state rest
      else
        let state := runPipeline call state pipeline
        if state.ending.isSome then state
        else if state.stopsAtFailure && state.status ≠ 0 && isFinal pipeline rest then state
        else runPipelines call state rest

def run (call : Call) (stopsAtFailure : Bool) (script : String) (input : Bytes) : Outcome :=
  match read script with
  | .error fault =>
      .failure 2 (call.complaint 1 ("Syntax error: " ++ fault.message)) input
  | .ok pipelines =>
      let state := runPipelines call { unread := input, stopsAtFailure } pipelines
      { ending := state.ending.getD (.exited state.status)
        output := state.output
        complaints := state.complaints
        unread := state.unread
        milliseconds := state.milliseconds }

/-- What the arguments of a shell ask for. -/
structure Request where
  /-- Whether the script is an argument. -/
  isInline : Bool := false
  stopsAtFailure : Bool := false
  rest : List String := []

/-- The options of a call, which stand before everything else. -/
def request (call : Call) (given : Request) : List String → Except String Request
  | [] => .ok given
  | "-" :: rest => .ok { given with rest }
  | "--" :: rest => .ok { given with rest }
  | argument :: rest =>
      match Filter.letters? argument with
      | none => .ok { given with rest := argument :: rest }
      | some letters =>
          match letters.find? fun letter => !"cesu".toList.contains letter with
          | some letter =>
              .error (call.complaint 0 ("Illegal option -" ++ letter.toString))
          | none => request call
              { given with
                isInline := given.isInline || letters.contains 'c'
                stopsAtFailure := given.stopsAtFailure || letters.contains 'e' } rest

/-- A shell as a program: a script is given as a text, in a file, or as the input. -/
def program (dialect : Dialect) (tools : Toolbox) (files : FileSystem) (name : String) : Program :=
  fun arguments input =>
    let call : Call := { dialect, tools, files, name, arguments := [name] }
    match request call {} arguments with
    | .error complaint => .failure 2 complaint input
    | .ok { isInline := true, stopsAtFailure, rest } =>
        match rest with
        | script :: more =>
            let more := if more.isEmpty then [name] else more
            run { call with name := more.headD name, arguments := more } stopsAtFailure script input
        | [] => .failure 2 (call.complaint 0 "-c requires an argument") input
    | .ok { isInline := false, stopsAtFailure, rest } =>
        match rest with
        | file :: more =>
            match (files.content? (Path.ofText file)).bind String.fromUTF8? with
            | some script =>
                run { call with name := file, arguments := file :: more } stopsAtFailure script
                  input
            | none =>
                .failure 2 (call.complaint 0 ("cannot open " ++ file ++ ": No such file")) input
        | [] =>
            match String.fromUTF8? (ByteArray.mk input.toArray) with
            | some script => run call stopsAtFailure script []
            | none => { unread := [] }

end Shell

end ConfigSchema
