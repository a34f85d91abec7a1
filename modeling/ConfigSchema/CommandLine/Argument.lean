/-!
# Arguments

A command line is a row of options, their values, and plain arguments in any order.  An option
has a long name or a letter.  A value follows its option in the next argument, behind an equals
sign after a long name, or right behind a letter; letters without values may stand together.
After two hyphens all arguments are plain.
-/

namespace ConfigSchema

inductive CommandOption where
  | schema
  | json
  | rootType
  | typings
  | docs
  | settings
  | verbose
  | help
  deriving DecidableEq, Inhabited

inductive Given where
  | value (option : CommandOption) (text : String)
  | flag (option : CommandOption)
  | plain (text : String)
  deriving DecidableEq, Inhabited

namespace CommandOption

def takesValue : CommandOption → Bool
  | .verbose | .help => false
  | _ => true

def longNames : List (String × CommandOption) :=
  [("--schema", .schema), ("--json", .json), ("--rootType", .rootType), ("--typings", .typings),
    ("--markdown", .docs), ("--md", .docs), ("--config", .settings), ("--verbose", .verbose),
    ("--help", .help)]

/-- The options in the order in which they are declared. -/
def all : List CommandOption :=
  [.schema, .json, .rootType, .typings, .docs, .settings, .verbose, .help]

def letters : List (Char × CommandOption) :=
  [('c', .settings), ('v', .verbose)]

end CommandOption

def Given.option? : Given → Option CommandOption
  | .value option _ => some option
  | .flag option => some option
  | .plain _ => none

namespace CommandLine

/-- What one argument that starts with a hyphen says: what it gives, and the option that still
waits for its value. -/
structure Reading where
  given : List Given := []
  waiting : Option CommandOption := none
  deriving DecidableEq, Inhabited

/-- Reads letters that stand together; nothing if one of them is no option. -/
def readLetters? : List Char → Option Reading
  | [] => some {}
  | letter :: rest =>
      match CommandOption.letters.lookup letter with
      | none => none
      | some option =>
          if option.takesValue then
            if rest.isEmpty then some { waiting := some option }
            else some { given := [.value option (String.ofList rest)] }
          else
            (readLetters? rest).map fun reading =>
              { reading with given := .flag option :: reading.given }

/-- Reads an argument that starts with a hyphen; nothing if it is no option, or has a value that
its option does not take. -/
def readOption? (argument : String) : Option Reading :=
  let chars := argument.toList
  let name := chars.takeWhile (· ≠ '=')
  let behind := chars.dropWhile (· ≠ '=')
  match CommandOption.longNames.lookup (String.ofList name) with
  | some option =>
      match option.takesValue, behind with
      | true, [] => some { waiting := some option }
      | true, _ :: text => some { given := [.value option (String.ofList text)] }
      | false, [] => some { given := [.flag option] }
      | false, _ :: _ => none
  | none => if chars.take 2 = ['-', '-'] then none else readLetters? (chars.drop 1)

def isOption (argument : String) : Bool :=
  argument.toList.head? = some '-' && 1 < argument.length

/-- What arguments give, in their order; nothing if they cannot be read. -/
def read? : List String → Option (List Given)
  | [] => some []
  | "--" :: rest => some (rest.map .plain)
  | argument :: rest =>
      if isOption argument then
        match readOption? argument with
        | none => none
        | some { given, waiting := none } => (read? rest).map (given ++ ·)
        | some { given, waiting := some option } =>
            match rest with
            | [] => none
            | text :: rest => (read? rest).map (given ++ .value option text :: ·)
      else (read? rest).map (.plain argument :: ·)

/-- The values of an option, in their order. -/
def values (option : CommandOption) (given : List Given) : List String :=
  given.filterMap fun
    | .value own text => if own = option then some text else none
    | _ => none

/-- The value of an option that counts: the last one. -/
def value? (option : CommandOption) (given : List Given) : Option String :=
  (values option given).getLast?

def plains (given : List Given) : List String :=
  given.filterMap fun
    | .plain text => some text
    | _ => none

def hasFlag (option : CommandOption) (given : List Given) : Bool :=
  given.contains (.flag option)

end CommandLine

end ConfigSchema
