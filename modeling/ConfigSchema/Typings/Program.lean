/-!
# Programs

A program reads bytes and writes bytes: its output and its complaints.  It ends with a status, or
a signal ends it.  What it does not read stays for the program that reads after it.
-/

namespace ConfigSchema

inductive ProgramEnd where
  | exited (status : Nat)
  | killed (signal : Nat)
  deriving DecidableEq, Inhabited

abbrev Bytes := List UInt8

structure Outcome where
  ending : ProgramEnd := .exited 0
  output : Bytes := []
  complaints : Bytes := []
  unread : Bytes := []
  /-- How long the run takes. -/
  milliseconds : Nat := 0
  deriving DecidableEq, Inhabited

/-- A program, given its arguments and its input. -/
abbrev Program := List String → Bytes → Outcome

/-- The programs that can be run, by their names or their paths. -/
abbrev Toolbox := String → Option Program

/-- The status that a shell sees: signals have statuses of their own. -/
def ProgramEnd.status : ProgramEnd → Nat
  | .exited status => status
  | .killed signal => 128 + signal

def Bytes.ofString (text : String) : Bytes :=
  text.toUTF8.toList

/-- A run that fails with a complaint and reads nothing. -/
def Outcome.failure (status : Nat) (complaint : String) (input : Bytes) : Outcome :=
  { ending := .exited status, complaints := Bytes.ofString complaint, unread := input }

end ConfigSchema
