import ConfigSchema.Json.Reader
import ConfigSchema.Text.Encoding

/-!
# Services

A service describes its schema when it is asked.  What can come back is a reply with a status and
a body, or nothing at all.
-/

namespace ConfigSchema

inductive Reply where
  | answered (status : Int) (body : String)
  | timedOut
  | unreachable
  deriving DecidableEq, Inhabited

abbrev Web := String → Reply

structure Asking where
  timeout : Json
  headers : Entries Json := []
  deriving Inhabited

structure Request where
  url : String
  asking : Asking
  deriving Inhabited

/-- Why there is no value to a reply. -/
inductive Unanswered where
  /-- It is no success, or its body is no JSON text. -/
  | failed
  /-- The bytes of its body are no text. -/
  | undecodable
  /-- Its body is a text that has no bytes. -/
  | unencodable
  | beyond (limit : Json.Limit)
  deriving DecidableEq, Inhabited

/-- The text that the bytes of a body are read as; a byte order mark in front of it is no part of
it. -/
def bodyText? [Runtime] (bytes : List UInt8) : Option String :=
  (match bytes with
    | 0xEF :: 0xBB :: 0xBF :: rest => Text.Encoding.bytes.decode? rest
    | bytes => (Text.Encoding.ofBytes bytes).decode? bytes).map String.ofList

def bodyValue [Runtime] (body : String) : Except Unanswered Json :=
  match bodyText? body.toUTF8.toList with
  | none => .error .undecodable
  | some text =>
      match Json.read text .answer with
      | .ok value => .ok value
      | .error .malformed => .error .failed
      | .error (.beyond limit) => .error (.beyond limit)

/-- The value that a reply brings. -/
def Reply.value [Runtime] : Reply → Except Unanswered Json
  | .answered status body =>
      if Text.hasSurrogate body then .error .unencodable
      else if 200 ≤ status ∧ status ≤ 299 then bodyValue body
      else .error .failed
  | .timedOut => .error .failed
  | .unreachable => .error .failed

end ConfigSchema
