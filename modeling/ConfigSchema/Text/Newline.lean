/-!
# Line breaks

A text that comes from outside may end its lines in a carriage return, a line feed, or both in
this order.  Inside the program a line feed ends a line.
-/

namespace ConfigSchema

namespace Text

/-- Every line break as one line feed. -/
def withLineFeeds : List Char → List Char
  | [] => []
  | '\r' :: '\n' :: rest => '\n' :: withLineFeeds rest
  | '\r' :: rest => '\n' :: withLineFeeds rest
  | c :: rest => c :: withLineFeeds rest

/-- The text of bytes, if they encode one. -/
def decoded? (bytes : ByteArray) : Option String :=
  (String.fromUTF8? bytes).map fun text => String.ofList (withLineFeeds text.toList)

end Text

end ConfigSchema
