import ConfigSchema.Text.Surrogate

/-!
# Encodings

The bytes of a JSON text do not say how they encode it, but the text starts with characters of
one byte each, so the zero bytes at its start tell the width of its units and their order.
-/

namespace ConfigSchema

namespace Text

/-- The units that bytes are taken in. -/
inductive Encoding where
  | bytes
  | pairs (isBigEndian : Bool)
  | quads (isBigEndian : Bool)
  deriving DecidableEq, Inhabited

namespace Encoding

/-- The encoding that the first bytes of a JSON text tell. -/
def ofBytes : List UInt8 → Encoding
  | 0 :: 0 :: _ :: _ :: _ => .quads true
  | 0 :: _ :: _ :: _ :: _ => .pairs true
  | _ :: 0 :: 0 :: 0 :: _ => .quads false
  | _ :: 0 :: _ :: _ :: _ => .pairs false
  | [0, _] => .pairs true
  | [_, 0] => .pairs false
  | _ => .bytes

def number (isBigEndian : Bool) (bytes : List UInt8) : Nat :=
  (if isBigEndian then bytes else bytes.reverse).foldl (fun n b => 256 * n + b.toNat) 0

/-- The units of two bytes, unless the last one is cut short. -/
def pairsOf? (isBigEndian : Bool) : List UInt8 → Option (List Nat)
  | [] => some []
  | a :: b :: rest => (pairsOf? isBigEndian rest).map (number isBigEndian [a, b] :: ·)
  | [_] => none

def quadsOf? (isBigEndian : Bool) : List UInt8 → Option (List Nat)
  | [] => some []
  | a :: b :: c :: d :: rest =>
      (quadsOf? isBigEndian rest).map (number isBigEndian [a, b, c, d] :: ·)
  | _ => none

end Encoding

/-- The characters of bytes, unless they encode none. -/
def Encoding.decode? [Runtime] (encoding : Encoding) (bytes : List UInt8) : Option (List Char) :=
  match encoding with
  | .bytes => (String.fromUTF8? (ByteArray.mk bytes.toArray)).map String.toList
  | .pairs isBigEndian => (pairsOf? isBigEndian bytes).map joinSurrogates
  | .quads isBigEndian =>
      (quadsOf? isBigEndian bytes).bind fun codes =>
        if codes.all (· < 0x110000) then some (codes.map ofCode) else none

end Text

end ConfigSchema
