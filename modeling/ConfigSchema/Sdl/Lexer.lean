import ConfigSchema.Sdl.Document
import ConfigSchema.Text.Surrogate

/-!
# Tokens

A text is cut into tokens from the left, each as long as it can be.  Blanks, line ends, commas,
byte order marks and comments stand between tokens and mean nothing.  Every token class has a
function of its own, which takes the text at the token and returns what follows it.
-/

namespace ConfigSchema

namespace Sdl

/-- A lexical unit.  Marks are single characters of punctuation. -/
inductive Token where
  | mark (c : Char)
  /-- Three points. -/
  | spread
  | name (text : String)
  | int (text : String)
  | float (text : String)
  | string (literal : Literal)
  deriving DecidableEq, Inhabited

namespace Lexer

def isIgnored (c : Char) : Bool :=
  c = ' ' || c = '\t' || c = '\n' || c = '\r' || c = ',' || c = '\uFEFF'

def isLineEnd (c : Char) : Bool := c = '\n' || c = '\r'

def isDigit (c : Char) : Bool := '0' ≤ c && c ≤ '9'

def isNameStart (c : Char) : Bool :=
  ('a' ≤ c && c ≤ 'z') || ('A' ≤ c && c ≤ 'Z') || c = '_'

def isNamePart (c : Char) : Bool := isNameStart c || isDigit c

def isMark (c : Char) : Bool :=
  ['!', '$', '&', '(', ')', ':', '=', '@', '[', ']', '\x7b', '|', '\x7d'].contains c

theorem length_dropWhile_le (p : Char → Bool) (s : List Char) :
    (s.dropWhile p).length ≤ s.length :=
  (List.dropWhile_sublist p).length_le

/-! ## Numbers -/

/-- At least one digit. -/
def digits (s : List Char) : Option (List Char × List Char) :=
  let found := s.takeWhile isDigit
  if found.isEmpty then none else some (found, s.dropWhile isDigit)

/-- The digits before a point; a leading zero stands alone. -/
def wholePart (s : List Char) : Option (List Char × List Char) :=
  match digits s with
  | some (found, rest) =>
      if found.length > 1 ∧ found.head? = some '0' then none else some (found, rest)
  | none => none

/-- A point with digits, or nothing where there is no point. -/
def fractionPart : List Char → Option (List Char × List Char)
  | '.' :: rest => (digits rest).map fun (found, rest) => ('.' :: found, rest)
  | s => some ([], s)

/-- The digits of an exponent after an optional sign. -/
def signedDigits : List Char → Option (List Char × List Char)
  | '-' :: rest => (digits rest).map fun (found, rest) => ('-' :: found, rest)
  | '+' :: rest => (digits rest).map fun (found, rest) => ('+' :: found, rest)
  | s => digits s

def exponentPart : List Char → Option (List Char × List Char)
  | [] => some ([], [])
  | c :: rest =>
      if c = 'e' ∨ c = 'E' then (signedDigits rest).map fun (found, rest) => (c :: found, rest)
      else some ([], c :: rest)

/-- What must not follow a number at once. -/
def extendsNumber : List Char → Bool
  | [] => false
  | c :: _ => c = '.' || isNameStart c

/-- A number without its sign. -/
def unsignedNumber (sign s : List Char) : Option (Token × List Char) := do
  let (whole, s) ← wholePart s
  let (fraction, s) ← fractionPart s
  let (exponent, s) ← exponentPart s
  if extendsNumber s then none
  else
    let text := String.ofList (sign ++ whole ++ fraction ++ exponent)
    if fraction.isEmpty && exponent.isEmpty then some (.int text, s) else some (.float text, s)

def number : List Char → Option (Token × List Char)
  | '-' :: rest => unsignedNumber ['-'] rest
  | s => unsignedNumber [] s

/-! ## Strings -/

def simpleEscape? : Char → Option Char
  | '"' => some '"'
  | '\\' => some '\\'
  | '/' => some '/'
  | 'b' => some '\x08'
  | 'f' => some '\x0c'
  | 'n' => some '\n'
  | 'r' => some '\r'
  | 't' => some '\t'
  | _ => none

def char? (code : Nat) : Option Char :=
  if code.isValidChar then some (Char.ofNat code) else none

/-- An escape of up to eight digits in braces, the opening one already read. -/
def bracedEscape (s : List Char) : Option (Char × List Char) :=
  let found := s.takeWhile fun c => (Text.hexDigit? c).isSome
  match s.dropWhile fun c => (Text.hexDigit? c).isSome with
  | '\x7d' :: rest =>
      if found.isEmpty ∨ found.length > 8 then none
      else ((Text.hexValue? found).bind char?).map (·, rest)
  | _ => none

/-- An escape of four digits; a high surrogate takes the low one that follows. -/
def fixedEscape (a b c d : Char) (rest : List Char) : Option (Char × List Char) :=
  match Text.hexValue? [a, b, c, d] with
  | none => none
  | some code =>
      if Text.isHighSurrogate code then
        match rest with
        | '\\' :: 'u' :: e :: f :: g :: h :: rest =>
            match Text.hexValue? [e, f, g, h] with
            | some low =>
                if Text.isLowSurrogate low then
                  (char? (Text.pairedSurrogates code low)).map (·, rest)
                else none
            | none => none
        | _ => none
      else (char? code).map (·, rest)

def escape : List Char → Option (Char × List Char)
  | 'u' :: '\x7b' :: rest => bracedEscape rest
  | 'u' :: a :: b :: c :: d :: rest => fixedEscape a b c d rest
  | c :: rest => (simpleEscape? c).map (·, rest)
  | [] => none

theorem bracedEscape_length {s rest : List Char} {c : Char}
    (h : bracedEscape s = some (c, rest)) : rest.length < s.length := by
  unfold bracedEscape at h
  split at h
  · next tail heq =>
      dsimp only at h
      split at h
      · simp at h
      · have hle := length_dropWhile_le (fun c => (Text.hexDigit? c).isSome) s
        rw [heq] at hle
        simp only [Option.map_eq_some_iff, Prod.mk.injEq] at h
        obtain ⟨_, _, _, rfl⟩ := h
        simp only [List.length_cons] at hle
        omega
  · simp at h

theorem fixedEscape_length {a b c d e : Char} {s rest : List Char}
    (h : fixedEscape a b c d s = some (e, rest)) : rest.length ≤ s.length := by
  unfold fixedEscape at h
  split at h
  · simp at h
  · split at h
    · split at h
      · split at h
        · split at h
          · simp only [Option.map_eq_some_iff, Prod.mk.injEq] at h
            obtain ⟨_, _, _, rfl⟩ := h
            simp only [List.length_cons]
            omega
          · simp at h
        · simp at h
      · simp at h
    · simp only [Option.map_eq_some_iff, Prod.mk.injEq] at h
      obtain ⟨_, _, _, rfl⟩ := h
      exact Nat.le_refl _

theorem escape_length {s rest : List Char} {c : Char} (h : escape s = some (c, rest)) :
    rest.length < s.length := by
  unfold escape at h
  split at h
  · have := bracedEscape_length h
    simp only [List.length_cons]
    omega
  · have := fixedEscape_length h
    simp only [List.length_cons]
    omega
  · simp only [Option.map_eq_some_iff, Prod.mk.injEq] at h
    obtain ⟨_, _, _, rfl⟩ := h
    simp
  · simp at h

/-- The characters of a string up to its closing quote, in reverse, after those already seen.
A string does not go over a line end. -/
def stringBody (seen : List Char) (s : List Char) : Option (List Char × List Char) :=
  match s with
  | [] => none
  | '"' :: rest => some (seen, rest)
  | '\\' :: rest =>
      match _h : escape rest with
      | some (c, tail) => stringBody (c :: seen) tail
      | none => none
  | c :: rest => if isLineEnd c then none else stringBody (c :: seen) rest
termination_by s.length
decreasing_by
  · have := escape_length _h
    simp only [List.length_cons]
    omega
  · simp

/-- The lines of a block string up to its closing quotes, the first of them begun already, its
characters in reverse.  The quotes themselves are the only thing that can be escaped. -/
def blockLines (line : List Char) : List Char → Option (List (List Char) × List Char)
  | [] => none
  | '"' :: '"' :: '"' :: rest => some ([line.reverse], rest)
  | '\\' :: '"' :: '"' :: '"' :: rest => blockLines ('"' :: '"' :: '"' :: line) rest
  | '\r' :: '\n' :: rest =>
      (blockLines [] rest).map fun (lines, rest) => (line.reverse :: lines, rest)
  | '\r' :: rest => (blockLines [] rest).map fun (lines, rest) => (line.reverse :: lines, rest)
  | '\n' :: rest => (blockLines [] rest).map fun (lines, rest) => (line.reverse :: lines, rest)
  | c :: rest => blockLines (c :: line) rest

def isIndent (c : Char) : Bool := c = ' ' || c = '\t'

def isBlankLine (line : List Char) : Bool := line.all isIndent

/-- The indentation that all lines share which are not blank. -/
def commonIndent (lines : List (List Char)) : Nat :=
  (((lines.filter fun line => !isBlankLine line).map fun line =>
    (line.takeWhile isIndent).length).min?).getD 0

/-- The lines of a block without their common indentation, which the first line does not count
for, and without the blank lines at both ends. -/
def dedented : List (List Char) → List (List Char)
  | [] => []
  | first :: rest =>
      let indent := commonIndent rest
      let lines := first :: rest.map (·.drop indent)
      ((lines.dropWhile isBlankLine).reverse.dropWhile isBlankLine).reverse

def blockValue (lines : List (List Char)) : String :=
  "\n".intercalate ((dedented lines).map String.ofList)

/-- A string whose first quote is already read. -/
def string : List Char → Option (Token × List Char)
  | '"' :: '"' :: rest =>
      (blockLines [] rest).map fun (lines, rest) => (.string ⟨blockValue lines, true⟩, rest)
  | s =>
      (stringBody [] s).map fun (seen, rest) =>
        (.string ⟨String.ofList seen.reverse, false⟩, rest)

/-! ## Texts -/

def token : List Char → Option (Token × List Char)
  | [] => none
  | '.' :: '.' :: '.' :: rest => some (.spread, rest)
  | '"' :: rest => string rest
  | c :: rest =>
      if isMark c then some (.mark c, rest)
      else if isNameStart c then
        some (.name (String.ofList (c :: rest.takeWhile isNamePart)), rest.dropWhile isNamePart)
      else if isDigit c || c = '-' then number (c :: rest)
      else none

theorem digits_length {s found rest : List Char} (h : digits s = some (found, rest)) :
    rest.length < s.length := by
  unfold digits at h
  by_cases hempty : (s.takeWhile isDigit).isEmpty = true
  · simp [hempty] at h
  · simp only [hempty, Bool.false_eq_true, if_false, Option.some.injEq, Prod.mk.injEq] at h
    obtain ⟨_, rfl⟩ := h
    have hsplit := congrArg List.length (List.takeWhile_append_dropWhile (p := isDigit) (l := s))
    have hpos : 0 < (s.takeWhile isDigit).length := by
      apply List.length_pos_iff.2
      simpa using hempty
    simp only [List.length_append] at hsplit
    omega

theorem wholePart_length {s found rest : List Char} (h : wholePart s = some (found, rest)) :
    rest.length < s.length := by
  unfold wholePart at h
  split at h
  · next heq =>
      split at h
      · simp at h
      · simp only [Option.some.injEq, Prod.mk.injEq] at h
        obtain ⟨_, rfl⟩ := h
        exact digits_length heq
  · simp at h

theorem fractionPart_length {s found rest : List Char}
    (h : fractionPart s = some (found, rest)) : rest.length ≤ s.length := by
  unfold fractionPart at h
  split at h
  · simp only [Option.map_eq_some_iff, Prod.mk.injEq] at h
    obtain ⟨⟨_, _⟩, hdigits, _, rfl⟩ := h
    have := digits_length hdigits
    simp only [List.length_cons]
    omega
  · simp only [Option.some.injEq, Prod.mk.injEq] at h
    simp [h.2]

theorem signedDigits_length {s found rest : List Char}
    (h : signedDigits s = some (found, rest)) : rest.length < s.length := by
  unfold signedDigits at h
  split at h
  · simp only [Option.map_eq_some_iff, Prod.mk.injEq] at h
    obtain ⟨⟨_, _⟩, hdigits, _, rfl⟩ := h
    have := digits_length hdigits
    simp only [List.length_cons]
    omega
  · simp only [Option.map_eq_some_iff, Prod.mk.injEq] at h
    obtain ⟨⟨_, _⟩, hdigits, _, rfl⟩ := h
    have := digits_length hdigits
    simp only [List.length_cons]
    omega
  · exact digits_length h

theorem exponentPart_length {s found rest : List Char}
    (h : exponentPart s = some (found, rest)) : rest.length ≤ s.length := by
  unfold exponentPart at h
  split at h
  · simp only [Option.some.injEq, Prod.mk.injEq] at h
    simp [h.2.symm]
  · split at h
    · simp only [Option.map_eq_some_iff, Prod.mk.injEq] at h
      obtain ⟨⟨_, _⟩, hdigits, _, rfl⟩ := h
      have := signedDigits_length hdigits
      simp only [List.length_cons]
      omega
    · simp only [Option.some.injEq, Prod.mk.injEq] at h
      simp [h.2.symm]

theorem unsignedNumber_length {sign s rest : List Char} {t : Token}
    (h : unsignedNumber sign s = some (t, rest)) : rest.length < s.length := by
  simp only [unsignedNumber, Option.bind_eq_bind, Option.bind_eq_some_iff, Prod.exists] at h
  obtain ⟨_, s₁, hwhole, _, s₂, hfraction, _, s₃, hexponent, h⟩ := h
  have h₁ := wholePart_length hwhole
  have h₂ := fractionPart_length hfraction
  have h₃ := exponentPart_length hexponent
  split at h
  · simp at h
  · have : rest = s₃ := by
      split at h <;> simp only [Option.some.injEq, Prod.mk.injEq] at h <;> exact h.2.symm
    subst this
    omega

theorem number_length {s rest : List Char} {t : Token} (h : number s = some (t, rest)) :
    rest.length < s.length := by
  unfold number at h
  split at h
  · have := unsignedNumber_length h
    simp only [List.length_cons]
    omega
  · exact unsignedNumber_length h

theorem stringBody_length {seen s value rest : List Char}
    (h : stringBody seen s = some (value, rest)) : rest.length < s.length := by
  fun_induction stringBody seen s with
  | case1 => simp at h
  | case2 =>
      simp only [Option.some.injEq, Prod.mk.injEq] at h
      simp [h.2]
  | case3 _ _ _ _ hescape ih =>
      have := escape_length hescape
      have := ih h
      simp only [List.length_cons]
      omega
  | case4 => simp at h
  | case5 => simp at h
  | case6 _ _ _ _ _ _ ih =>
      have := ih h
      simp only [List.length_cons]
      omega

theorem blockLines_length {line s rest : List Char} {lines : List (List Char)}
    (h : blockLines line s = some (lines, rest)) : rest.length < s.length := by
  fun_induction blockLines line s generalizing lines rest with
  | case1 => simp at h
  | case2 =>
      simp only [Option.some.injEq, Prod.mk.injEq] at h
      simp only [h.2, List.length_cons]
      omega
  | case3 _ _ ih =>
      have := ih h
      simp only [List.length_cons]
      omega
  | case4 _ _ ih =>
      simp only [Option.map_eq_some_iff, Prod.mk.injEq] at h
      obtain ⟨⟨_, _⟩, hlines, _, rfl⟩ := h
      have := ih hlines
      simp only [List.length_cons]
      omega
  | case5 _ _ _ ih =>
      simp only [Option.map_eq_some_iff, Prod.mk.injEq] at h
      obtain ⟨⟨_, _⟩, hlines, _, rfl⟩ := h
      have := ih hlines
      simp only [List.length_cons]
      omega
  | case6 _ _ ih =>
      simp only [Option.map_eq_some_iff, Prod.mk.injEq] at h
      obtain ⟨⟨_, _⟩, hlines, _, rfl⟩ := h
      have := ih hlines
      simp only [List.length_cons]
      omega
  | case7 _ _ _ _ _ _ _ _ ih =>
      have := ih h
      simp only [List.length_cons]
      omega

theorem string_length {s rest : List Char} {t : Token} (h : string s = some (t, rest)) :
    rest.length < s.length := by
  unfold string at h
  split at h
  · simp only [Option.map_eq_some_iff, Prod.mk.injEq] at h
    obtain ⟨⟨_, _⟩, hlines, _, rfl⟩ := h
    have := blockLines_length hlines
    simp only [List.length_cons]
    omega
  · simp only [Option.map_eq_some_iff, Prod.mk.injEq] at h
    obtain ⟨⟨_, _⟩, hbody, _, rfl⟩ := h
    exact stringBody_length hbody

/-- Every token takes at least one character. -/
theorem token_length {s rest : List Char} {t : Token} (h : token s = some (t, rest)) :
    rest.length < s.length := by
  unfold token at h
  split at h
  · simp at h
  · simp only [Option.some.injEq, Prod.mk.injEq] at h
    simp only [h.2.symm, List.length_cons]
    omega
  · have := string_length h
    simp only [List.length_cons]
    omega
  · split at h
    · simp only [Option.some.injEq, Prod.mk.injEq] at h
      simp [h.2.symm]
    · split at h
      · simp only [Option.some.injEq, Prod.mk.injEq] at h
        rw [← h.2]
        exact Nat.lt_succ_of_le (length_dropWhile_le _ _)
      · split at h
        · exact number_length h
        · simp at h

/-- The tokens of a text, after those already found, in reverse. -/
def tokensFrom (found : List Token) (s : List Char) : Option (List Token) :=
  match s with
  | [] => some found.reverse
  | c :: rest =>
      if isIgnored c then tokensFrom found rest
      else if c = '#' then tokensFrom found (rest.dropWhile fun c => !isLineEnd c)
      else
        match _h : token (c :: rest) with
        | some (t, tail) => tokensFrom (t :: found) tail
        | none => none
termination_by s.length
decreasing_by
  · simp
  · exact Nat.lt_succ_of_le (length_dropWhile_le _ _)
  · exact token_length _h

end Lexer

/-- The tokens of a text, none if some part of it is no token.  A lone surrogate is none, nor can
it stand in a string or a comment. -/
def tokens? [Runtime] (text : String) : Option (List Token) :=
  if Text.hasSurrogate text then none else Lexer.tokensFrom [] text.toList

end Sdl

end ConfigSchema
