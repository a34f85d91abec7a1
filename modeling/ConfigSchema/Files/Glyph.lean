/-!
# Wildcards in names

A pattern of a name is read into glyphs.  A star stands for any characters, a question mark for
one, and brackets for one character of a set; every other character stands for itself, and so
does a bracket that is never closed.  In a set a hyphen between two characters makes a range, and a
range that runs backwards is taken out.  A set that starts with an exclamation mark then holds the
characters that are not listed.
-/

namespace ConfigSchema

namespace Files

/-- The characters that brackets stand for. -/
structure CharSet where
  isNegated : Bool := false
  singles : List Char := []
  ranges : List (Char × Char) := []
  deriving DecidableEq, Inhabited

def CharSet.contains (set : CharSet) (c : Char) : Bool :=
  let isListed := set.singles.contains c ||
    set.ranges.any fun (first, last) => first ≤ c && c ≤ last
  isListed != set.isNegated

/-- What a place in a pattern stands for. -/
inductive Glyph where
  | any
  | one
  | set (chars : CharSet)
  | char (c : Char)
  deriving DecidableEq, Inhabited

namespace Glyph

/-! ## Sets -/

/-- The text between brackets up to the closing one, and what follows; a bracket that comes first,
or right behind the mark of a negation, does not close. -/
def bracketed? (chars : List Char) : Option (List Char × List Char) :=
  let (mark, rest) := match chars with
    | '!' :: rest => (['!'], rest)
    | rest => ([], rest)
  let (first, rest) := match rest with
    | ']' :: rest => ([']'], rest)
    | rest => ([], rest)
  match rest.dropWhile (· ≠ ']') with
  | [] => none
  | _ :: behind => some (mark ++ first ++ rest.takeWhile (· ≠ ']'), behind)

/-- The chunks between the hyphens that make ranges.  Such a hyphen has a character in front of
it that no other range ends with; `skip` says how many characters cannot be one. -/
def chunks (chunk : List Char) (skip : Nat) : List Char → List (List Char)
  | [] => [chunk.reverse]
  | c :: rest =>
      match skip with
      | skip + 1 => chunks (c :: chunk) skip rest
      | 0 =>
          if c = '-' then chunk.reverse :: chunks [] 2 rest
          else chunks (c :: chunk) 0 rest

/-- A hyphen at the very end stands for itself. -/
def withLastHyphen : List (List Char) → List (List Char)
  | [] => []
  | [chunk] => [chunk]
  | [chunk, []] => [chunk ++ ['-']]
  | chunk :: next :: rest => chunk :: withLastHyphen (next :: rest)

/-- Joins two chunks where the range between them would run backwards. -/
def joinBackwards (chunk : List Char) : List (List Char) → List (List Char)
  | [] => [chunk]
  | next :: rest =>
      match chunk.getLast?, next with
      | some last, first :: behind =>
          if first < last then (chunk.dropLast ++ behind) :: rest else chunk :: next :: rest
      | _, _ => chunk :: next :: rest

/-- Drops the ranges that run backwards, the last one first. -/
def withoutBackwards (chunks : List (List Char)) : List (List Char) :=
  chunks.foldr joinBackwards []

/-- The ranges between neighbouring chunks. -/
def rangesOf : List (List Char) → List (Char × Char)
  | chunk :: next :: rest =>
      match chunk.getLast?, next.head? with
      | some first, some last => (first, last) :: rangesOf (next :: rest)
      | _, _ => rangesOf (next :: rest)
  | _ => []

/-- Takes the mark of a negation off the front.  A hyphen right behind it stands for itself. -/
def negation : List (List Char) → Bool × List (List Char)
  | ['!'] :: next :: rest => (true, ('-' :: next) :: rest)
  | ('!' :: first) :: rest => (true, first :: rest)
  | chunks => (false, chunks)

/-- The set that the text between brackets stands for. -/
def setOf (text : List Char) : CharSet :=
  let skip := if text.head? = some '!' then 2 else 1
  let (isNegated, parts) := negation (withoutBackwards (withLastHyphen (chunks [] skip text)))
  { isNegated, singles := parts.flatten, ranges := rangesOf parts }

/-! ## Patterns -/

theorem length_of_bracketed? {chars text behind : List Char}
    (h : bracketed? chars = some (text, behind)) : behind.length < chars.length := by
  have hdrop : ∀ l : List Char, ∀ c r, l.dropWhile (· ≠ ']') = c :: r → r.length < l.length := by
    intro l
    induction l with
    | nil => simp
    | cons d l ih =>
        intro c r
        by_cases hd : d = ']'
        · simp only [List.dropWhile, hd]
          rintro h
          simp at h
          simp [h.2]
        · simp only [List.dropWhile, hd, ne_eq, not_false_eq_true, decide_true]
          intro h
          have := ih c r h
          simp
          omega
  unfold bracketed? at h
  split at h
  rename_i mark rest hmark
  split at h
  rename_i first rest' hfirst
  split at h
  · simp at h
  · rename_i c behind' hbehind
    have hlt := hdrop _ _ _ hbehind
    simp only [Option.some.injEq, Prod.mk.injEq] at h
    have h1 : rest'.length ≤ rest.length := by
      split at hfirst <;> simp at hfirst <;> simp [← hfirst.2]
    have h2 : rest.length ≤ chars.length := by
      split at hmark <;> simp at hmark <;> simp [← hmark.2]
    rw [← h.2]
    omega

def read (pattern : List Char) : List Glyph :=
  match pattern with
  | [] => []
  | '*' :: rest => .any :: read rest
  | '?' :: rest => .one :: read rest
  | '[' :: rest =>
      match _h : bracketed? rest with
      | some (text, behind) => .set (setOf text) :: read behind
      | none => .char '[' :: read rest
  | c :: rest => .char c :: read rest
termination_by pattern.length
decreasing_by
  all_goals simp only [List.length_cons]
  · omega
  · omega
  · have := length_of_bracketed? _h
    omega
  · omega
  · omega

/-- Whether a glyph that stands for one character stands for this one. -/
def isFor (glyph : Glyph) (c : Char) : Bool :=
  match glyph with
  | .any | .one => true
  | .set chars => chars.contains c
  | .char own => own = c

/-- What remains of a name when any number of characters is taken from its front. -/
def remainders : List Char → List (List Char)
  | [] => [[]]
  | c :: rest => (c :: rest) :: remainders rest

def fits : List Glyph → List Char → Bool
  | [], name => name.isEmpty
  | .any :: glyphs, name => (remainders name).any (fits glyphs)
  | glyph :: glyphs, name =>
      match name with
      | [] => false
      | c :: rest => glyph.isFor c && fits glyphs rest

/-- Whether a text has a character that makes a pattern of it. -/
def isPattern (text : String) : Bool :=
  text.toList.any fun c => c = '*' || c = '?' || c = '['

end Glyph

end Files

end ConfigSchema
