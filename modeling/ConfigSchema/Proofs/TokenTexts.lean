import ConfigSchema.Sdl.Lexer

/-!
# Texts of tokens

A text that is cut into tokens is a row of their own texts, of comments and of what is ignored.  So
each of its characters is ignored, stands in a comment or belongs to a token, and what no other
token can hold stands in a string.
-/

namespace ConfigSchema

namespace Sdl

namespace Lexer

def isNumberPart (c : Char) : Bool :=
  isDigit c || ['.', 'e', 'E', '+', '-'].contains c

/-- A part of a number, in which each point has a digit behind it. -/
structure IsNumeric (letters : List Char) : Prop where
  parts : ∀ c ∈ letters, isNumberPart c = true
  points : ∀ before after, letters = before ++ '.' :: after →
    ∃ digit later, after = digit :: later ∧ isDigit digit = true

/-- A text that a token can have. -/
inductive TokenText : Token → List Char → Prop
  | mark {c : Char} (hmark : isMark c = true) : TokenText (.mark c) [c]
  | spread : TokenText .spread ['.', '.', '.']
  | name {text : String} (htext : text ≠ "") (hparts : ∀ c ∈ text.toList, isNamePart c = true) :
      TokenText (.name text) text.toList
  | int {text : String} (htext : text ≠ "") (hnumeric : IsNumeric text.toList) :
      TokenText (.int text) text.toList
  | float {text : String} (htext : text ≠ "") (hnumeric : IsNumeric text.toList) :
      TokenText (.float text) text.toList
  | string {literal : Literal} {letters : List Char} :
      TokenText (.string literal) ('"' :: (letters ++ ['"']))

/-- A part of a text, with the tokens that it gives: one of them or none.  What follows the part
matters for a comment only, which goes to the end of its line. -/
inductive Piece : List Token → List Char → List Char → Prop
  | ignored {c : Char} {behind : List Char} (hignored : isIgnored c = true) : Piece [] [c] behind
  | comment {note behind : List Char} (hnote : ∀ c ∈ note, isLineEnd c = false)
      (hend : ∀ c later, behind = c :: later → isLineEnd c = true) : Piece [] ('#' :: note) behind
  | token {token : Token} {letters behind : List Char} (htext : TokenText token letters) :
      Piece [token] letters behind

/-- A text that is put together of its parts. -/
inductive Written : List Token → List Char → Prop
  | nil : Written [] []
  | piece {here later : List Token} {letters behind : List Char}
      (hpiece : Piece here letters behind) (hbehind : Written later behind) :
      Written (here ++ later) (letters ++ behind)

variable {s rest found letters : List Char} {token : Token} {c : Char}

theorem exists_of_map {α β γ : Type} {f : α → γ} {read : Option (α × β)} {b : γ} {behind : β}
    (hmap : read.map (fun (a, later) => (f a, later)) = some (b, behind)) :
    ∃ a, read = some (a, behind) ∧ f a = b := by
  obtain ⟨⟨a, _⟩, hread, hpair⟩ := Option.map_eq_some_iff.1 hmap
  obtain ⟨rfl, rfl⟩ := Prod.mk.inj hpair
  exact ⟨a, hread, rfl⟩

/-! ## Numbers -/

theorem IsNumeric.append (hfirst : IsNumeric letters) (hrest : IsNumeric rest) :
    IsNumeric (letters ++ rest) where
  parts := by
    rw [List.forall_mem_append]
    exact ⟨hfirst.parts, hrest.parts⟩
  points := by
    intro before after hsplit
    rcases List.append_eq_append_iff.1 hsplit with ⟨more, rfl, hlater⟩ | ⟨more, hfront, hlater⟩
    · exact hrest.points more after hlater
    · cases more with
      | nil => exact hrest.points [] after hlater.symm
      | cons c more =>
          obtain ⟨rfl, rfl⟩ := List.cons.inj hlater
          obtain ⟨digit, later, rfl, hdigit⟩ := hfirst.points before more hfront
          exact ⟨digit, later ++ rest, rfl, hdigit⟩

theorem isNumeric_of_notMem (hparts : ∀ c ∈ letters, isNumberPart c = true)
    (hpoint : '.' ∉ letters) : IsNumeric letters where
  parts := hparts
  points := by
    rintro before after rfl
    exact absurd (List.mem_append_right before List.mem_cons_self) hpoint

theorem isNumeric_digits (hdigits : ∀ c ∈ letters, isDigit c = true) : IsNumeric letters := by
  refine isNumeric_of_notMem (fun c hc => by rw [isNumberPart, hdigits c hc]; rfl) fun hpoint => ?_
  exact absurd (hdigits '.' hpoint) (by decide)

theorem digits_spec (hread : digits s = some (found, rest)) :
    s = found ++ rest ∧ found ≠ [] ∧ ∀ c ∈ found, isDigit c = true := by
  unfold digits at hread
  dsimp only at hread
  split at hread
  · contradiction
  · next hsome =>
      obtain ⟨rfl, rfl⟩ := Prod.mk.inj (Option.some.inj hread)
      refine ⟨List.takeWhile_append_dropWhile.symm, ?_, ?_⟩
      · simpa using hsome
      · exact fun c hc => List.all_eq_true.1 List.all_takeWhile c hc

theorem wholePart_spec (hread : wholePart s = some (found, rest)) :
    s = found ++ rest ∧ found ≠ [] ∧ IsNumeric found := by
  unfold wholePart at hread
  split at hread
  · next hdigits =>
      split at hread
      · contradiction
      · obtain ⟨rfl, rfl⟩ := Prod.mk.inj (Option.some.inj hread)
        obtain ⟨hsplit, hsome, hall⟩ := digits_spec hdigits
        exact ⟨hsplit, hsome, isNumeric_digits hall⟩
  · contradiction

theorem fractionPart_spec (hread : fractionPart s = some (found, rest)) :
    s = found ++ rest ∧ IsNumeric found := by
  unfold fractionPart at hread
  split at hread
  · next later =>
      obtain ⟨behind, hdigits, rfl⟩ := exists_of_map hread
      obtain ⟨hsplit, hsome, hall⟩ := digits_spec hdigits
      obtain ⟨digit, digits, rfl⟩ := List.exists_cons_of_ne_nil hsome
      rw [hsplit]
      refine ⟨rfl, ?_, ?_⟩
      · rw [List.forall_mem_cons]
        exact ⟨by decide, (isNumeric_digits hall).parts⟩
      · intro before after heq
        cases before with
        | nil =>
            obtain ⟨-, rfl⟩ := List.cons.inj heq
            exact ⟨digit, digits, rfl, hall digit List.mem_cons_self⟩
        | cons c before =>
            exact (isNumeric_digits hall).points before after (List.cons.inj heq).2
  · obtain ⟨rfl, rfl⟩ := Prod.mk.inj (Option.some.inj hread)
    exact ⟨rfl, isNumeric_digits (by simp)⟩

theorem signedDigits_spec (hread : signedDigits s = some (found, rest)) :
    s = found ++ rest ∧ (∀ c ∈ found, isNumberPart c = true) ∧ '.' ∉ found := by
  have hplain : ∀ {s found rest}, digits s = some (found, rest) →
      s = found ++ rest ∧ (∀ c ∈ found, isNumberPart c = true) ∧ '.' ∉ found := by
    intro s found rest hdigits
    obtain ⟨hsplit, -, hall⟩ := digits_spec hdigits
    exact ⟨hsplit, (isNumeric_digits hall).parts,
      fun hpoint => absurd (hall '.' hpoint) (by decide)⟩
  have hsigned : ∀ {sign later}, isNumberPart sign = true → sign ≠ '.' →
      (digits later).map (fun pair => (sign :: pair.1, pair.2)) = some (found, rest) →
      sign :: later = found ++ rest ∧ (∀ c ∈ found, isNumberPart c = true) ∧ '.' ∉ found := by
    intro sign later hsign hpoint hmap
    obtain ⟨_, hdigits, rfl⟩ := exists_of_map hmap
    obtain ⟨rfl, hparts, hpoints⟩ := hplain hdigits
    rw [List.forall_mem_cons, List.mem_cons, not_or]
    exact ⟨rfl, ⟨hsign, hparts⟩, Ne.symm hpoint, hpoints⟩
  unfold signedDigits at hread
  split at hread
  · exact hsigned (by decide) (by decide) hread
  · exact hsigned (by decide) (by decide) hread
  · exact hplain hread

theorem exponentPart_spec (hread : exponentPart s = some (found, rest)) :
    s = found ++ rest ∧ IsNumeric found := by
  unfold exponentPart at hread
  split at hread
  · obtain ⟨rfl, rfl⟩ := Prod.mk.inj (Option.some.inj hread)
    exact ⟨rfl, isNumeric_digits (by simp)⟩
  · next c later =>
      split at hread
      · next hmark =>
          obtain ⟨_, hdigits, rfl⟩ := exists_of_map hread
          obtain ⟨rfl, hparts, hpoints⟩ := signedDigits_spec hdigits
          refine ⟨rfl, isNumeric_of_notMem ?_ ?_⟩
          · rw [List.forall_mem_cons]
            exact ⟨by rcases hmark with rfl | rfl <;> decide, hparts⟩
          · rw [List.mem_cons, not_or]
            exact ⟨by rcases hmark with rfl | rfl <;> decide, hpoints⟩
      · obtain ⟨rfl, rfl⟩ := Prod.mk.inj (Option.some.inj hread)
        exact ⟨rfl, isNumeric_digits (by simp)⟩

theorem unsignedNumber_spec {sign : List Char} (hsign : IsNumeric sign)
    (hread : unsignedNumber sign s = some (token, rest)) :
    ∃ letters, s = letters ++ rest ∧ TokenText token (sign ++ letters) := by
  simp only [unsignedNumber, Option.bind_eq_bind, Option.bind_eq_some_iff, Prod.exists] at hread
  obtain ⟨whole, _, hwhole, fraction, _, hfraction, exponent, last, hexponent, hread⟩ := hread
  obtain ⟨rfl, hsome, hwholeNumeric⟩ := wholePart_spec hwhole
  obtain ⟨rfl, hfractionNumeric⟩ := fractionPart_spec hfraction
  obtain ⟨rfl, hexponentNumeric⟩ := exponentPart_spec hexponent
  have htext : String.ofList (sign ++ whole ++ fraction ++ exponent) ≠ "" := by
    simp [hsome]
  have hletters : (String.ofList (sign ++ whole ++ fraction ++ exponent)).toList =
      sign ++ (whole ++ fraction ++ exponent) := by
    simp only [String.toList_ofList, List.append_assoc]
  have hnumeric : IsNumeric (sign ++ (whole ++ fraction ++ exponent)) :=
    hsign.append ((hwholeNumeric.append hfractionNumeric).append hexponentNumeric)
  rw [← hletters] at hnumeric
  refine ⟨whole ++ fraction ++ exponent, ?_, ?_⟩
  · split at hread
    · contradiction
    · split at hread
      · obtain ⟨-, rfl⟩ := Prod.mk.inj (Option.some.inj hread)
        simp only [List.append_assoc]
      · obtain ⟨-, rfl⟩ := Prod.mk.inj (Option.some.inj hread)
        simp only [List.append_assoc]
  · rw [← hletters]
    split at hread
    · contradiction
    · split at hread
      · obtain ⟨rfl, -⟩ := Prod.mk.inj (Option.some.inj hread)
        exact .int htext hnumeric
      · obtain ⟨rfl, -⟩ := Prod.mk.inj (Option.some.inj hread)
        exact .float htext hnumeric

theorem number_spec (hread : number s = some (token, rest)) :
    ∃ letters, s = letters ++ rest ∧ TokenText token letters := by
  unfold number at hread
  split at hread
  · next later =>
      have hsign : IsNumeric ['-'] :=
        isNumeric_of_notMem (List.forall_mem_singleton.2 (by decide)) (by decide)
      obtain ⟨letters, rfl, htext⟩ := unsignedNumber_spec hsign hread
      exact ⟨'-' :: letters, rfl, htext⟩
  · exact unsignedNumber_spec (isNumeric_digits (by simp)) hread

/-! ## Strings -/

theorem bracedEscape_suffix (hread : bracedEscape s = some (c, rest)) : rest <:+ s := by
  unfold bracedEscape at hread
  split at hread
  · next tail hdrop =>
      dsimp only at hread
      split at hread
      · contradiction
      · obtain ⟨_, -, hpair⟩ := Option.map_eq_some_iff.1 hread
        obtain ⟨-, rfl⟩ := Prod.mk.inj hpair
        exact (List.suffix_cons _ _).trans (hdrop ▸ List.dropWhile_suffix _)
  · contradiction

theorem fixedEscape_suffix {c₁ c₂ c₃ c₄ : Char}
    (hread : fixedEscape c₁ c₂ c₃ c₄ s = some (c, rest)) : rest <:+ s := by
  unfold fixedEscape at hread
  split at hread
  · contradiction
  · split at hread
    · split at hread
      · split at hread
        · split at hread
          · obtain ⟨_, -, hpair⟩ := Option.map_eq_some_iff.1 hread
            obtain ⟨-, rfl⟩ := Prod.mk.inj hpair
            exact ⟨['\\', 'u', _, _, _, _], rfl⟩
          · contradiction
        · contradiction
      · contradiction
    · obtain ⟨_, -, hpair⟩ := Option.map_eq_some_iff.1 hread
      obtain ⟨-, rfl⟩ := Prod.mk.inj hpair
      exact List.suffix_rfl

theorem escape_suffix (hread : escape s = some (c, rest)) : rest <:+ s := by
  unfold escape at hread
  split at hread
  · exact (bracedEscape_suffix hread).trans ⟨['u', '\x7b'], rfl⟩
  · exact (fixedEscape_suffix hread).trans ⟨['u', _, _, _, _], rfl⟩
  · obtain ⟨_, -, hpair⟩ := Option.map_eq_some_iff.1 hread
    obtain ⟨-, rfl⟩ := Prod.mk.inj hpair
    exact List.suffix_cons _ _
  · contradiction

/-- A string goes up to a quote. -/
theorem stringBody_suffix {seen : List Char} (hread : stringBody seen s = some (found, rest)) :
    '"' :: rest <:+ s := by
  fun_induction stringBody seen s with
  | case1 => contradiction
  | case2 =>
      obtain ⟨-, rfl⟩ := Prod.mk.inj (Option.some.inj hread)
      exact List.suffix_rfl
  | case3 _ _ _ _ hescape ih =>
      exact ((ih hread).trans (escape_suffix hescape)).trans (List.suffix_cons _ _)
  | case4 => contradiction
  | case5 => contradiction
  | case6 _ _ _ _ _ _ ih => exact (ih hread).trans (List.suffix_cons _ _)

/-- A block string goes up to a quote. -/
theorem blockLines_suffix {line : List Char} {lines : List (List Char)}
    (hread : blockLines line s = some (lines, rest)) : '"' :: rest <:+ s := by
  fun_induction blockLines line s generalizing lines rest with
  | case1 => contradiction
  | case2 =>
      obtain ⟨-, rfl⟩ := Prod.mk.inj (Option.some.inj hread)
      exact ⟨['"', '"'], rfl⟩
  | case3 _ _ ih => exact (ih hread).trans ⟨['\\', '"', '"', '"'], rfl⟩
  | case4 _ _ ih =>
      obtain ⟨_, hlines, -⟩ := exists_of_map hread
      exact (ih hlines).trans ⟨['\r', '\n'], rfl⟩
  | case5 _ _ _ ih =>
      obtain ⟨_, hlines, -⟩ := exists_of_map hread
      exact (ih hlines).trans (List.suffix_cons _ _)
  | case6 _ _ ih =>
      obtain ⟨_, hlines, -⟩ := exists_of_map hread
      exact (ih hlines).trans (List.suffix_cons _ _)
  | case7 _ _ _ _ _ _ _ _ ih => exact (ih hread).trans (List.suffix_cons _ _)

theorem string_spec (hread : string s = some (token, rest)) :
    ∃ letters, '"' :: s = letters ++ rest ∧ TokenText token letters := by
  have hquote : ∀ {literal}, '"' :: rest <:+ s →
      ∃ letters, '"' :: s = letters ++ rest ∧ TokenText (.string literal) letters := by
    rintro literal ⟨front, rfl⟩
    exact ⟨'"' :: (front ++ ['"']), by simp, .string⟩
  unfold string at hread
  split at hread
  · obtain ⟨_, hlines, rfl⟩ := exists_of_map
      (f := fun lines => Token.string ⟨blockValue lines, true⟩) hread
    exact hquote ((blockLines_suffix hlines).trans ⟨['"', '"'], rfl⟩)
  · obtain ⟨_, hbody, rfl⟩ := exists_of_map
      (f := fun seen : List Char => Token.string ⟨String.ofList seen.reverse, false⟩) hread
    exact hquote (stringBody_suffix hbody)

/-! ## Tokens -/

theorem token_spec (hread : Lexer.token s = some (token, rest)) :
    ∃ letters, s = letters ++ rest ∧ TokenText token letters := by
  unfold Lexer.token at hread
  split at hread
  · contradiction
  · obtain ⟨rfl, rfl⟩ := Prod.mk.inj (Option.some.inj hread)
    exact ⟨['.', '.', '.'], rfl, .spread⟩
  · exact string_spec hread
  · next c later _ _ =>
      split at hread
      · next hmark =>
          obtain ⟨rfl, rfl⟩ := Prod.mk.inj (Option.some.inj hread)
          exact ⟨[c], rfl, .mark hmark⟩
      · split at hread
        · next hstart =>
            obtain ⟨rfl, rfl⟩ := Prod.mk.inj (Option.some.inj hread)
            have hparts : ∀ part ∈ (String.ofList (c :: later.takeWhile isNamePart)).toList,
                isNamePart part = true := by
              rw [String.toList_ofList, List.forall_mem_cons, isNamePart, hstart]
              exact ⟨rfl, fun part hpart => List.all_eq_true.1 List.all_takeWhile part hpart⟩
            have htext := TokenText.name (by simp) hparts
            rw [String.toList_ofList] at htext
            refine ⟨_, ?_, htext⟩
            rw [List.cons_append, List.takeWhile_append_dropWhile]
        · split at hread
          · exact number_spec hread
          · contradiction

theorem written_of_tokensFrom {found tokens : List Token}
    (hread : tokensFrom found s = some tokens) :
    ∃ later, tokens = found.reverse ++ later ∧ Written later s := by
  fun_induction tokensFrom found s with
  | case1 found =>
      obtain rfl := Option.some.inj hread
      exact ⟨[], (List.append_nil _).symm, .nil⟩
  | case2 found c rest hignored ih =>
      obtain ⟨later, rfl, hlater⟩ := ih hread
      exact ⟨later, rfl, .piece (.ignored hignored) hlater⟩
  | case3 found rest _ ih =>
      obtain ⟨later, rfl, hlater⟩ := ih hread
      have hnote : ∀ c ∈ rest.takeWhile (fun c => !isLineEnd c), isLineEnd c = false := by
        intro c hc
        simpa using List.all_eq_true.1 List.all_takeWhile c hc
      have hend : ∀ c behind, rest.dropWhile (fun c => !isLineEnd c) = c :: behind →
          isLineEnd c = true := by
        intro c behind hbehind
        have hhead := List.head?_dropWhile_not (fun c => !isLineEnd c) rest
        rw [hbehind] at hhead
        simpa using hhead
      have hcomment := Written.piece (.comment hnote hend) hlater
      rw [List.cons_append, List.takeWhile_append_dropWhile] at hcomment
      exact ⟨later, rfl, hcomment⟩
  | case4 found c rest _ _ token behind htoken ih =>
      obtain ⟨later, rfl, hlater⟩ := ih hread
      obtain ⟨letters, hletters, htext⟩ := token_spec htoken
      rw [hletters]
      refine ⟨token :: later, ?_, .piece (.token htext) hlater⟩
      simp
  | case5 => contradiction

/-! ## Places in a text -/

variable {tokens : List Token} {before after : List Char}

theorem Piece.of_prefix {here : List Token} {letters behind : List Char}
    (hpiece : Piece here letters behind) {front : List Char} (hfront : front <+: behind) :
    Piece here letters front := by
  cases hpiece with
  | ignored hignored => exact .ignored hignored
  | comment hnote hend =>
      refine .comment hnote ?_
      rintro c later rfl
      obtain ⟨more, rfl⟩ := hfront
      exact hend c (later ++ more) rfl
  | token htext => exact .token htext

/-- Whether a character stands in a part of a text, between what is written in front of the part
and behind it. -/
def StandsInPiece (tokens : List Token) (before : List Char) (c : Char) (after : List Char) :
    Prop :=
  ∃ earlier here later front left right behind,
    before = front ++ left ∧ after = right ++ behind ∧ tokens = earlier ++ (here ++ later) ∧
      Written earlier front ∧ Piece here (left ++ c :: right) behind ∧ Written later behind

theorem Written.standsInPiece (hwritten : Written tokens (before ++ c :: after)) :
    StandsInPiece tokens before c after := by
  generalize htext : before ++ c :: after = text at hwritten
  induction hwritten generalizing before with
  | nil => simp at htext
  | @piece here later letters behind hpiece hbehind ih =>
      -- Beyond the first part the character stands where it stands in the rest of the text.
      have hbeyond : ∀ more, before = letters ++ more → behind = more ++ c :: after →
          StandsInPiece (here ++ later) before c after := by
        rintro more rfl hmore
        obtain ⟨earlier, here', later', front, left, right, behind', rfl, rfl, rfl, hearlier,
          hplace, hlater⟩ := ih hmore.symm
        refine ⟨here ++ earlier, here', later', letters ++ front, left, right, behind', ?_, rfl, ?_,
          .piece (hpiece.of_prefix ⟨left ++ c :: (right ++ behind'), ?_⟩) hearlier, hplace, hlater⟩
        · rw [List.append_assoc]
        · rw [List.append_assoc]
        · rw [hmore, List.append_assoc]
      rcases List.append_eq_append_iff.1 htext with ⟨more, hletters, hmore⟩ | ⟨more, hfront, hmore⟩
      · cases more with
        | nil => exact hbeyond [] (by simpa using hletters.symm) (by simpa using hmore.symm)
        | cons first right =>
            obtain ⟨rfl, rfl⟩ := List.cons.inj hmore
            subst hletters
            exact ⟨[], here, later, [], before, right, behind, rfl, rfl, rfl, .nil, hpiece, hbehind⟩
      · exact hbeyond more hfront hmore

theorem Piece.ne_nil {here : List Token} {behind : List Char} (hpiece : Piece here s behind) :
    s ≠ [] := by
  cases hpiece with
  | ignored => simp
  | comment => simp
  | token htext => cases htext <;> simp_all

theorem Written.eq_nil (hwritten : Written tokens []) : tokens = [] := by
  generalize htext : [] = text at hwritten
  cases hwritten with
  | nil => rfl
  | piece hpiece => exact absurd (List.append_eq_nil_iff.1 htext.symm).1 hpiece.ne_nil

/-- Where a character can stand that is not ignored, no mark and no part of a name. -/
theorem Piece.of_mem {here : List Token} {behind : List Char} (hpiece : Piece here s behind)
    (hc : c ∈ s) (hignored : isIgnored c = false) (hmark : isMark c = false)
    (hname : isNamePart c = false) :
    (∃ note, s = '#' :: note ∧ here = [] ∧ (∀ c ∈ note, isLineEnd c = false) ∧
      ∀ c later, behind = c :: later → isLineEnd c = true) ∨
    (∃ inner, s = '"' :: (inner ++ ['"'])) ∨ (s = ['.', '.', '.'] ∧ here = [.spread]) ∨
    IsNumeric s := by
  cases hpiece with
  | ignored hother =>
      obtain rfl := List.mem_singleton.1 hc
      rw [hother] at hignored
      contradiction
  | comment hnote hend => exact .inl ⟨_, rfl, rfl, hnote, hend⟩
  | token htext =>
      cases htext with
      | mark hother =>
          obtain rfl := List.mem_singleton.1 hc
          rw [hother] at hmark
          contradiction
      | spread => exact .inr (.inr (.inl ⟨rfl, rfl⟩))
      | name _ hparts =>
          rw [hparts c hc] at hname
          contradiction
      | int _ hnumeric => exact .inr (.inr (.inr hnumeric))
      | float _ hnumeric => exact .inr (.inr (.inr hnumeric))
      | string => exact .inr (.inl ⟨_, rfl⟩)

theorem Written.mem_of_mark (hwritten : Written tokens s) (hmark : .mark c ∈ tokens) : c ∈ s := by
  induction hwritten with
  | nil => contradiction
  | piece hpiece _ ih =>
      rcases List.mem_append.1 hmark with hhere | hlater
      · refine List.mem_append_left _ ?_
        cases hpiece with
        | ignored => contradiction
        | comment => contradiction
        | token htext =>
            obtain rfl := List.mem_singleton.1 hhere
            cases htext
            exact List.mem_singleton_self c
      · exact List.mem_append_right _ (ih hlater)

end Lexer

end Sdl

end ConfigSchema
