import ConfigSchema.Proofs.JsonStrings
import ConfigSchema.Sdl.Lexer
import ConfigSchema.Sdl.Printer

/-!
# What the written form of a type tells

A description is a single token, which ends where its closing quotes stand, so the word behind it
can be told: types that are written alike are of one kind.
-/

namespace ConfigSchema

namespace Sdl

namespace Printer

/-! ## Quoted strings -/

theorem char?_toNat (c : Char) : Lexer.char? c.toNat = some c := by
  have hvalid : c.toNat.isValidChar := c.valid
  rw [Lexer.char?, if_pos hvalid, Char.ofNat_toNat]

theorem escape_unicodeEscape {c : Char} (hlt : c.toNat < 0x100) (rest : List Char) :
    Lexer.escape ('u' :: ((Json.Printer.hexDigits 4 c.toNat).toList ++ rest)) =
      some (c, rest) := by
  have hvalue : 16 * (16 * (16 * (c.toNat / 16 / 16 / 16) + c.toNat / 16 / 16 % 16) +
      c.toNat / 16 % 16) + c.toNat % 16 = c.toNat := by omega
  have hplain : Text.isHighSurrogate c.toNat = false := by
    simp [Text.isHighSurrogate]
    omega
  have hzero : c.toNat / 16 / 16 / 16 = 0 := by omega
  rw [Json.Printer.toList_hexDigits (by omega)]
  have hread : Lexer.fixedEscape (Nat.digitChar (c.toNat / 16 / 16 / 16))
      (Nat.digitChar (c.toNat / 16 / 16 % 16)) (Nat.digitChar (c.toNat / 16 % 16))
      (Nat.digitChar (c.toNat % 16)) rest = some (c, rest) := by
    rw [Lexer.fixedEscape,
      Text.hexValue?_digitChars (by omega) (by omega) (by omega) (by omega), hvalue]
    simp [hplain, char?_toNat]
  rw [hzero] at hread ⊢
  exact hread

theorem stringBody_escapedChar (c : Char) (seen rest : List Char) :
    Lexer.stringBody seen ((escapedChar c).toList ++ rest) =
      Lexer.stringBody (c :: seen) rest := by
  -- An escape that the reader undoes, or a character that is no quote, no mark and no line end.
  have hescaped : ∀ text : List Char, Lexer.escape (text ++ rest) = some (c, rest) →
      Lexer.stringBody seen ('\\' :: (text ++ rest)) = Lexer.stringBody (c :: seen) rest := by
    intro text htext
    rw [Lexer.stringBody]
    split
    · next found tail hfound =>
        rw [htext, Option.some.injEq, Prod.mk.injEq] at hfound
        rw [hfound.1, hfound.2]
    · next hnone =>
        rw [htext] at hnone
        contradiction
  unfold escapedChar
  split_ifs with hquote hslash hline hreturn htab hback hfeed hcode
  · subst hquote
    exact hescaped ['"'] rfl
  · subst hslash
    exact hescaped ['\\'] rfl
  · subst hline
    exact hescaped ['n'] rfl
  · subst hreturn
    exact hescaped ['r'] rfl
  · subst htab
    exact hescaped ['t'] rfl
  · subst hback
    exact hescaped ['b'] rfl
  · subst hfeed
    exact hescaped ['f'] rfl
  · have hread := escape_unicodeEscape (c := c) (by omega) rest
    rw [Json.Printer.unicodeEscape, String.toList_append]
    exact hescaped ('u' :: (Json.Printer.hexDigits 4 c.toNat).toList) hread
  · have hchar : c.toString.toList = [c] := by simp
    have hlineEnd : Lexer.isLineEnd c = false := by simp [Lexer.isLineEnd, hline, hreturn]
    rw [hchar, List.singleton_append, Lexer.stringBody]
    · simp [hlineEnd]
    · exact hquote
    · exact hslash

theorem stringBody_escaped (chars seen rest : List Char) :
    Lexer.stringBody seen
        ((String.join (chars.map escapedChar)).toList ++ '"' :: rest) =
      some (chars.reverse ++ seen, rest) := by
  induction chars generalizing seen with
  | nil => simp [String.join, Lexer.stringBody]
  | cons c more ih =>
      have hjoin : (String.join ((c :: more).map escapedChar)).toList =
          (escapedChar c).toList ++ (String.join (more.map escapedChar)).toList := by
        simp
      rw [hjoin, List.append_assoc, stringBody_escapedChar, ih]
      simp

/-! ## Blocks -/

/-- A character is read on its own unless three quotes begin with it or it escapes them. -/
theorem blockLines_cons {c : Char} {rest tail : List Char}
    (hquotes : ∀ more, c :: rest ≠ '"' :: '"' :: '"' :: more)
    (hescape : ∀ more, c :: rest ≠ '\\' :: '"' :: '"' :: '"' :: more)
    (hrest : ∀ line, ∃ lines, Lexer.blockLines line rest = some (lines, tail))
    (line : List Char) : ∃ lines, Lexer.blockLines line (c :: rest) = some (lines, tail) := by
  unfold Lexer.blockLines
  split
  · contradiction
  · next more heq => exact absurd heq (hquotes more)
  · next more heq => exact absurd heq (hescape more)
  · next more heq =>
      rw [List.cons.injEq] at heq
      obtain ⟨lines, hlines⟩ := hrest []
      rw [heq.2, Lexer.blockLines, Option.map_eq_some_iff] at hlines
      obtain ⟨⟨others, last⟩, hothers, hpair⟩ := hlines
      rw [Prod.mk.injEq] at hpair
      rw [hothers, ← hpair.2]
      exact ⟨_, rfl⟩
  · next more _ heq =>
      rw [List.cons.injEq] at heq
      obtain ⟨lines, hlines⟩ := hrest []
      rw [← heq.2, hlines]
      exact ⟨_, rfl⟩
  · next more heq =>
      rw [List.cons.injEq] at heq
      obtain ⟨lines, hlines⟩ := hrest []
      rw [← heq.2, hlines]
      exact ⟨_, rfl⟩
  · next first more _ _ _ _ _ heq =>
      rw [List.cons.injEq] at heq
      rw [← heq.1, ← heq.2]
      exact hrest (c :: line)

/-- A quote in front of an escaped text is a quote of the text, or begins behind it. -/
theorem escapedQuotes_append_cases {chars rest more : List Char}
    (heq : escapedQuotes chars ++ rest = '"' :: more) :
    (∃ others, chars = '"' :: others ∧ (∀ third, others ≠ '"' :: '"' :: third) ∧
        escapedQuotes others ++ rest = more) ∨
      chars = [] ∧ rest = '"' :: more := by
  unfold escapedQuotes at heq
  split at heq
  · have hmark := (List.cons.inj heq).1
    contradiction
  · next c others hfew =>
      obtain ⟨hquote, hrest⟩ := List.cons.inj heq
      refine .inl ⟨others, by rw [hquote], ?_, hrest⟩
      intro third hthree
      exact hfew third hquote hthree
  · exact .inr ⟨rfl, heq⟩

/-- Three quotes stand in front of an escaped text only if the last of them stands behind it. -/
theorem escapedQuotes_append_ne (chars rest : List Char)
    (hlast : chars.getLast? = some '"' ∨ chars = [] → rest.head? ≠ some '"') (more : List Char) :
    escapedQuotes chars ++ rest ≠ '"' :: '"' :: '"' :: more := by
  intro heq
  rcases escapedQuotes_append_cases heq with ⟨second, rfl, hfew, hsecond⟩ | ⟨rfl, rfl⟩
  · rcases escapedQuotes_append_cases hsecond with ⟨third, rfl, -, hthird⟩ | ⟨rfl, rfl⟩
    · rcases escapedQuotes_append_cases hthird with ⟨others, rfl, -, -⟩ | ⟨rfl, rfl⟩
      · exact hfew others rfl
      · exact hlast (.inl rfl) rfl
    · exact hlast (.inl rfl) rfl
  · exact hlast (.inr rfl) rfl

/-- An escaped text is read up to what follows it, if its last character does not change the
meaning of quotes that follow at once. -/
theorem blockLines_escapedQuotes (chars : List Char) {rest tail : List Char}
    (hlast : chars.getLast? = some '"' ∨ chars.getLast? = some '\\' → rest.head? ≠ some '"')
    (hrest : ∀ line, ∃ lines, Lexer.blockLines line rest = some (lines, tail))
    (line : List Char) :
    ∃ lines, Lexer.blockLines line (escapedQuotes chars ++ rest) = some (lines, tail) := by
  induction chars using escapedQuotes.induct generalizing line with
  | case1 others ih =>
      have hothers : others.getLast? = some '"' ∨ others.getLast? = some '\\' →
          rest.head? ≠ some '"' := by
        intro hend
        apply hlast
        cases others with
        | nil => simp at hend
        | cons c others => simpa using hend
      rw [escapedQuotes]
      simp only [List.cons_append, Lexer.blockLines]
      exact ih hothers _
  | case2 c others hfew ih =>
      have hothers : others.getLast? = some '"' ∨ others.getLast? = some '\\' →
          rest.head? ≠ some '"' := by
        intro hend
        apply hlast
        cases others with
        | nil => simp at hend
        | cons next others => simpa using hend
      have hone : escapedQuotes (c :: others) = c :: escapedQuotes others := by
        rw [escapedQuotes]
        exact hfew
      have hquotes := escapedQuotes_append_ne (c :: others) rest
        (by
          rintro (hend | hend)
          · exact hlast (.inl hend)
          · contradiction)
      rw [hone, List.cons_append] at hquotes ⊢
      apply blockLines_cons hquotes _ (ih hothers)
      intro more heq
      obtain ⟨rfl, hbehind⟩ := List.cons.inj heq
      refine escapedQuotes_append_ne others rest ?_ more hbehind
      rintro (hend | rfl)
      · exact hothers (.inl hend)
      · exact hlast (.inr rfl)
  | case3 => exact hrest line

/-! ## Descriptions -/

theorem head?_escapedChar (c : Char) :
    ∃ first more, (escapedChar c).toList = first :: more ∧ first ≠ '"' := by
  unfold escapedChar
  split_ifs with hquote
  · exact ⟨'\\', ['"'], rfl, by decide⟩
  · exact ⟨'\\', ['\\'], rfl, by decide⟩
  · exact ⟨'\\', ['n'], rfl, by decide⟩
  · exact ⟨'\\', ['r'], rfl, by decide⟩
  · exact ⟨'\\', ['t'], rfl, by decide⟩
  · exact ⟨'\\', ['b'], rfl, by decide⟩
  · exact ⟨'\\', ['f'], rfl, by decide⟩
  · refine ⟨'\\', 'u' :: (Json.Printer.hexDigits 4 c.toNat).toList, ?_, by decide⟩
    rw [Json.Printer.unicodeEscape, String.toList_append]
    rfl
  · exact ⟨c, [], by simp, hquote⟩

theorem token_quoted (text : String) {rest : List Char} (hrest : rest.head? ≠ some '"') :
    Lexer.token ((quoted text).toList ++ rest) = some (.string ⟨text, false⟩, rest) := by
  have hbody := stringBody_escaped text.toList [] rest
  have hplain : ∀ more, (String.join (text.toList.map escapedChar)).toList ++ '"' :: rest ≠
      '"' :: '"' :: more := by
    intro more heq
    cases hchars : text.toList with
    | nil =>
        rw [hchars] at heq
        have hsecond := (List.cons.inj heq).2
        rw [hsecond] at hrest
        exact hrest rfl
    | cons c chars =>
        obtain ⟨first, others, hfirst, hne⟩ := head?_escapedChar c
        rw [hchars, List.map_cons, String.join_cons, String.toList_append, hfirst] at heq
        exact hne (List.cons.inj heq).1
  have htoken : (quoted text).toList ++ rest =
      '"' :: ((String.join (text.toList.map escapedChar)).toList ++ '"' :: rest) := by
    simp [quoted]
  rw [htoken, Lexer.token, Lexer.string, hbody]
  · simp
  · exact hplain

theorem token_blockQuoted (text : String) (rest : List Char) :
    ∃ token, Lexer.token ((blockQuoted text).toList ++ rest) = some (token, rest) := by
  have hquotes : ∀ line, ∃ lines,
      Lexer.blockLines line ('"' :: '"' :: '"' :: rest) = some (lines, rest) :=
    fun line => ⟨_, by rw [Lexer.blockLines]⟩
  have hnewline : ∀ line, ∃ lines,
      Lexer.blockLines line ('\n' :: '"' :: '"' :: '"' :: rest) = some (lines, rest) :=
    blockLines_cons (by simp) (by simp) hquotes
  have htoken : ∀ {body : List Char} {lines : List (List Char)},
      Lexer.blockLines [] body = some (lines, rest) →
      ∃ token, Lexer.token ('"' :: '"' :: '"' :: body) = some (token, rest) := by
    intro body lines hlines
    rw [Lexer.token, Lexer.string, hlines]
    exact ⟨_, rfl⟩
  unfold blockQuoted
  dsimp only
  split_ifs with hlines hend
  · have hbody := blockLines_escapedQuotes text.toList (by simp) hnewline
    obtain ⟨lines, hread⟩ := blockLines_cons (c := '\n') (by simp) (by simp) hbody []
    simpa using htoken hread
  · obtain ⟨lines, hread⟩ :=
      blockLines_escapedQuotes text.toList (by simp) hnewline []
    simpa using htoken hread
  · obtain ⟨lines, hread⟩ :=
      blockLines_escapedQuotes text.toList (fun hlast => absurd hlast hend) hquotes []
    simpa using htoken hread

/-- A printed string is one token. -/
theorem token_literal (l : Literal) (rest : List Char) (hrest : rest.head? ≠ some '"') :
    ∃ token, Lexer.token ((literal l).toList ++ rest) = some (token, rest) := by
  unfold literal
  split
  · exact token_blockQuoted l.value rest
  · exact ⟨_, token_quoted l.value hrest⟩

/-- The first word of a printed type tells its kind. -/
theorem takeWhile_typeNode (node : TypeNode) :
    (typeNode node).toList.takeWhile (· ≠ ' ') = (keyword node.body.kind).toList := by
  have hkeyword : ∀ kind, (∀ c ∈ (keyword kind).toList, decide (c ≠ ' ') = true) ∧
      keyword kind ≠ "" := by
    intro kind
    cases kind <;> exact ⟨List.all_eq_true.1 rfl, by decide⟩
  obtain ⟨hword, hne⟩ := hkeyword node.body.kind
  have hparts : typeNode node = joined " " [keyword node.body.kind, node.name,
      (body node.body).1, directives node.directives, (body node.body).2] := rfl
  rw [hparts, joined, List.filter_cons_of_pos (by simpa using hne)]
  cases ([node.name, (body node.body).1, directives node.directives,
      (body node.body).2].filter (· ≠ "")) with
  | nil =>
      rw [String.intercalate_singleton]
      rw [← List.append_nil (keyword node.body.kind).toList, List.takeWhile_append_of_pos hword,
        List.takeWhile_nil]
  | cons next rest =>
      rw [String.intercalate_cons_cons, String.append_assoc, String.toList_append,
        String.toList_append, List.takeWhile_append_of_pos hword]
      have hblank : " ".toList = [' '] := rfl
      rw [hblank, List.singleton_append, List.takeWhile_cons_of_neg (by simp), List.append_nil]

theorem head?_literal (l : Literal) : (literal l).toList.head? = some '"' := by
  unfold literal
  split
  · unfold blockQuoted
    dsimp only
    split_ifs <;> simp
  · simp [quoted]

theorem head?_typeNode_ne (node : TypeNode) : (typeNode node).toList.head? ≠ some '"' := by
  have hkeyword : ∀ kind, (keyword kind).toList.head? ≠ some '"' := by
    intro kind
    cases kind <;> decide
  intro hquote
  apply hkeyword node.body.kind
  rw [← takeWhile_typeNode]
  cases hchars : (typeNode node).toList with
  | nil => simp [hchars] at hquote
  | cons c more =>
      rw [hchars, List.head?_cons, Option.some.injEq] at hquote
      simp [hquote]

theorem keyword_injective : Function.Injective keyword := by
  intro first second heq
  cases first <;> cases second <;> first | rfl | (revert heq; decide)

end Printer

/-- Types that are written alike are of one kind. -/
theorem TypeNode.kind_eq_of_render_eq {first second : TypeNode} {about other : Option Literal}
    (heq : first.render about = second.render other) : first.body.kind = second.body.kind := by
  have hkind : ∀ {one another : TypeNode},
      Printer.typeNode one = Printer.typeNode another → one.body.kind = another.body.kind := by
    intro one another hnode
    apply Printer.keyword_injective
    rw [← String.toList_inj, ← Printer.takeWhile_typeNode, hnode, Printer.takeWhile_typeNode]
  -- A type without a description does not begin with a quote.
  have hmixed : ∀ {one another : TypeNode} {l : Literal},
      one.render none ≠ another.render (some l) := by
    intro one another l hrender
    have hchars := congrArg (·.toList.head?) hrender
    simp only [render, Printer.description, String.toList_append, String.toList_empty,
      List.nil_append, List.append_assoc, List.head?_append, Printer.head?_literal,
      Option.some_or] at hchars
    exact Printer.head?_typeNode_ne one hchars
  cases about with
  | none =>
      cases other with
      | none =>
          apply hkind
          simpa [render, Printer.description] using heq
      | some l => exact absurd heq hmixed
  | some l =>
      cases other with
      | none => exact absurd heq.symm hmixed
      | some other =>
          have hchars := congrArg String.toList heq
          simp only [render, Printer.description, String.toList_append, List.append_assoc] at hchars
          obtain ⟨one, hone⟩ := Printer.token_literal l
            ('\n' :: (Printer.typeNode first).toList) (by simp)
          obtain ⟨another, hanother⟩ := Printer.token_literal other
            ('\n' :: (Printer.typeNode second).toList) (by simp)
          have hsame : Lexer.token ((Printer.literal l).toList ++
              '\n' :: (Printer.typeNode first).toList) =
              Lexer.token ((Printer.literal other).toList ++
                '\n' :: (Printer.typeNode second).toList) := congrArg Lexer.token hchars
          rw [hone, hanother, Option.some.injEq, Prod.mk.injEq, List.cons.injEq] at hsame
          exact hkind (String.toList_inj.1 hsame.2.2)

end Sdl

end ConfigSchema
