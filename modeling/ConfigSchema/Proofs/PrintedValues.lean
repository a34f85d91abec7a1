import ConfigSchema.Proofs.Numerals
import ConfigSchema.Proofs.PrintedTypes
import ConfigSchema.Sdl.Parser

/-!
# Values that are printed

A value is printed as a row of tokens, which is read as the value again; only a number of the kind
with a fraction becomes an integer if its text shows none.
-/

namespace ConfigSchema

namespace Sdl

/-- A text that is one number, with the token of the number. -/
def IsNumberText (text : String) (token : Token) : Prop :=
  ∃ n : Numeral, n.IsProper ∧ n.text = text ∧ n.token = token

namespace IsNumberText

variable {text : String} {t : Token}

theorem head (htext : IsNumberText text t) :
    ∃ first more, text.toList = first :: more ∧ (first = '-' ∨ Lexer.isDigit first = true) := by
  obtain ⟨n, hproper, rfl, rfl⟩ := htext
  exact n.exists_head hproper

theorem number (htext : IsNumberText text t) {rest : List Char}
    (hends : Numeral.EndsNumber rest) :
    Lexer.number (text.toList ++ rest) = some (t, rest) := by
  obtain ⟨n, hproper, rfl, rfl⟩ := htext
  exact n.number_append hproper hends

theorem plain [Runtime] (htext : IsNumberText text t) : Text.hasSurrogate text = false := by
  obtain ⟨n, hproper, rfl, rfl⟩ := htext
  have hdigit : ∀ {c : Char}, Lexer.isDigit c = true → c.toNat < 0x80 := by
    intro c hc
    simp only [Lexer.isDigit, Bool.and_eq_true, decide_eq_true_eq] at hc
    exact (UInt32.le_iff_toNat_le.1 hc.2).trans_lt (by decide)
  have hwhole : ∀ c ∈ n.whole, c.toNat < 0x80 := fun c hc => hdigit (hproper.whole c hc)
  have hsign : ∀ c ∈ n.sign, c.toNat < 0x80 := by
    unfold Numeral.sign
    split <;> simp
  have hfraction : ∀ c ∈ n.fractionPart, c.toNat < 0x80 := by
    unfold Numeral.fractionPart
    split
    · simp
    · rw [List.forall_mem_cons]
      exact ⟨by decide, fun c hc => hdigit (hproper.fraction c hc)⟩
  have hexponent : ∀ c ∈ n.exponentPart, c.toNat < 0x80 := by
    unfold Numeral.exponentPart
    split
    · simp
    · next sign digits heq =>
        obtain ⟨hmark, -, hdigits⟩ := hproper.exponent sign digits heq
        rw [List.forall_mem_cons, List.forall_mem_cons]
        refine ⟨by decide, ?_, fun c hc => hdigit (hdigits c hc)⟩
        rcases hmark with rfl | rfl <;> decide
  apply Text.hasSurrogate_of_ascii
  rw [Text.IsAscii, n.toList_text]
  simp only [List.mem_append]
  rintro c (hc | hc | hc | hc)
  · exact hsign c hc
  · exact hwhole c hc
  · exact hfraction c hc
  · exact hexponent c hc

end IsNumberText

/-- The words that are no names of enum values. -/
def valueWords : List String := ["true", "false", "null"]

mutual

/-- Whether the text of a value can be read: numbers are written as such, texts are no blocks and
hold no lone surrogate, and names are names. -/
def Value.IsPrintable [Runtime] : Value → Prop
  | .variable _ => False
  | .int text => IsNumberText text (.int text)
  | .float text => IsNumberText text (.int text) ∨ IsNumberText text (.float text)
  | .string literal => literal.isBlock = false ∧ Text.hasSurrogate literal.value = false
  | .boolean _ => True
  | .null => True
  | .enum name => Introspection.isName name = true ∧ name ∉ valueWords
  | .list items => ArePrintable items
  | .object fields => ArePrintableFields fields

def ArePrintable [Runtime] : List Value → Prop
  | [] => True
  | v :: rest => v.IsPrintable ∧ ArePrintable rest

def ArePrintableFields [Runtime] : List (String × Value) → Prop
  | [] => True
  | (name, v) :: rest =>
      Introspection.isName name = true ∧ v.IsPrintable ∧ ArePrintableFields rest

end

mutual

/-- The value that the text of a value is read as: a number without a fraction is an integer. -/
def Value.reread : Value → Value
  | .float text =>
      match Lexer.number text.toList with
      | some (.int _, _) => .int text
      | _ => .float text
  | .list items => .list (rereadAll items)
  | .object fields => .object (rereadFields fields)
  | v => v

def rereadAll : List Value → List Value
  | [] => []
  | v :: rest => v.reread :: rereadAll rest

def rereadFields : List (String × Value) → List (String × Value)
  | [] => []
  | (name, v) :: rest => (name, v.reread) :: rereadFields rest

end

mutual

def Value.tokens : Value → List Token
  | .variable name => [.mark '$', .name name]
  | .int text => [.int text]
  | .float text => [.float text]
  | .string literal => [.string literal]
  | .boolean b => [.name (if b then "true" else "false")]
  | .null => [.name "null"]
  | .enum name => [.name name]
  | .list items => .mark '[' :: (tokensOfAll items ++ [.mark ']'])
  | .object fields => .mark '\x7b' :: (tokensOfFields fields ++ [.mark '\x7d'])

def tokensOfAll : List Value → List Token
  | [] => []
  | v :: rest => v.tokens ++ tokensOfAll rest

def tokensOfFields : List (String × Value) → List Token
  | [] => []
  | (name, v) :: rest => .name name :: .mark ':' :: (v.tokens ++ tokensOfFields rest)

end

/-! ## Tokens -/

namespace Lexer

/-- What may follow a value in a text. -/
def EndsValue (rest : List Char) : Prop :=
  ∀ c ∈ rest.head?, c ∈ [',', ']', '\x7d']

variable {rest : List Char} {found : List Token}

theorem EndsValue.endsNumber (hends : EndsValue rest) : Numeral.EndsNumber rest := by
  intro c hc
  have hmark := hends c hc
  simp only [List.mem_cons, List.not_mem_nil, or_false] at hmark
  rcases hmark with rfl | rfl | rfl <;> exact ⟨by decide, by decide⟩

theorem EndsValue.head?_ne (hends : EndsValue rest) : rest.head? ≠ some '"' := by
  intro hquote
  exact absurd (hends '"' hquote) (by decide)

theorem endsValue_cons {c : Char} (hc : c ∈ [',', ']', '\x7d']) (rest : List Char) :
    EndsValue (c :: rest) := by
  intro other hother
  cases hother
  exact hc

theorem token_of_number {first : Char} (hfirst : first = '-' ∨ isDigit first = true)
    (more : List Char) :
    isIgnored first = false ∧ first ≠ '#' ∧ token (first :: more) = number (first :: more) := by
  have hne : ∀ other, isDigit other = false → other ≠ '-' → first ≠ other := by
    rintro other hother hminus rfl
    rcases hfirst with rfl | hdigit
    · exact hminus rfl
    · rw [hdigit] at hother
      contradiction
  have hstart : isNameStart first = false := by
    rcases hfirst with rfl | hdigit
    · decide
    · simp only [isDigit, Bool.and_eq_true, decide_eq_true_eq] at hdigit
      have hlow := UInt32.le_iff_toNat_le.1 hdigit.2
      by_contra hstart
      simp only [isNameStart, Bool.not_eq_false, Bool.or_eq_true, Bool.and_eq_true,
        decide_eq_true_eq] at hstart
      rcases hstart with (⟨hletter, -⟩ | ⟨hletter, -⟩) | rfl
      · exact absurd ((UInt32.le_iff_toNat_le.1 hletter).trans hlow) (by decide)
      · exact absurd ((UInt32.le_iff_toNat_le.1 hletter).trans hlow) (by decide)
      · exact absurd hlow (by decide)
  have hmark : isMark first = false := by
    by_contra hmark
    simp only [isMark, Bool.not_eq_false, List.contains_iff_mem] at hmark
    have hnone : (['!', '$', '&', '(', ')', ':', '=', '@', '[', ']', '\x7b', '|', '\x7d'].all
        fun other => !isDigit other && other ≠ '-') = true := by decide
    have hfirst := List.all_eq_true.1 hnone first hmark
    rw [Bool.and_eq_true, Bool.not_eq_true', decide_eq_true_eq] at hfirst
    exact hne first hfirst.1 hfirst.2 rfl
  have hignored : isIgnored first = false := by
    have hall := fun other hother hminus => hne other hother hminus
    simp only [isIgnored, Bool.or_eq_false_iff, decide_eq_false_iff_not]
    exact ⟨⟨⟨⟨⟨hall ' ' (by decide) (by decide), hall '\t' (by decide) (by decide)⟩,
      hall '\n' (by decide) (by decide)⟩, hall '\r' (by decide) (by decide)⟩,
      hall ',' (by decide) (by decide)⟩, hall '\uFEFF' (by decide) (by decide)⟩
  refine ⟨hignored, hne '#' (by decide) (by decide), ?_⟩
  have hnumber : (isDigit first || decide (first = '-')) = true := by
    rcases hfirst with rfl | hdigit
    · decide
    · rw [hdigit, Bool.true_or]
  unfold token
  split
  · contradiction
  · next heq => exact absurd (List.cons.inj heq).1 (hne '.' (by decide) (by decide))
  · next heq => exact absurd (List.cons.inj heq).1 (hne '"' (by decide) (by decide))
  · next heq =>
      obtain ⟨rfl, rfl⟩ := List.cons.inj heq
      rw [if_neg (by simp [hmark]), if_neg (by simp [hstart]), if_pos hnumber]

theorem tokensFrom_number {text : String} {t : Token} (htext : IsNumberText text t)
    (hends : Numeral.EndsNumber rest) :
    tokensFrom found (text.toList ++ rest) = tokensFrom (t :: found) rest := by
  obtain ⟨first, more, hchars, hfirst⟩ := htext.head
  have hread := htext.number hends
  rw [hchars, List.cons_append] at hread ⊢
  obtain ⟨hignored, hcomment, htoken⟩ := token_of_number hfirst (more ++ rest)
  exact tokensFrom_token hignored hcomment (htoken.trans hread)

theorem token_word {name : String} (hname : Introspection.isName name = true) :
    ∃ first letters, name.toList = first :: letters ∧ isNameStart first = true ∧
      token (first :: letters) = some (.name name, []) := by
  unfold Introspection.isName at hname
  cases hletters : name.toList with
  | nil =>
      rw [hletters] at hname
      contradiction
  | cons first letters =>
      rw [hletters, Bool.and_eq_true, List.all_eq_true] at hname
      obtain ⟨hstart, hparts⟩ := hname
      refine ⟨first, letters, rfl, hstart, ?_⟩
      have hall : letters.takeWhile isNamePart = letters ∧ letters.dropWhile isNamePart = [] :=
        ⟨List.takeWhile_eq_self_iff.2 hparts, List.dropWhile_eq_nil_iff.2 hparts⟩
      unfold token
      split
      · contradiction
      · next heq =>
          rw [(List.cons.inj heq).1] at hstart
          exact absurd hstart (by decide)
      · next heq =>
          rw [(List.cons.inj heq).1] at hstart
          exact absurd hstart (by decide)
      · next heq =>
          obtain ⟨rfl, rfl⟩ := List.cons.inj heq
          rw [if_neg (by simp [isMark_of_isNameStart hstart]), if_pos hstart, hall.1, hall.2,
            ← hletters, String.ofList_toList]

theorem tokensFrom_word {name : String} (hname : Introspection.isName name = true)
    (hends : EndsValue rest) :
    tokensFrom found (name.toList ++ rest) = tokensFrom (.name name :: found) rest := by
  cases rest with
  | cons c rest => exact tokensFrom_name hname (hends.endsNumber c rfl).1
  | nil =>
      obtain ⟨first, letters, hletters, hstart, htoken⟩ := token_word hname
      rw [List.append_nil, hletters]
      apply tokensFrom_token (isIgnored_of_isNameStart hstart) _ htoken
      rintro rfl
      exact absurd hstart (by decide)

theorem tokensFrom_quoted (text : String) (hends : EndsValue rest) :
    tokensFrom found ((Printer.quoted text).toList ++ rest) =
      tokensFrom (.string ⟨text, false⟩ :: found) rest := by
  have htoken := Printer.token_quoted text hends.head?_ne
  have hchars : (Printer.quoted text).toList ++ rest =
      '"' :: ((String.join (text.toList.map Printer.escapedChar)).toList ++ '"' :: rest) := by
    simp [Printer.quoted]
  rw [hchars] at htoken ⊢
  exact tokensFrom_token (by decide) (by decide) htoken

end Lexer

/-! ## Reading values -/

mutual

/-- Whether a value is read as it stands: it is no variable, and no enum value is a word for
another value. -/
def Value.IsReadable : Value → Prop
  | .variable _ => False
  | .enum name => name ∉ valueWords
  | .list items => AreReadable items
  | .object fields => AreReadableFields fields
  | _ => True

def AreReadable : List Value → Prop
  | [] => True
  | v :: rest => v.IsReadable ∧ AreReadable rest

def AreReadableFields : List (String × Value) → Prop
  | [] => True
  | (_, v) :: rest => v.IsReadable ∧ AreReadableFields rest

end

namespace Reader

variable {α β : Type} {rest : List Token}

/-- What comes first is read first. -/
theorem bind_of_eq {first : Reader α} {next : α → Reader β} {tokens : List Token} {a : α}
    (hfirst : first tokens = some (a, rest)) : (first >>= next) tokens = next a rest := by
  simp only [bind, StateT.bind, hfirst, Option.bind_some]

theorem sees_self (t : Token) : sees t (t :: rest) = some (true, t :: rest) := by
  simp [sees]

theorem sees_of_ne {t first : Token} (hne : first ≠ t) :
    sees t (first :: rest) = some (false, first :: rest) := by
  simp [sees, hne]

/-- Items up to a mark, of which some may be refused. -/
theorem itemsUpTo_eq {close : Token} {item : Reader α} {f : α → List Token} {p : α → Prop}
    [DecidablePred p] {items : List α} {fuel : Nat} (hfuel : items.length < fuel)
    (hitems : ∀ a ∈ items, ∀ after, item (f a ++ after) = if p a then some (a, after) else none)
    (hclose : ∀ a ∈ items, ∃ first more, f a = first :: more ∧ first ≠ close) :
    itemsUpTo close item fuel (items.flatMap f ++ close :: rest) =
      if ∀ a ∈ items, p a then some (items, rest) else none := by
  induction items generalizing fuel with
  | nil =>
      cases fuel with
      | zero => simp at hfuel
      | succ fuel =>
          have hclosed : skip? close (close :: rest) = some (true, rest) := by simp [skip?]
          simp only [itemsUpTo, bind, StateT.bind, List.flatMap_nil, List.nil_append, hclosed,
            Option.bind_some, if_true, List.not_mem_nil, false_imp_iff, implies_true]
          rfl
  | cons a items ih =>
      cases fuel with
      | zero => simp at hfuel
      | succ fuel =>
          obtain ⟨first, more, hfirst, hne⟩ := hclose a List.mem_cons_self
          have hitem := hitems a List.mem_cons_self (items.flatMap f ++ close :: rest)
          have hrest := @ih fuel (by simpa using hfuel)
            (fun other hother => hitems other (List.mem_cons_of_mem _ hother))
            fun other hother => hclose other (List.mem_cons_of_mem _ hother)
          have hskip : skip? close ((a :: items).flatMap f ++ close :: rest) =
              some (false, (a :: items).flatMap f ++ close :: rest) := by
            rw [List.flatMap_cons, hfirst]
            simp [skip?, hne]
          rw [itemsUpTo]
          simp only [bind, StateT.bind, hskip, Option.bind_some, Bool.false_eq_true, if_false]
          rw [List.flatMap_cons, List.append_assoc, hitem]
          simp only [List.forall_mem_cons]
          by_cases hp : p a
          · simp only [hp, if_true, Option.bind_some, hrest, true_and]
            split <;> rfl
          · simp only [hp, if_false, false_and, Option.bind_none]

/-- Items between two marks. -/
theorem anyBetween_eq {opening closing : Char} {item : Reader α} {f : α → List Token} {p : α → Prop}
    [DecidablePred p] {items : List α}
    (hitems : ∀ a ∈ items, ∀ after, item (f a ++ after) = if p a then some (a, after) else none)
    (hclose : ∀ a ∈ items, ∃ first more, f a = first :: more ∧ first ≠ .mark closing) :
    anyBetween opening closing item
      (.mark opening :: (items.flatMap f ++ .mark closing :: rest)) =
        if ∀ a ∈ items, p a then some (items, rest) else none := by
  have hfuel : items.length < (items.flatMap f ++ .mark closing :: rest).length + 1 := by
    have hlength : ∀ others : List α, (∀ a ∈ others, ∃ first more, f a = first :: more ∧
        first ≠ .mark closing) → others.length ≤ (others.flatMap f).length := by
      intro others hothers
      induction others with
      | nil => simp
      | cons a others ih =>
          obtain ⟨first, more, hfirst, -⟩ := hothers a List.mem_cons_self
          have hrest := ih fun other hother => hothers other (List.mem_cons_of_mem _ hother)
          rw [List.flatMap_cons, List.length_append, hfirst, List.length_cons, List.length_cons]
          omega
    have hle := hlength items hclose
    rw [List.length_append]
    omega
  simp only [anyBetween, bind, StateT.bind, skip, if_true, Option.bind_some, remaining]
  exact itemsUpTo_eq hfuel hitems hclose

/-- What follows a reader that may refuse. -/
theorem bind_of_eq_ite {first : Reader α} {next : α → Reader β} {tokens : List Token} {a : α}
    {holds : Prop} [Decidable holds]
    (hfirst : first tokens = if holds then some (a, rest) else none) :
    (first >>= next) tokens = if holds then next a rest else none := by
  by_cases h : holds
  · rw [if_pos h] at hfirst ⊢
    exact bind_of_eq hfirst
  · rw [if_neg h] at hfirst ⊢
    simp only [bind, StateT.bind, hfirst, Option.bind_none]

end Reader

theorem tokensOfAll_eq (items : List Value) : tokensOfAll items = items.flatMap Value.tokens := by
  induction items with
  | nil => rfl
  | cons v rest ih => rw [tokensOfAll, ih, List.flatMap_cons]

/-- The tokens of a named value. -/
def fieldTokens (field : String × Value) : List Token :=
  .name field.1 :: .mark ':' :: field.2.tokens

theorem tokensOfFields_eq (fields : List (String × Value)) :
    tokensOfFields fields = fields.flatMap fieldTokens := by
  induction fields with
  | nil => rfl
  | cons field rest ih =>
      rw [tokensOfFields, ih, List.flatMap_cons, fieldTokens, List.cons_append, List.cons_append]

/-- A value begins with what ends no list. -/
theorem Value.exists_tokens (v : Value) :
    ∃ first more, v.tokens = first :: more ∧ first ≠ .mark ']' := by
  cases v <;> exact ⟨_, _, rfl, by simp⟩

theorem namedValue_enum {name : String} (hword : name ∉ valueWords) :
    Reader.namedValue name = .enum name := by
  simp only [valueWords, List.mem_cons, List.not_mem_nil, or_false, not_or] at hword
  unfold Reader.namedValue
  split
  · exact absurd rfl hword.1
  · exact absurd rfl hword.2.1
  · exact absurd rfl hword.2.2
  · rfl

/-- A value without parts is read whatever room there is. -/
theorem reader_plain {t : Token} {v : Value} {rest : List Token} (room : Nat)
    (hmark : ∀ c, t ≠ .mark c) (hplain : Reader.plainValue false (t :: rest) = some (v, rest)) :
    Reader.value false room (t :: rest) = some (v, rest) := by
  cases room with
  | zero => exact hplain
  | succ room =>
      rw [Reader.value, Reader.bind_of_eq (Reader.sees_of_ne (hmark '[')), if_neg (by decide),
        Reader.bind_of_eq (Reader.sees_of_ne (hmark '\x7b')), if_neg (by decide)]
      exact hplain

theorem depthOfAll_le_iff {items : List Value} {room : Nat} :
    depthOfAll items ≤ room ↔ ∀ v ∈ items, v.depth ≤ room := by
  induction items with
  | nil => simp [depthOfAll]
  | cons v rest ih => rw [depthOfAll, Nat.max_le, ih, List.forall_mem_cons]

theorem depthOfFields_le_iff {fields : List (String × Value)} {room : Nat} :
    depthOfFields fields ≤ room ↔ ∀ field ∈ fields, field.2.depth ≤ room := by
  induction fields with
  | nil => simp [depthOfFields]
  | cons field rest ih => rw [depthOfFields, Nat.max_le, ih, List.forall_mem_cons]

mutual

/-- A value is read from its tokens, unless it nests deeper than there is room. -/
theorem Value.reader_tokens : (v : Value) → v.IsReadable → (room : Nat) → (rest : List Token) →
    Reader.value false room (v.tokens ++ rest) = if v.depth ≤ room then some (v, rest) else none
  | .variable _, hreadable, _, _ => hreadable.elim
  | .int _, _, room, _ => (reader_plain room (by simp) rfl).trans (if_pos (Nat.zero_le _)).symm
  | .float _, _, room, _ => (reader_plain room (by simp) rfl).trans (if_pos (Nat.zero_le _)).symm
  | .string _, _, room, _ => (reader_plain room (by simp) rfl).trans (if_pos (Nat.zero_le _)).symm
  | .boolean true, _, room, _ =>
      (reader_plain room (by simp) rfl).trans (if_pos (Nat.zero_le _)).symm
  | .boolean false, _, room, _ =>
      (reader_plain room (by simp) rfl).trans (if_pos (Nat.zero_le _)).symm
  | .null, _, room, _ => (reader_plain room (by simp) rfl).trans (if_pos (Nat.zero_le _)).symm
  | .enum name, hreadable, room, rest => by
      refine (reader_plain room (by simp) ?_).trans (if_pos (Nat.zero_le _)).symm
      change some (Reader.namedValue name, rest) = some (.enum name, rest)
      rw [namedValue_enum hreadable]
  | .list items, _, 0, _ => (if_neg (Nat.not_succ_le_zero _)).symm
  | .list items, hreadable, room + 1, rest => by
      have hread := @Reader.anyBetween_eq _ rest '[' ']' _ _ _ _ _
        (readers_tokens items hreadable room) fun v _ => v.exists_tokens
      rw [Value.tokens, tokensOfAll_eq, List.cons_append, List.append_assoc, List.singleton_append,
        Reader.value, Reader.bind_of_eq (Reader.sees_self _), if_pos rfl,
        Reader.bind_of_eq_ite hread]
      simp only [Value.depth, Nat.add_le_add_iff_right, depthOfAll_le_iff]
      rfl
  | .object fields, _, 0, _ => (if_neg (Nat.not_succ_le_zero _)).symm
  | .object fields, hreadable, room + 1, rest => by
      have hread := @Reader.anyBetween_eq _ rest '\x7b' '\x7d' _ _ _ _ _
        (readers_fieldTokens fields hreadable room) fun field _ => ⟨_, _, rfl, by simp⟩
      rw [Value.tokens, tokensOfFields_eq, List.cons_append, List.append_assoc,
        List.singleton_append, Reader.value, Reader.bind_of_eq (Reader.sees_of_ne (by decide)),
        if_neg (by decide), Reader.bind_of_eq (Reader.sees_self _), if_pos rfl,
        Reader.bind_of_eq_ite hread]
      simp only [Value.depth, Nat.add_le_add_iff_right, depthOfFields_le_iff]
      rfl

theorem readers_tokens : (items : List Value) → AreReadable items → (room : Nat) →
    ∀ v ∈ items, ∀ rest, Reader.value false room (v.tokens ++ rest) =
      if v.depth ≤ room then some (v, rest) else none
  | [], _, _ => by simp
  | v :: rest, hreadable, room =>
      List.forall_mem_cons.2
        ⟨v.reader_tokens hreadable.1 room, readers_tokens rest hreadable.2 room⟩

theorem readers_fieldTokens : (fields : List (String × Value)) → AreReadableFields fields →
    (room : Nat) → ∀ field ∈ fields, ∀ rest,
      (do
        let name ← Reader.name
        Reader.skip (.mark ':')
        return (name, ← Reader.value false room) : Reader (String × Value))
        (fieldTokens field ++ rest) = if field.2.depth ≤ room then some (field, rest) else none
  | [], _, _ => by simp
  | (name, v) :: rest, hreadable, room => by
      have hfirst := v.reader_tokens hreadable.1 room
      refine List.forall_mem_cons.2 ⟨?_, readers_fieldTokens rest hreadable.2 room⟩
      intro after
      simp only [fieldTokens, List.cons_append, Reader.name, Reader.skip, bind, StateT.bind,
        Option.bind_some, if_true, hfirst]
      split <;> rfl

end

/-! ## Printed values -/

theorem reread_float {text : String} {t : Token} (htext : IsNumberText text t) :
    Lexer.number text.toList = some (t, []) := by
  simpa using @IsNumberText.number _ _ htext [] (by simp [Numeral.EndsNumber])

namespace Lexer

/-- A text is cut into tokens, whatever ends it. -/
def CutsInto (text : String) (tokens : List Token) : Prop :=
  ∀ rest found, EndsValue rest →
    tokensFrom found (text.toList ++ rest) = tokensFrom (tokens.reverse ++ found) rest

/-- Texts with commas between them are cut one after the other. -/
theorem tokensFrom_intercalate {texts : List String} {rows : List (List Token)}
    (hcut : List.Forall₂ CutsInto texts rows) {closing : Char} (hclosing : closing ∈ [']', '\x7d'])
    (rest : List Char) (found : List Token) :
    tokensFrom found ((", ".intercalate texts).toList ++ closing :: rest) =
      tokensFrom (rows.flatten.reverse ++ found) (closing :: rest) := by
  have hends : EndsValue (closing :: rest) := endsValue_cons (List.mem_cons_of_mem _ hclosing) rest
  induction hcut generalizing found with
  | nil => rfl
  | @cons text tokens texts rows hfirst hcut ih =>
      cases hcut with
      | nil =>
          rw [String.intercalate_singleton, hfirst _ _ hends]
          simp
      | @cons next _ more _ hnext hmore =>
          have hchars : (", ".intercalate (text :: next :: more)).toList ++ closing :: rest =
              text.toList ++ ',' :: ' ' ::
                ((", ".intercalate (next :: more)).toList ++ closing :: rest) := by
            rw [String.intercalate_cons_cons]
            simp
          rw [hchars, hfirst _ _ (endsValue_cons (by decide) _), tokensFrom_ignored (by decide),
            tokensFrom_ignored (by decide), ih, List.flatten_cons (l := tokens),
            List.reverse_append, List.append_assoc]

/-- Rows of tokens between two marks. -/
theorem cutsInto_between {opening closing : Char} (hopening : opening ∈ ['[', '\x7b'])
    (hclosing : closing ∈ [']', '\x7d']) {texts : List String} {rows : List (List Token)}
    (hcut : List.Forall₂ CutsInto texts rows) :
    CutsInto (opening.toString ++ ", ".intercalate texts ++ closing.toString)
      (.mark opening :: (rows.flatten ++ [.mark closing])) := by
  intro rest found hends
  have hmark : ∀ c ∈ ['[', '\x7b', ']', '\x7d'], isIgnored c = false ∧ c ≠ '#' ∧
      ∀ more, token (c :: more) = some (.mark c, more) := by
    simp only [List.forall_mem_cons]
    exact ⟨⟨by decide, by decide, fun _ => rfl⟩, ⟨by decide, by decide, fun _ => rfl⟩,
      ⟨by decide, by decide, fun _ => rfl⟩, ⟨by decide, by decide, fun _ => rfl⟩, by simp⟩
  have hopened := hmark opening (List.mem_append_left [']', '\x7d'] hopening)
  have hclosed := hmark closing (List.mem_append_right ['[', '\x7b'] hclosing)
  have hchars : (opening.toString ++ ", ".intercalate texts ++ closing.toString).toList ++ rest =
      opening :: ((", ".intercalate texts).toList ++ closing :: rest) := by simp
  rw [hchars, tokensFrom_token hopened.1 hopened.2.1 (hopened.2.2 _),
    tokensFrom_intercalate hcut hclosing, tokensFrom_token hclosed.1 hclosed.2.1 (hclosed.2.2 _)]
  simp

mutual

/-- A printed value is cut into the tokens of the value that it is read as. -/
theorem cutsInto_value [Runtime] : (v : Value) → v.IsPrintable → CutsInto (Printer.value v)
    v.reread.tokens
  | .variable _, hprint => hprint.elim
  | .int text, hprint => fun rest found hends => tokensFrom_number hprint hends.endsNumber
  | .float text, hprint => by
      intro rest found hends
      have hread : ∀ {t : Token}, IsNumberText text t →
          tokensFrom found (text.toList ++ rest) = tokensFrom (t :: found) rest :=
        fun htext => tokensFrom_number htext hends.endsNumber
      rw [Printer.value, Value.reread]
      rcases hprint with hwhole | hfraction
      · rw [reread_float hwhole, hread hwhole]
        rfl
      · rw [reread_float hfraction, hread hfraction]
        rfl
  | .string ⟨text, isBlock⟩, hprint => by
      obtain ⟨rfl, -⟩ : isBlock = false ∧ _ := hprint
      exact fun rest found hends => tokensFrom_quoted text hends
  | .boolean true, _ => fun _ _ hends => @tokensFrom_word _ _ "true" (by decide) hends
  | .boolean false, _ => fun _ _ hends => @tokensFrom_word _ _ "false" (by decide) hends
  | .null, _ => fun _ _ hends => @tokensFrom_word _ _ "null" (by decide) hends
  | .enum name, hprint => fun _ _ hends => tokensFrom_word hprint.1 hends
  | .list items, hprint => by
      rw [Printer.value, Value.reread, Value.tokens, tokensOfAll_eq, List.flatMap_def]
      exact @cutsInto_between '[' ']' (by decide) (by decide) _ _
        (cutsInto_values items hprint)
  | .object fields, hprint => by
      rw [Printer.value, Value.reread, Value.tokens, tokensOfFields_eq, List.flatMap_def]
      exact @cutsInto_between '\x7b' '\x7d' (by decide) (by decide) _ _
        (cutsInto_namedValues fields hprint)

theorem cutsInto_values [Runtime] : (items : List Value) → ArePrintable items →
    List.Forall₂ CutsInto (Printer.values items) ((rereadAll items).map Value.tokens)
  | [], _ => .nil
  | v :: rest, hprint => .cons (cutsInto_value v hprint.1) (cutsInto_values rest hprint.2)

theorem cutsInto_namedValues [Runtime] : (fields : List (String × Value)) → ArePrintableFields
    fields →
    List.Forall₂ CutsInto (Printer.namedValues fields) ((rereadFields fields).map fieldTokens)
  | [], _ => .nil
  | (name, v) :: rest, hprint => by
      refine .cons ?_ (cutsInto_namedValues rest hprint.2.2)
      intro after found hends
      have hvalue := cutsInto_value v hprint.2.1 after (.mark ':' :: .name name :: found) hends
      have hchars : (name ++ ": " ++ Printer.value v).toList ++ after =
          name.toList ++ ':' :: ' ' :: ((Printer.value v).toList ++ after) := by simp
      rw [hchars, tokensFrom_name hprint.1 (by decide),
        tokensFrom_token (by decide) (by decide) rfl, tokensFrom_ignored (by decide), hvalue]
      simp [fieldTokens]

end

end Lexer

/-! ## Texts of values -/

section

open Text

theorem hasSurrogate_append [Runtime] (first second : String) :
    hasSurrogate (first ++ second) = (hasSurrogate first || hasSurrogate second) := by
  rw [hasSurrogate, hasSurrogate, hasSurrogate, String.toList_append, List.any_append]

theorem hasSurrogate_between [Runtime] {first middle last : String}
    (hfirst : hasSurrogate first = false) (hmiddle : hasSurrogate middle = false)
    (hlast : hasSurrogate last = false) : hasSurrogate (first ++ middle ++ last) = false := by
  rw [hasSurrogate_append, hasSurrogate_append, hfirst, hmiddle, hlast]
  rfl

theorem hasSurrogate_intercalate [Runtime] {separator : String}
    (hseparator : hasSurrogate separator = false)
    {texts : List String} (htexts : ∀ text ∈ texts, hasSurrogate text = false) :
    hasSurrogate (separator.intercalate texts) = false := by
  induction texts with
  | nil => rfl
  | cons text rest ih =>
      rw [List.forall_mem_cons] at htexts
      cases rest with
      | nil =>
          rw [String.intercalate_singleton]
          exact htexts.1
      | cons next more =>
          rw [String.intercalate_cons_cons, hasSurrogate_append, hasSurrogate_append, htexts.1,
            hseparator, ih htexts.2]
          rfl

theorem hasSurrogate_name [Runtime] {name : String} (hname : Introspection.isName name = true) :
    hasSurrogate name = false := by
  apply Text.hasSurrogate_of_ascii
  intro c hc
  by_contra hhigh
  have hpart : Lexer.isNamePart c = false := by
    by_contra hpart
    have hlow := Lexer.toNat_le_of_isNamePart (eq_true_of_ne_false hpart)
    omega
  exact Introspection.notMem_of_isName hname hpart hc

theorem hasSurrogate_escapedChar [Runtime] {c : Char} (hplain : isSurrogate c = false) :
    hasSurrogate (Printer.escapedChar c) = false := by
  unfold Printer.escapedChar
  split_ifs with hquote hslash hline hreturn htab hback hfeed hcode
  all_goals try exact hasSurrogate_of_ascii (by decide)
  · have hdigits : hasSurrogate (Json.Printer.hexDigits 4 c.toNat) = false := by
      have hlow : ∀ n < 16, (Nat.digitChar n).toNat < 0x80 := by decide
      apply Text.hasSurrogate_of_ascii
      rw [IsAscii, Json.Printer.toList_hexDigits (by omega)]
      simp only [List.forall_mem_cons]
      exact ⟨hlow _ (by omega), hlow _ (by omega), hlow _ (by omega), hlow _ (by omega), by simp⟩
    rw [Json.Printer.unicodeEscape, hasSurrogate_append, hdigits, Bool.or_false]
    exact hasSurrogate_of_ascii (by decide)
  · rw [hasSurrogate, Char.toString, String.toList_singleton]
    simpa using hplain

theorem hasSurrogate_quoted [Runtime] {text : String} (hplain : hasSurrogate text = false) :
    hasSurrogate (Printer.quoted text) = false := by
  have hjoin : ∀ chars : List Char, (∀ c ∈ chars, isSurrogate c = false) →
      hasSurrogate (String.join (chars.map Printer.escapedChar)) = false := by
    intro chars hchars
    induction chars with
    | nil => rfl
    | cons c rest ih =>
        rw [List.forall_mem_cons] at hchars
        rw [List.map_cons, String.join_cons, hasSurrogate_append,
          hasSurrogate_escapedChar hchars.1, ih hchars.2]
        rfl
  rw [hasSurrogate, List.any_eq_false] at hplain
  have hbody := hjoin text.toList fun c hc => Bool.eq_false_iff.2 (hplain c hc)
  have hquote : hasSurrogate "\"" = false := hasSurrogate_of_ascii (by decide)
  exact hasSurrogate_between hquote hbody hquote

theorem hasSurrogate_comma [Runtime] : hasSurrogate ", " = false :=
  hasSurrogate_of_ascii (by decide)

mutual

theorem hasSurrogate_value [Runtime] : (v : Value) → v.IsPrintable →
    hasSurrogate (Printer.value v) = false
  | .variable _, hprint => hprint.elim
  | .int text, hprint => hprint.plain
  | .float text, hprint => hprint.elim (·.plain) (·.plain)
  | .string ⟨text, isBlock⟩, hprint => by
      obtain ⟨rfl, hplain⟩ : isBlock = false ∧ _ := hprint
      exact hasSurrogate_quoted hplain
  | .boolean true, _ => hasSurrogate_of_ascii (by decide)
  | .boolean false, _ => hasSurrogate_of_ascii (by decide)
  | .null, _ => hasSurrogate_of_ascii (by decide)
  | .enum name, hprint => hasSurrogate_name hprint.1
  | .list items, hprint => by
      have hitems := hasSurrogate_intercalate hasSurrogate_comma (hasSurrogate_values items hprint)
      rw [Printer.value]
      exact hasSurrogate_between (hasSurrogate_of_ascii (by decide)) hitems
        (hasSurrogate_of_ascii (by decide))
  | .object fields, hprint => by
      have hfields := hasSurrogate_intercalate hasSurrogate_comma
        (hasSurrogate_namedValues fields hprint)
      rw [Printer.value]
      exact hasSurrogate_between (hasSurrogate_of_ascii (by decide)) hfields
        (hasSurrogate_of_ascii (by decide))

theorem hasSurrogate_values [Runtime] : (items : List Value) → ArePrintable items →
    ∀ text ∈ Printer.values items, hasSurrogate text = false
  | [], _ => by simp [Printer.values]
  | v :: rest, hprint => List.forall_mem_cons.2
      ⟨hasSurrogate_value v hprint.1, hasSurrogate_values rest hprint.2⟩

theorem hasSurrogate_namedValues [Runtime] :
    (fields : List (String × Value)) → ArePrintableFields fields →
    ∀ text ∈ Printer.namedValues fields, hasSurrogate text = false
  | [], _ => by simp [Printer.namedValues]
  | (name, v) :: rest, hprint => by
      have hfirst : hasSurrogate (name ++ ": " ++ Printer.value v) = false :=
        hasSurrogate_between (hasSurrogate_name hprint.1) (hasSurrogate_of_ascii (by decide))
          (hasSurrogate_value v hprint.2.1)
      exact List.forall_mem_cons.2 ⟨hfirst, hasSurrogate_namedValues rest hprint.2.2⟩

end

end

mutual

theorem Value.depth_reread : (v : Value) → v.reread.depth = v.depth
  | .float text => by
      rw [Value.reread]
      split <;> rfl
  | .list items => by rw [Value.reread, Value.depth, Value.depth, depthOfAll_reread items]
  | .object fields => by
      rw [Value.reread, Value.depth, Value.depth, depthOfFields_reread fields]
  | .variable _ => rfl
  | .int _ => rfl
  | .string _ => rfl
  | .boolean _ => rfl
  | .null => rfl
  | .enum _ => rfl

theorem depthOfAll_reread : (items : List Value) → depthOfAll (rereadAll items) = depthOfAll items
  | [] => rfl
  | v :: rest => by
      rw [rereadAll, depthOfAll, depthOfAll, v.depth_reread, depthOfAll_reread rest]

theorem depthOfFields_reread : (fields : List (String × Value)) →
    depthOfFields (rereadFields fields) = depthOfFields fields
  | [] => rfl
  | (name, v) :: rest => by
      rw [rereadFields, depthOfFields, depthOfFields, v.depth_reread, depthOfFields_reread rest]

end

mutual

theorem Value.isReadable_reread [Runtime] : (v : Value) → v.IsPrintable → v.reread.IsReadable
  | .variable _, hprint => hprint.elim
  | .float text, _ => by
      rw [Value.reread]
      split <;> trivial
  | .list items, hprint => areReadable_reread items hprint
  | .object fields, hprint => areReadableFields_reread fields hprint
  | .int _, _ => trivial
  | .string _, _ => trivial
  | .boolean _, _ => trivial
  | .null, _ => trivial
  | .enum _, hprint => hprint.2

theorem areReadable_reread [Runtime] : (items : List Value) → ArePrintable items →
    AreReadable (rereadAll items)
  | [], _ => trivial
  | v :: rest, hprint => ⟨v.isReadable_reread hprint.1, areReadable_reread rest hprint.2⟩

theorem areReadableFields_reread [Runtime] :
    (fields : List (String × Value)) → ArePrintableFields fields →
    AreReadableFields (rereadFields fields)
  | [], _ => trivial
  | (_, v) :: rest, hprint =>
      ⟨v.isReadable_reread hprint.2.1, areReadableFields_reread rest hprint.2.2⟩

end

/-- The text of a value is read as the value, but for numbers whose text shows no fraction. -/
theorem Value.parse?_printed [Runtime] {v : Value} (hprint : v.IsPrintable) :
    Value.parse? (Printer.value v) =
      if v.depth ≤ Runtime.parsingDepth then some v.reread else none := by
  have hcut := Lexer.cutsInto_value v hprint [] [] (by simp [Lexer.EndsValue])
  have htokens : tokens? (Printer.value v) = some v.reread.tokens := by
    rw [tokens?, hasSurrogate_value v hprint, if_neg (by decide)]
    rw [List.append_nil, List.append_nil] at hcut
    rw [hcut, Lexer.tokensFrom, List.reverse_reverse]
  have hread := v.reread.reader_tokens (v.isReadable_reread hprint) Runtime.parsingDepth []
  rw [List.append_nil, v.depth_reread] at hread
  unfold Value.parse?
  rw [htokens]
  simp only [Option.bind_eq_bind, Option.bind_some, hread]
  by_cases hdepth : v.depth ≤ Runtime.parsingDepth
  · rw [if_pos hdepth, if_pos hdepth]
  · rw [if_neg hdepth, if_neg hdepth]

end Sdl

end ConfigSchema
