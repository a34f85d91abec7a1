import ConfigSchema.Introspection.Document
import ConfigSchema.Proofs.SoundDocuments
import ConfigSchema.Proofs.TypeOrder

/-!
# Plain literals

A constant that is no list and no object has a literal of one token.  When this literal is printed
and read again it fits the same type, and the constant that it then stands for has a literal of one
token, too.  The two literals need not be the same: an identifier that is written as a text becomes
an integer if it looks like one.
-/

namespace ConfigSchema

namespace Sdl

namespace Numeral

/-- An integer as it is written. -/
def ofInt (n : Int) : Numeral :=
  { isNegative := n < 0, whole := Nat.toDigits 10 n.natAbs }

theorem isProper_ofInt (n : Int) : (ofInt n).IsProper where
  whole := fun _ hc => Binary64.isDigit_of_mem_toDigits hc
  whole_ne_nil := Nat.toDigits_ne_nil
  leading := by
    intro hlength
    apply Json.Reader.toDigits_head
    by_contra hzero
    have hsame : n.natAbs = 0 := by omega
    simp [ofInt, hsame] at hlength
  fraction := by simp [ofInt]
  exponent := by simp [ofInt]

theorem text_ofInt (n : Int) : (ofInt n).text = toString n := by
  rw [← String.toList_inj, toList_text, Json.Reader.toList_toString_int]
  simp only [ofInt, sign, fractionPart, exponentPart, if_true, List.append_nil, decide_eq_true_eq]
  split_ifs <;> first | rfl | omega

theorem parts_of_isWhole {n : Numeral} (hwhole : n.isWhole = true) :
    n.fractionPart = [] ∧ n.exponentPart = [] := by
  simpa [isWhole] using hwhole

theorem isWhole_of_token {n : Numeral} {text : String} (htoken : n.token = .int text) :
    n.isWhole = true := by
  by_contra hwhole
  rw [token, if_neg hwhole] at htoken
  contradiction

theorem isNumberText {n : Numeral} (hproper : n.IsProper) : IsNumberText n.text n.token :=
  ⟨n, hproper, rfl, rfl⟩

end Numeral

theorem isNumberText_toString (n : Int) : IsNumberText (toString n) (.int (toString n)) := by
  have htext := Numeral.isNumberText (Numeral.isProper_ofInt n)
  have hwhole : (Numeral.ofInt n).isWhole = true := rfl
  rw [Numeral.token, if_pos hwhole, Numeral.text_ofInt] at htext
  exact htext

end Sdl

/-- Whether a value is written with one token that is a value of a scalar or an enum. -/
def Sdl.Value.isPlain : Sdl.Value → Bool
  | .variable _ => false
  | .null => false
  | .list _ => false
  | .object _ => false
  | _ => true

namespace Schema

open Sdl (IsNumberText Numeral)

/-! ## Integers -/

theorem intOfText_of_isWhole {n : Numeral} (hproper : n.IsProper) (hwhole : n.isWhole = true) :
    intOfText n.text = Decimal.intOfDigits n.isNegative n.whole := by
  obtain ⟨hfraction, hexponent⟩ := Numeral.parts_of_isWhole hwhole
  simp only [intOfText, Numeral.signed_text hproper, hfraction, hexponent, List.append_nil]

theorem isTooLong_of_isWhole {n : Numeral} (hproper : n.IsProper) (hwhole : n.isWhole = true) :
    isTooLong n.text = decide (Decimal.digitLimit < n.whole.length) := by
  obtain ⟨hfraction, hexponent⟩ := Numeral.parts_of_isWhole hwhole
  simp only [isTooLong, Numeral.signed_text hproper, hfraction, hexponent, List.append_nil]

theorem intOfText_toString (n : Int) : intOfText (toString n) = n := by
  rw [← Numeral.text_ofInt, intOfText_of_isWhole (Numeral.isProper_ofInt n) rfl]
  simp only [Numeral.ofInt, Decimal.intOfDigits, Decimal.natOfDigits_toDigits, decide_eq_true_eq]
  split_ifs <;> omega

/-- An integer that was read is not too long to be read again. -/
theorem isTooLong_toString {text : String} (htext : IsNumberText text (.int text))
    (hshort : isTooLong text = false) : isTooLong (toString (intOfText text)) = false := by
  obtain ⟨n, hproper, rfl, htoken⟩ := htext
  have hwhole := Numeral.isWhole_of_token htoken
  rw [isTooLong_of_isWhole hproper hwhole] at hshort
  have hlength : n.whole.length ≤ Decimal.digitLimit := not_lt.1 (of_decide_eq_false hshort)
  have hbound : Decimal.natOfDigits n.whole < 10 ^ n.whole.length :=
    Json.Reader.natOfDigits_lt fun c hc => by
      have hdigit := hproper.whole c hc
      simp only [Sdl.Lexer.isDigit, Bool.and_eq_true, decide_eq_true_eq] at hdigit
      simp only [Json.Reader.isDigit, Bool.and_eq_true, decide_eq_true_eq]
      exact hdigit
  have habs : (intOfText n.text).natAbs = Decimal.natOfDigits n.whole := by
    rw [intOfText_of_isWhole hproper hwhole, Decimal.intOfDigits]
    split_ifs <;> omega
  have hpositive : 0 < n.whole.length := List.length_pos_iff.2 hproper.whole_ne_nil
  rw [← Numeral.text_ofInt, isTooLong_of_isWhole (Numeral.isProper_ofInt _) rfl,
    decide_eq_false_iff_not, not_lt]
  refine le_trans ?_ hlength
  change (Nat.toDigits 10 (intOfText n.text).natAbs).length ≤ n.whole.length
  rw [habs]
  exact (Nat.length_toDigits_le_iff (by decide) hpositive).2 hbound

/-- What looks like an integer is written as one. -/
theorem isNumberText_of_integerText? {text digits : String}
    (hdigits : integerText? text = some digits) : IsNumberText digits (.int digits) := by
  have hof : ∀ {chars : List Char}, isInteger chars = true →
      IsNumberText (String.ofList chars) (.int (String.ofList chars)) := by
    intro chars hinteger
    have hproper : ∀ {digits : List Char} (isNegative : Bool),
        (decide (digits = ['0']) || (!digits.isEmpty && decide (digits.head? ≠ some '0') &&
          digits.all fun c => decide ('0' ≤ c) && decide (c ≤ '9'))) = true →
        Numeral.IsProper { isNegative, whole := digits } := by
      intro digits isNegative hrow
      rw [Bool.or_eq_true, decide_eq_true_eq] at hrow
      rcases hrow with rfl | hrow
      · exact ⟨by simp [Sdl.Lexer.isDigit], by simp, by simp, by simp, by simp⟩
      · simp only [Bool.and_eq_true, Bool.not_eq_true', List.isEmpty_eq_false_iff,
          decide_eq_true_eq, List.all_eq_true] at hrow
        refine ⟨fun c hc => ?_, hrow.1.1, fun _ => hrow.1.2, by simp, by simp⟩
        rw [Sdl.Lexer.isDigit, Bool.and_eq_true, decide_eq_true_eq, decide_eq_true_eq]
        exact hrow.2 c hc
    unfold isInteger at hinteger
    split at hinteger
    · next rest =>
        exact ⟨_, hproper true hinteger, by simp [Numeral.text, Numeral.sign,
          Numeral.fractionPart, Numeral.exponentPart], by simp [Numeral.token, Numeral.isWhole,
          Numeral.text, Numeral.sign, Numeral.fractionPart, Numeral.exponentPart]⟩
    · exact ⟨_, hproper false hinteger, by simp [Numeral.text, Numeral.sign,
        Numeral.fractionPart, Numeral.exponentPart], by simp [Numeral.token, Numeral.isWhole,
        Numeral.text, Numeral.sign, Numeral.fractionPart, Numeral.exponentPart]⟩
  unfold integerText? at hdigits
  dsimp only at hdigits
  split_ifs at hdigits with hend hinteger hinteger
  · cases hdigits
    exact hof hinteger
  · cases hdigits
    exact hof hinteger

/-! ## Numbers with fractions -/

theorem isNumber_or_infinite_floatOfText (text : String) :
    Binary64.IsNumber (floatOfText text) ∨ ∃ negative, floatOfText text = .infinite negative := by
  unfold floatOfText
  rcases Binary64.isNumber_or_infinite_ofDecimal (Decimal.signed text.toList).1 _ _ with
    hnumber | hinfinite
  · exact .inl hnumber
  · exact .inr ⟨_, hinfinite⟩

theorem floatLiteral_of_isNumber {x : Binary64} (hnumber : Binary64.IsNumber x) (scalar : String) :
    floatLiteral scalar x = .ok (.float (floatText x)) := by
  cases hnumber
  rfl

theorem isNumber_of_floatLiteral {text scalar : String} {w : Sdl.Value}
    (hliteral : floatLiteral scalar (floatOfText text) = .ok w) :
    Binary64.IsNumber (floatOfText text) ∧ w = .float (floatText (floatOfText text)) := by
  rcases isNumber_or_infinite_floatOfText text with hnumber | ⟨negative, hinfinite⟩
  · rw [floatLiteral_of_isNumber hnumber] at hliteral
    exact ⟨hnumber, (Except.ok.inj hliteral).symm⟩
  · rw [hinfinite] at hliteral
    contradiction

/-! ## Literals of one token -/

/-- The literal that a constant has wherever it stands at a type. -/
def HasLiteral (base : String) (constant : Constant) (w : Sdl.Value) : Prop :=
  ∀ (schema : Schema) (settled : Settled) (ref : TypeRef), ref.base = base →
    literal schema settled ref constant = .ok w

/-- A literal of one token that a constant has at a type and that fits it. -/
structure IsLiteralAt [Runtime] (type : NamedType) (constant : Constant) (w : Sdl.Value) : Prop
    where
  hasLiteral : HasLiteral type.name constant w
  isPlain : w.isPlain = true
  fits : (fitPlain type w).isSome = true
  isReadable : Introspection.Document.hasReadableTexts w = true

/-- A literal of one token that fits a type when it is read again. -/
structure IsPlainAt [Runtime] (type : NamedType) (v : Sdl.Value) : Prop where
  isPlain : v.isPlain = true
  isPrintable : v.IsPrintable
  refits : ∃ constant w, fitPlain type v.reread = some constant ∧ IsLiteralAt type constant w

variable {type : NamedType} {text : String}

theorem fitPlain_scalar {specification : Option String}
    (hshape : type.shape = .scalar specification) (value : Sdl.Value) :
    fitPlain type value = fitScalar type.name value := by
  unfold fitPlain
  rw [hshape]

theorem fitScalar_int (text : String) :
    fitScalar "Int" (.int text) =
      if -intLimit ≤ intOfText text ∧ intOfText text < intLimit then some (.int (intOfText text))
      else none :=
  rfl

/-- What an own scalar makes of a literal. -/
def fitOwn : Sdl.Value → Option Constant
  | .int text => some (if isTooLong text then .float .notANumber else .int (intOfText text))
  | .float text => some (.float (floatOfText text))
  | .string literal => some (.text literal.value)
  | .boolean b => some (.boolean b)
  | .enum name => some (.text name)
  | _ => none

theorem fitScalar_own {name : String} (hown : name ∉ Sdl.BuiltIn.scalarNames) (value : Sdl.Value) :
    fitScalar name value = fitOwn value := by
  have hcontains : Sdl.BuiltIn.scalarNames.contains name = false := by simpa using hown
  have hne : name ≠ "Int" ∧ name ≠ "Float" ∧ name ≠ "String" ∧ name ≠ "Boolean" ∧ name ≠ "ID" := by
    simpa [Sdl.BuiltIn.scalarNames, and_comm, and_assoc, and_left_comm] using hown
  obtain ⟨hint, hfloat, hstring, hboolean, hid⟩ := hne
  unfold fitScalar
  split
  all_goals try exact absurd rfl (by assumption)
  rw [hcontains, if_neg (by decide)]
  cases value <;> rfl

theorem hasLiteral_text (base text : String) :
    HasLiteral base (.text text) (textLiteral base text) := by
  intro schema settled ref hbase
  rw [literal, hbase]

theorem isLiteralAt_text [Runtime] {specification : Option String}
    (hshape : type.shape = .scalar specification)
    (hfit : ∀ literal, fitScalar type.name (.string literal) = some (.text literal.value))
    (hplain : Text.hasSurrogate text = false) :
    IsLiteralAt type (.text text) (textLiteral type.name text) := by
  refine ⟨hasLiteral_text _ _, ?_, ?_, ?_⟩ <;> unfold textLiteral <;> split
  · rfl
  · rfl
  · next digits hdigits =>
      split_ifs at hdigits with hname
      rw [fitPlain_scalar hshape, hname]
      rfl
  · rw [fitPlain_scalar hshape, hfit]
    rfl
  · rfl
  · simp [Introspection.Document.hasReadableTexts, Introspection.Document.isReadableText, hplain]

theorem isPlainAt_text [Runtime] {specification : Option String}
    (hshape : type.shape = .scalar specification)
    (hfit : ∀ literal, fitScalar type.name (.string literal) = some (.text literal.value))
    (hplain : Text.hasSurrogate text = false) : IsPlainAt type (textLiteral type.name text) := by
  unfold textLiteral
  split
  · next digits hdigits =>
      split_ifs at hdigits with hname
      have hnumber := isNumberText_of_integerText? hdigits
      refine ⟨rfl, hnumber, _, _, ?_, isLiteralAt_text hshape hfit hnumber.plain⟩
      change fitPlain type (.int digits) = _
      rw [fitPlain_scalar hshape, hname]
      rfl
  · exact ⟨rfl, ⟨rfl, hplain⟩, _, _, (fitPlain_scalar hshape _).trans (hfit ⟨text, false⟩),
      isLiteralAt_text hshape hfit hplain⟩

/-- A literal that is its own constant's. -/
theorem isPlainAt_of_same [Runtime] {v : Sdl.Value} {constant : Constant}
    (hplain : v.isPlain = true) (hprint : v.IsPrintable) (hreread : v.reread = v)
    (hfit : fitPlain type v = some constant) (hliteral : HasLiteral type.name constant v)
    (hreadable : Introspection.Document.hasReadableTexts v = true) : IsPlainAt type v :=
  ⟨hplain, hprint, constant, v, hreread.symm ▸ hfit, hliteral, hplain, by rw [hfit]; rfl, hreadable⟩

theorem isPlainAt_int [Runtime] {specification : Option String}
    (hshape : type.shape = .scalar specification)
    {n : Int} (hfit : fitScalar type.name (.int (toString n)) = some (.int n)) :
    IsPlainAt type (.int (toString n)) :=
  isPlainAt_of_same rfl (Sdl.isNumberText_toString n) rfl ((fitPlain_scalar hshape _).trans hfit)
    (fun _ _ _ _ => rfl) rfl

theorem isPlainAt_boolean [Runtime] {specification : Option String}
    (hshape : type.shape = .scalar specification) {b : Bool}
    (hfit : fitScalar type.name (.boolean b) = some (.boolean b)) : IsPlainAt type (.boolean b) :=
  isPlainAt_of_same rfl trivial rfl ((fitPlain_scalar hshape _).trans hfit) (fun _ _ _ _ => rfl) rfl

/-- A whole number is a number or an integer to a scalar, and takes the literal of either. -/
def TakesWhole (name : String) (n : Numeral) : Prop :=
  fitScalar name (.int n.text) = some (.float (floatOfText n.text)) ∨
    ∃ k, fitScalar name (.int n.text) = some (.int k) ∧
      (fitScalar name (.int (toString k))).isSome = true

/-- A number may be an integer when it is read again, at a scalar of the schema's own. -/
theorem isPlainAt_float [Runtime] {specification : Option String}
    (hshape : type.shape = .scalar specification)
    {x : Binary64} (hnumber : Binary64.IsNumber x)
    (hfloat : ∀ text, fitScalar type.name (.float text) = some (.float (floatOfText text)))
    (hint : ∀ n : Numeral, n.IsProper → n.isWhole = true → n.whole.length ≤ 16 →
      TakesWhole type.name n) : IsPlainAt type (.float (floatText x)) := by
  obtain ⟨n, hproper, htext, hagain, hlength⟩ := Binary64.exists_numeral hnumber
  have hof := Numeral.isNumberText hproper
  have hread := Sdl.reread_float hof
  have hrefits : IsLiteralAt type (.float (floatOfText n.text))
      (.float (floatText (floatOfText n.text))) := by
    refine ⟨?_, rfl, ?_, rfl⟩
    · intro schema settled ref _
      rw [literal, floatLiteral_of_isNumber hagain]
    · rw [fitPlain_scalar hshape, hfloat]
      rfl
  rw [htext]
  cases hwhole : n.isWhole with
  | true =>
      have htoken : n.token = .int n.text := by rw [Numeral.token, if_pos hwhole]
      have hreread : (Sdl.Value.float n.text).reread = .int n.text := by
        rw [Sdl.Value.reread, hread, htoken]
      refine ⟨rfl, .inl (htoken ▸ hof), ?_⟩
      rw [hreread, fitPlain_scalar hshape]
      rcases hint n hproper hwhole (hlength hwhole) with hfit | ⟨k, hfit, hagain⟩
      · exact ⟨_, _, hfit, hrefits⟩
      · exact ⟨_, .int (toString k), hfit, fun _ _ _ _ => rfl, rfl,
          (fitPlain_scalar hshape _).symm ▸ hagain, rfl⟩
  | false =>
      have htoken : n.token = .float n.text := by rw [Numeral.token, hwhole, if_neg (by decide)]
      have hreread : (Sdl.Value.float n.text).reread = .float n.text := by
        rw [Sdl.Value.reread, hread, htoken]
      refine ⟨rfl, .inr (htoken ▸ hof), ?_⟩
      rw [hreread, fitPlain_scalar hshape]
      exact ⟨_, _, hfloat n.text, hrefits⟩

section

variable {schema : Schema} {settled : Settled} {ref : TypeRef} {value w : Sdl.Value}
  {constant : Constant} {specification : Option String}

theorem isPlainAt_of_text [Runtime] (hshape : type.shape = .scalar specification)
    (hfit : ∀ literal, fitScalar type.name (.string literal) = some (.text literal.value))
    (hplain : Text.hasSurrogate text = false) (hbase : ref.base = type.name)
    (hliteral : literal schema settled ref (.text text) = .ok w) : IsPlainAt type w := by
  rw [literal, hbase, Except.ok.injEq] at hliteral
  exact hliteral ▸ isPlainAt_text hshape hfit hplain

theorem isPlainAt_of_float [Runtime] (hshape : type.shape = .scalar specification)
    (hfloat : ∀ text, fitScalar type.name (.float text) = some (.float (floatOfText text)))
    (hint : ∀ n : Numeral, n.IsProper → n.isWhole = true → n.whole.length ≤ 16 →
      TakesWhole type.name n)
    (hliteral : literal schema settled ref (.float (floatOfText text)) = .ok w) :
    IsPlainAt type w := by
  rw [literal] at hliteral
  obtain ⟨hfinite, rfl⟩ := isNumber_of_floatLiteral hliteral
  exact isPlainAt_float hshape hfinite hfloat hint

theorem isPlainAt_own [Runtime] (hshape : type.shape = .scalar specification)
    (hown : type.name ∉ Sdl.BuiltIn.scalarNames) (hsound : value.IsConstant)
    (hfit : fitOwn value = some constant) (hbase : ref.base = type.name)
    (hliteral : literal schema settled ref constant = .ok w) : IsPlainAt type w := by
  have hscalar := fun value => fitScalar_own hown value
  cases value with
  | int text =>
      rw [fitOwn, Option.some.injEq] at hfit
      subst hfit
      split_ifs at hliteral with hlong
      · contradiction
      · rw [literal, Except.ok.injEq] at hliteral
        have hshort := isTooLong_toString hsound (eq_false_of_ne_true hlong)
        subst hliteral
        apply isPlainAt_int hshape
        rw [hscalar, fitOwn, hshort, if_neg (by decide), intOfText_toString]
  | float text =>
      cases hfit
      refine isPlainAt_of_float hshape (fun text => hscalar _) ?_ hliteral
      intro n hproper hwhole hlength
      refine .inr ⟨intOfText n.text, ?_, by rw [hscalar]; rfl⟩
      have hshort : isTooLong n.text = false := by
        rw [isTooLong_of_isWhole hproper hwhole, decide_eq_false_iff_not, not_lt]
        exact hlength.trans (by decide)
      rw [hscalar, fitOwn, hshort, if_neg (by decide)]
  | string literal =>
      cases hfit
      exact isPlainAt_of_text hshape (fun _ => hscalar _) hsound hbase hliteral
  | boolean b =>
      cases hfit
      rw [literal, Except.ok.injEq] at hliteral
      exact hliteral ▸ isPlainAt_boolean hshape (hscalar _)
  | enum name =>
      cases hfit
      exact isPlainAt_of_text hshape (fun _ => hscalar _) (Sdl.hasSurrogate_name hsound.1) hbase
        hliteral
  | _ => contradiction

theorem isPlainAt_scalar [Runtime] (hshape : type.shape = .scalar specification)
    (hsound : value.IsConstant)
    (hfit : fitScalar type.name value = some constant) (hbase : ref.base = type.name)
    (hliteral : literal schema settled ref constant = .ok w) : IsPlainAt type w := by
  by_cases hown : type.name ∈ Sdl.BuiltIn.scalarNames
  · simp only [Sdl.BuiltIn.scalarNames, List.mem_cons, List.not_mem_nil, or_false] at hown
    rcases hown with hname | hname | hname | hname | hname <;> rw [hname] at hfit
    · cases value with
      | string text =>
          cases hfit
          exact isPlainAt_of_text hshape (fun _ => by rw [hname]; rfl) hsound hbase hliteral
      | _ => exact nomatch hfit
    · cases value with
      | int text =>
          rw [fitScalar_int] at hfit
          split_ifs at hfit with hrange
          cases hfit
          rw [literal, Except.ok.injEq] at hliteral
          subst hliteral
          apply isPlainAt_int hshape
          rw [hname, fitScalar_int, intOfText_toString, if_pos hrange]
      | _ => exact nomatch hfit
    · have hfloat : ∀ {text : String},
          literal schema settled ref (.float (floatOfText text)) = .ok w → IsPlainAt type w :=
        isPlainAt_of_float hshape (fun text => by rw [hname]; rfl)
          fun n _ _ _ => .inl (by rw [hname]; rfl)
      cases value with
      | int text =>
          cases hfit
          exact hfloat hliteral
      | float text =>
          cases hfit
          exact hfloat hliteral
      | _ => exact nomatch hfit
    · cases value with
      | boolean b =>
          cases hfit
          rw [literal, Except.ok.injEq] at hliteral
          exact hliteral ▸ isPlainAt_boolean hshape (by rw [hname]; rfl)
      | _ => exact nomatch hfit
    · have htext : ∀ {text : String}, Text.hasSurrogate text = false →
          literal schema settled ref (.text text) = .ok w → IsPlainAt type w := fun hplain =>
        isPlainAt_of_text hshape (fun _ => by rw [hname]; rfl) hplain hbase
      cases value with
      | string text =>
          cases hfit
          exact htext hsound hliteral
      | int text =>
          cases hfit
          exact htext (Sdl.IsNumberText.plain hsound) hliteral
      | _ => exact nomatch hfit
  · rw [fitScalar_own hown] at hfit
    exact isPlainAt_own hshape hown hsound hfit hbase hliteral

/-- The literal of a constant that a literal of one token stands for. -/
theorem isPlainAt_of_fitPlain [Runtime] (hsound : value.IsConstant)
    (hfit : fitPlain type value = some constant)
    (hbase : ref.base = type.name) (hliteral : literal schema settled ref constant = .ok w) :
    IsPlainAt type w := by
  cases hshape : type.shape with
  | scalar specification =>
      rw [fitPlain_scalar hshape] at hfit
      exact isPlainAt_scalar hshape hsound hfit hbase hliteral
  | enum values =>
      have hagain := hfit
      unfold fitPlain at hfit
      rw [hshape] at hfit
      cases value with
      | enum name =>
          dsimp only at hfit
          split_ifs at hfit
          cases hfit
          rw [literal, Except.ok.injEq] at hliteral
          subst hliteral
          exact isPlainAt_of_same rfl hsound rfl hagain (fun _ _ _ _ => rfl) rfl
      | _ => contradiction
  | _ =>
      unfold fitPlain at hfit
      rw [hshape] at hfit
      contradiction

end

end Schema

end ConfigSchema
