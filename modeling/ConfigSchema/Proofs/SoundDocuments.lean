import ConfigSchema.Proofs.ClosedSelections
import ConfigSchema.Proofs.DocumentSchemas
import ConfigSchema.Proofs.SoundSchemas

/-!
# Sound documents

Whatever is read from a text has names of the language where it has names, references that can be
written, and values that are made of tokens of the language.  This is shown for the readers one
by one, each from the tokens that it is given.  That no string holds a lone surrogate has to be
said of the text.
-/

namespace ConfigSchema

namespace Sdl

/-! ## Tokens -/

/-- A token as the language has it, with no lone surrogate in a string. -/
def Token.IsSound [Runtime] : Token → Prop
  | .name text => Introspection.isName text = true
  | .int text => IsNumberText text (.int text)
  | .string literal => Text.hasSurrogate literal.value = false
  | _ => True

/-- No string among some tokens holds a lone surrogate. -/
def HavePlainStrings [Runtime] (tokens : List Token) : Prop :=
  ∀ literal, .string literal ∈ tokens → Text.hasSurrogate literal.value = false

namespace Lexer

variable {s rest : List Char}

theorem wholePart_leading {found : List Char} (hread : wholePart s = some (found, rest)) :
    1 < found.length → found.head? ≠ some '0' := by
  unfold wholePart at hread
  split at hread
  · next digits behind _ =>
      split_ifs at hread with hzero
      cases hread
      exact fun hlength hhead => hzero ⟨hlength, hhead⟩
  · contradiction

theorem wholePart_digits {found : List Char} (hread : wholePart s = some (found, rest)) :
    found ≠ [] ∧ ∀ c ∈ found, isDigit c = true := by
  unfold wholePart at hread
  split at hread
  · next digits behind hdigits =>
      split_ifs at hread
      cases hread
      exact (digits_spec hdigits).2
  · contradiction

theorem isNumberText_of_unsignedNumber {sign : List Char} (isNegative : Bool)
    (hsign : sign = if isNegative then ['-'] else []) {text : String}
    (hread : unsignedNumber sign s = some (.int text, rest)) : IsNumberText text (.int text) := by
  simp only [unsignedNumber, Option.bind_eq_bind, Option.bind_eq_some_iff, Prod.exists] at hread
  obtain ⟨whole, _, hwhole, fraction, _, -, exponent, _, -, hread⟩ := hread
  split_ifs at hread with hextends hempty
  · rw [Bool.and_eq_true, List.isEmpty_iff, List.isEmpty_iff] at hempty
    obtain ⟨rfl, rfl⟩ := hempty
    obtain ⟨hne, hdigits⟩ := wholePart_digits hwhole
    let n : Numeral := { isNegative, whole }
    have hproper : n.IsProper := ⟨hdigits, hne, wholePart_leading hwhole, by simp [n], by simp [n]⟩
    have htext : n.text = text := by
      simp only [Option.some.injEq, Prod.mk.injEq, Token.int.injEq, List.append_nil] at hread
      rw [← hread.1, hsign]
      simp [n, Numeral.text, Numeral.sign, Numeral.fractionPart, Numeral.exponentPart]
    have htoken : n.token = .int n.text := rfl
    exact ⟨n, hproper, htext, htoken.trans (congrArg Token.int htext)⟩
  · cases hread

theorem isNumberText_of_number {text : String} (hread : number s = some (.int text, rest)) :
    IsNumberText text (.int text) := by
  unfold number at hread
  split at hread
  · exact isNumberText_of_unsignedNumber true rfl hread
  · exact isNumberText_of_unsignedNumber false rfl hread

theorem ne_name_of_number {t : Token} (hread : number s = some (t, rest)) (text : String) :
    t ≠ .name text := by
  unfold number at hread
  split at hread <;>
  · simp only [unsignedNumber, Option.bind_eq_bind, Option.bind_eq_some_iff, Prod.exists] at hread
    obtain ⟨_, _, _, _, _, _, _, _, _, hread⟩ := hread
    split_ifs at hread <;> cases hread <;> simp

/-- What is read as a token is sound, but for the text of a string. -/
theorem isSound_of_token [Runtime] {t : Token} (hread : token s = some (t, rest))
    (hplain : ∀ literal, t = .string literal → Text.hasSurrogate literal.value = false) :
    t.IsSound := by
  unfold token at hread
  split at hread
  · contradiction
  · cases hread
    trivial
  · next behind =>
      unfold string at hread
      split at hread <;>
      · obtain ⟨⟨_, _⟩, -, heq⟩ := Option.map_eq_some_iff.1 hread
        cases heq
        exact hplain _ rfl
  · next c behind _ _ =>
      split_ifs at hread with hmark hname hdigit
      · cases hread
        trivial
      · cases hread
        change Introspection.isName _ = true
        rw [Introspection.isName, String.toList_ofList]
        dsimp only
        rw [hname, Bool.true_and]
        exact List.all_takeWhile
      · cases t with
        | name text => exact absurd rfl (ne_name_of_number hread text)
        | int text => exact isNumberText_of_number hread
        | string literal => exact hplain literal rfl
        | _ => trivial

theorem isSound_of_tokensFrom [Runtime] {found tokens : List Token}
    (hread : tokensFrom found s = some tokens)
    (hplain : HavePlainStrings tokens) (hfound : ∀ t ∈ found, t.IsSound) :
    ∀ t ∈ tokens, t.IsSound := by
  have hkept : ∀ {found : List Token} {s : List Char}, tokensFrom found s = some tokens →
      ∀ t ∈ found, t ∈ tokens := by
    intro found s hread t ht
    obtain ⟨later, rfl, -⟩ := written_of_tokensFrom hread
    exact List.mem_append_left _ (List.mem_reverse.2 ht)
  fun_induction tokensFrom found s with
  | case1 found =>
      cases hread
      exact fun t ht => hfound t (List.mem_reverse.1 ht)
  | case2 found c rest _ ih => exact ih hread hfound
  | case3 found rest _ ih => exact ih hread hfound
  | case4 found c rest _ _ t tail htoken ih =>
      refine ih hread (List.forall_mem_cons.2 ⟨isSound_of_token htoken ?_, hfound⟩)
      rintro literal rfl
      exact hplain literal (hkept hread _ List.mem_cons_self)
  | case5 => contradiction

end Lexer

/-! ## Documents -/

/-- No lone surrogate stands in a text that may be there. -/
def HasPlainText [Runtime] (text : Option Literal) : Prop :=
  ∀ literal ∈ text, Text.hasSurrogate literal.value = false

mutual

/-- Whether a value has no variables and is made of sound tokens. -/
def Value.IsConstant [Runtime] : Value → Prop
  | .variable _ => False
  | .int text => IsNumberText text (.int text)
  | .string literal => Text.hasSurrogate literal.value = false
  | .enum name => Introspection.isName name = true ∧ name ∉ valueWords
  | .list items => AreConstant items
  | .object fields => AreConstantFields fields
  | _ => True

def AreConstant [Runtime] : List Value → Prop
  | [] => True
  | v :: rest => v.IsConstant ∧ AreConstant rest

def AreConstantFields [Runtime] : List (String × Value) → Prop
  | [] => True
  | (name, v) :: rest => Introspection.isName name = true ∧ v.IsConstant ∧ AreConstantFields rest

end

theorem areConstant_iff [Runtime] {items : List Value} : AreConstant items ↔ ∀ v ∈ items,
    v.IsConstant := by
  induction items with
  | nil => simp [AreConstant]
  | cons v rest ih => rw [AreConstant, ih, List.forall_mem_cons]

theorem areConstantFields_iff [Runtime] {fields : List (String × Value)} :
    AreConstantFields fields ↔
      ∀ field ∈ fields, Introspection.isName field.1 = true ∧ field.2.IsConstant := by
  induction fields with
  | nil => simp [AreConstantFields]
  | cons field rest ih => rw [AreConstantFields, ih, List.forall_mem_cons, and_assoc]

def AreSoundDirectives [Runtime] (directives : List Directive) : Prop :=
  ∀ d ∈ directives, AreConstantFields d.arguments

structure InputValue.IsSound [Runtime] (input : InputValue) : Prop where
  description : HasPlainText input.description
  name : Introspection.isName input.name = true
  type : input.type.IsWritable
  default : ∀ v ∈ input.default, v.IsConstant
  directives : AreSoundDirectives input.directives

structure FieldDefinition.IsSound [Runtime] (field : FieldDefinition) : Prop where
  description : HasPlainText field.description
  name : Introspection.isName field.name = true
  arguments : ∀ input ∈ field.arguments, input.IsSound
  type : field.type.IsWritable
  directives : AreSoundDirectives field.directives

structure EnumValueDefinition.IsSound [Runtime] (value : EnumValueDefinition) : Prop where
  description : HasPlainText value.description
  name : Introspection.isName value.name = true
  word : value.name ∉ valueWords
  directives : AreSoundDirectives value.directives

structure TypeBody.IsSound [Runtime] (body : TypeBody) : Prop where
  fields : ∀ field ∈ body.fields, field.IsSound
  values : ∀ value ∈ body.values, value.IsSound
  inputs : ∀ input ∈ body.inputs, input.IsSound

structure TypeNode.IsSound [Runtime] (node : TypeNode) : Prop where
  name : Introspection.isName node.name = true
  directives : AreSoundDirectives node.directives
  body : node.body.IsSound

structure DirectiveDefinition.IsSound [Runtime] (d : DirectiveDefinition) : Prop where
  description : HasPlainText d.description
  name : Introspection.isName d.name = true
  arguments : ∀ input ∈ d.arguments, input.IsSound
  locations : d.locations ≠ []

/-- Of requests nothing is said. -/
def Definition.IsSound [Runtime] : Definition → Prop
  | .schema description _ _ => HasPlainText description
  | .type description node => HasPlainText description ∧ node.IsSound
  | .directive d => d.IsSound
  | .typeExtension node => node.IsSound
  | _ => True

namespace Reader

variable {α β : Type} {reader : Reader α} {next : α → Reader β} {P : α → Prop} {Q : β → Prop}

/-- Whether a reader that is given sound tokens reads something with a property, and leaves sound
tokens. -/
def Yields [Runtime] (P : α → Prop) (reader : Reader α) : Prop :=
  ∀ tokens a rest, (∀ t ∈ tokens, t.IsSound) → reader tokens = some (a, rest) →
    P a ∧ ∀ t ∈ rest, t.IsSound

/-! ## Readers put together -/

theorem Yields.bind [Runtime] (hfirst : Yields P reader) (hnext : ∀ a, P a → Yields Q (next a)) :
    Yields Q (reader >>= next) := by
  intro tokens b rest hsound hread
  obtain ⟨a, behind, hreader, hbehind⟩ := bind_eq_some_iff.1 hread
  obtain ⟨ha, hleft⟩ := hfirst tokens a behind hsound hreader
  exact hnext a ha behind b rest hleft hbehind

theorem yields_pure [Runtime] {a : α} (ha : P a) : Yields P (pure a : Reader α) := by
  intro tokens b rest hsound hread
  obtain ⟨rfl, rfl⟩ := pure_eq_some_iff.1 hread
  exact ⟨ha, hsound⟩

theorem Yields.map [Runtime] {f : α → β} (hreader : Yields P reader) (hf : ∀ a, P a → Q (f a)) :
    Yields Q (f <$> reader) := by
  intro tokens b rest hsound hread
  obtain ⟨a, hreader', rfl⟩ := map_eq_some_iff.1 hread
  exact (hreader tokens a rest hsound hreader').imp (hf a) id

theorem Yields.ite [Runtime] {condition : Prop} [Decidable condition] {other : Reader α}
    (hreader : condition → Yields P reader) (hother : ¬condition → Yields P other) :
    Yields P (if condition then reader else other) := by
  split
  · next h => exact hreader h
  · next h => exact hother h

theorem yields_fails [Runtime] : Yields P (fails : Reader α) := by
  intro tokens a rest _ hread
  contradiction

/-- What is left of sound tokens is sound. -/
theorem Takes.yields [Runtime] {R : List Token → Prop} (htakes : Takes R reader) :
    Yields (fun _ => True) reader := by
  intro tokens a rest hsound hread
  obtain ⟨taken, rfl, -⟩ := htakes tokens a rest hread
  exact ⟨trivial, fun t ht => hsound t (List.mem_append_right _ ht)⟩

/-! ## Single tokens -/

theorem yields_name [Runtime] : Yields (fun name => Introspection.isName name = true) name := by
  intro tokens text rest hsound hread
  obtain rfl := name_eq_some_iff.1 hread
  rw [List.forall_mem_cons] at hsound
  exact hsound

theorem yields_description [Runtime] : Yields HasPlainText description := by
  intro tokens found rest hsound hread
  unfold description at hread
  split at hread <;> obtain ⟨rfl, rfl⟩ := Prod.mk.inj (Option.some.inj hread)
  · rw [List.forall_mem_cons] at hsound
    refine ⟨?_, hsound.2⟩
    rintro _ ⟨⟩
    exact hsound.1
  · exact ⟨by simp [HasPlainText], hsound⟩

theorem isConstant_namedValue [Runtime] {name : String} (hname : Introspection.isName name = true) :
    (namedValue name).IsConstant := by
  unfold namedValue
  split
  · trivial
  · trivial
  · trivial
  · exact ⟨hname, by simp_all [valueWords]⟩

theorem yields_plainValue [Runtime] : Yields Value.IsConstant (plainValue true) := by
  intro tokens found rest hsound hread
  unfold plainValue at hread
  split at hread
  · obtain ⟨rfl, rfl⟩ := Prod.mk.inj (Option.some.inj hread)
    exact List.forall_mem_cons.1 hsound
  · obtain ⟨rfl, rfl⟩ := Prod.mk.inj (Option.some.inj hread)
    exact ⟨trivial, (List.forall_mem_cons.1 hsound).2⟩
  · obtain ⟨rfl, rfl⟩ := Prod.mk.inj (Option.some.inj hread)
    exact List.forall_mem_cons.1 hsound
  · obtain ⟨rfl, rfl⟩ := Prod.mk.inj (Option.some.inj hread)
    exact (List.forall_mem_cons.1 hsound).imp isConstant_namedValue id
  · contradiction
  · contradiction

/-! ## Repetition -/

theorem yields_itemsUpTo [Runtime] {close : Token} (hclose : close ≠ .spread)
    (hitem : Yields P reader)
    (fuel : Nat) : Yields (fun items => ∀ a ∈ items, P a) (itemsUpTo close reader fuel) := by
  induction fuel with
  | zero => exact yields_fails
  | succ fuel ih =>
      exact (takes_skip? hclose).yields.bind fun _ _ => .ite (fun _ => yields_pure (by simp))
        fun _ => hitem.bind fun _ ha => ih.bind fun _ hrest =>
          yields_pure (List.forall_mem_cons.2 ⟨ha, hrest⟩)

variable {opening closing separator : Char}

theorem yields_anyBetween [Runtime] (hitem : Yields P reader) :
    Yields (fun items => ∀ a ∈ items, P a) (anyBetween opening closing reader) :=
  (takes_mark opening).yields.bind fun _ _ => takes_remaining.yields.bind fun _ _ =>
    yields_itemsUpTo (by simp) hitem _

theorem yields_someBetween [Runtime] (hitem : Yields P reader) :
    Yields (fun items => ∀ a ∈ items, P a) (someBetween opening closing reader) :=
  (takes_mark opening).yields.bind fun _ _ => hitem.bind fun _ ha =>
    takes_remaining.yields.bind fun _ _ => (yields_itemsUpTo (by simp) hitem _).bind
      fun _ hrest => yields_pure (List.forall_mem_cons.2 ⟨ha, hrest⟩)

theorem yields_optionalBetween [Runtime] (hitem : Yields P reader) :
    Yields (fun items => ∀ a ∈ items, P a) (optionalBetween opening closing reader) :=
  (takes_sees _).yields.bind fun _ _ =>
    .ite (fun _ => yields_someBetween hitem) fun _ => yields_pure (by simp)

theorem yields_separated [Runtime] {R : List Token → Prop} (hitem : Takes R reader) :
    Yields (fun items => items ≠ []) (separated separator reader) := by
  have hitems : ∀ fuel, Yields (fun _ => True) (itemsAfter separator reader fuel) := by
    intro fuel
    induction fuel with
    | zero => exact yields_fails
    | succ fuel ih =>
        exact (takes_mark? separator).yields.bind fun _ _ =>
          .ite (fun _ => hitem.yields.bind fun _ _ => ih.bind fun _ _ => yields_pure trivial)
            fun _ => yields_pure trivial
  exact (takes_mark? separator).yields.bind fun _ _ => hitem.yields.bind fun _ _ =>
    takes_remaining.yields.bind fun _ _ => (hitems _).bind fun _ _ =>
      yields_pure (List.cons_ne_nil _ _)

/-! ## Values and types -/

theorem yields_value [Runtime] (room : Nat) : Yields Value.IsConstant (value true room) := by
  induction room with
  | zero => exact yields_plainValue
  | succ room ih =>
      refine (takes_sees _).yields.bind fun _ _ => .ite (fun _ => ?_) fun _ =>
        (takes_sees _).yields.bind fun _ _ => .ite (fun _ => ?_) fun _ => yields_plainValue
      · exact (yields_anyBetween ih).bind fun _ hitems => yields_pure (areConstant_iff.2 hitems)
      · exact (yields_anyBetween (yields_name.bind fun _ hname => (takes_mark ':').yields.bind
          fun _ _ => ih.bind fun _ hv => yields_pure (P := fun field : String × Value =>
            Introspection.isName field.1 = true ∧ field.2.IsConstant) ⟨hname, hv⟩)).bind
              fun _ hfields => yields_pure (areConstantFields_iff.2 hfields)

theorem yields_typeRef [Runtime] : Yields TypeRef.IsWritable typeRef := by
  intro tokens ref rest hsound hread
  obtain ⟨-, hproper, hdepth, -⟩ := (typeRefWithin_eq_some_iff Runtime.parsingDepth).1 hread
  exact ⟨⟨hproper, hdepth⟩, (takes_typeRef.yields tokens ref rest hsound hread).2⟩

theorem yields_arguments [Runtime] :
    Yields AreConstantFields (arguments true Runtime.parsingDepth) := by
  intro tokens found rest hsound hread
  refine ((yields_optionalBetween (yields_name.bind fun _ hname => (takes_mark ':').yields.bind
    fun _ _ => (yields_value Runtime.parsingDepth).bind fun _ hv => yields_pure
      (P := fun field : String × Value =>
        Introspection.isName field.1 = true ∧ field.2.IsConstant) ⟨hname, hv⟩))
    tokens found rest hsound hread).imp (fun hfields => areConstantFields_iff.2 hfields) id

theorem yields_directives [Runtime] : Yields AreSoundDirectives
    (directives true Runtime.parsingDepth) := by
  have hfrom :
      ∀ fuel, Yields AreSoundDirectives (directivesFrom true Runtime.parsingDepth fuel) := by
    intro fuel
    induction fuel with
    | zero => exact yields_fails
    | succ fuel ih =>
        exact (takes_mark? '@').yields.bind fun _ _ =>
          .ite (fun _ => takes_name.yields.bind fun _ _ => yields_arguments.bind fun _ harguments =>
            ih.bind fun _ hrest => yields_pure (List.forall_mem_cons.2 ⟨harguments, hrest⟩))
            fun _ => yields_pure (by simp [AreSoundDirectives])
  exact takes_remaining.yields.bind fun _ _ => hfrom _

theorem yields_defaultValue [Runtime] :
    Yields (fun default : Option Value => ∀ v ∈ default, v.IsConstant) defaultValue :=
  (takes_mark? '=').yields.bind fun _ _ =>
    .ite (fun _ => (yields_value Runtime.parsingDepth).map
        fun _ hv _ hmem => Option.mem_some.1 hmem ▸ hv)
      fun _ => yields_pure (by simp)

/-! ## Parts of type definitions -/

theorem yields_inputValue [Runtime] : Yields InputValue.IsSound inputValue :=
  yields_description.bind fun _ hdescription => yields_name.bind fun _ hname =>
    (takes_mark ':').yields.bind fun _ _ => yields_typeRef.bind fun _ htype =>
      yields_defaultValue.bind fun _ hdefault => yields_directives.bind fun _ hdirectives =>
        yields_pure ⟨hdescription, hname, htype, hdefault, hdirectives⟩

theorem yields_field [Runtime] : Yields FieldDefinition.IsSound field :=
  yields_description.bind fun _ hdescription => yields_name.bind fun _ hname =>
    (yields_optionalBetween yields_inputValue).bind fun _ harguments =>
      (takes_mark ':').yields.bind fun _ _ => yields_typeRef.bind fun _ htype =>
        yields_directives.bind fun _ hdirectives =>
          yields_pure ⟨hdescription, hname, harguments, htype, hdirectives⟩

theorem yields_enumValue [Runtime] : Yields EnumValueDefinition.IsSound enumValue :=
  yields_description.bind fun _ hdescription => yields_name.bind fun _ hname =>
    .ite (fun _ => yields_fails) fun hword => yields_directives.bind fun _ hdirectives =>
      yields_pure ⟨hdescription, hname, by simpa [valueWords] using hword, hdirectives⟩

theorem yields_typeNode [Runtime] (keyword : String) : Yields TypeNode.IsSound (typeNode keyword) :=
    by
  refine yields_name.bind fun name hname => ?_
  split
  · exact yields_directives.bind fun _ hdirectives => yields_pure
      ⟨hname, hdirectives, by simp [TypeBody.fields], by simp [TypeBody.values],
        by simp [TypeBody.inputs]⟩
  · exact takes_interfaces.yields.bind fun _ _ => yields_directives.bind fun _ hdirectives =>
      (yields_optionalBetween yields_field).bind fun _ hfields => yields_pure
        ⟨hname, hdirectives, hfields, by simp [TypeBody.values], by simp [TypeBody.inputs]⟩
  · exact takes_interfaces.yields.bind fun _ _ => yields_directives.bind fun _ hdirectives =>
      (yields_optionalBetween yields_field).bind fun _ hfields => yields_pure
        ⟨hname, hdirectives, hfields, by simp [TypeBody.values], by simp [TypeBody.inputs]⟩
  · exact yields_directives.bind fun _ hdirectives => takes_members.yields.bind fun _ _ =>
      yields_pure ⟨hname, hdirectives, by simp [TypeBody.fields], by simp [TypeBody.values],
        by simp [TypeBody.inputs]⟩
  · exact yields_directives.bind fun _ hdirectives =>
      (yields_optionalBetween yields_enumValue).bind fun _ hvalues => yields_pure
        ⟨hname, hdirectives, by simp [TypeBody.fields], hvalues, by simp [TypeBody.inputs]⟩
  · exact yields_directives.bind fun _ hdirectives =>
      (yields_optionalBetween yields_inputValue).bind fun _ hinputs => yields_pure
        ⟨hname, hdirectives, by simp [TypeBody.fields], by simp [TypeBody.values], hinputs⟩
  · exact yields_fails

theorem yields_directiveDefinition [Runtime] {description : Option Literal}
    (hdescription : HasPlainText description) :
    Yields DirectiveDefinition.IsSound (directiveDefinition description) :=
  (takes_mark '@').yields.bind fun _ _ => yields_name.bind fun _ hname =>
    (yields_optionalBetween yields_inputValue).bind fun _ harguments =>
      (takes_keyword? "repeatable").yields.bind fun _ _ => (takes_keyword "on").yields.bind
        fun _ _ => (yields_separated takes_location).bind fun _ hlocations =>
          yields_pure ⟨hdescription, hname, harguments, hlocations⟩

/-! ## Definitions -/

theorem yields_extension [Runtime] : Yields Definition.IsSound extension :=
  takes_name.yields.bind fun word _ => .ite
    (fun _ => takes_directives true Runtime.parsingDepth |>.yields.bind fun _ _ =>
      (takes_optionalBetween takes_operationTypeDefinition).yields.bind fun _ _ =>
        .ite (fun _ => yields_fails) fun _ => yields_pure trivial)
    fun _ => (yields_typeNode word).bind fun _ hnode =>
      .ite (fun _ => yields_pure hnode) fun _ => yields_fails

theorem yields_described [Runtime] {description : Option Literal}
    (hdescription : HasPlainText description)
    (word : String) : Yields Definition.IsSound (described description word) := by
  unfold described
  split
  · exact (takes_directives true Runtime.parsingDepth).yields.bind fun _ _ =>
      (takes_someBetween takes_operationTypeDefinition).yields.bind fun _ _ =>
        yields_pure hdescription
  · exact (yields_directiveDefinition hdescription).bind fun _ hd => yields_pure hd
  · exact (yields_typeNode _).bind fun _ hnode => yields_pure ⟨hdescription, hnode⟩

theorem yields_executable [Runtime] (word : String) : Yields Definition.IsSound (executable word) :=
  .ite (fun _ => takes_fragment.yields.bind fun _ _ => yields_pure trivial)
    fun _ => takes_operation.yields.bind fun _ _ => yields_pure trivial

theorem yields_definition [Runtime] : Yields Definition.IsSound definition := by
  refine yields_description.bind fun description hdescription =>
    takes_get.yields.bind fun tokens _ => ?_
  split
  · next word _ =>
      exact .ite (fun _ => (takes_keyword word).yields.bind fun _ _ =>
        yields_described hdescription word) fun _ =>
          .ite (fun _ => .ite (fun _ => yields_fails) fun _ =>
            (takes_keyword "extend").yields.bind fun _ _ => yields_extension)
          fun _ => yields_executable word
  · exact .ite (fun _ => yields_fails) fun _ =>
      takes_operation.yields.bind fun _ _ => yields_pure trivial
  · exact yields_fails

theorem yields_definitions [Runtime] (fuel : Nat) :
    Yields (fun document => ∀ definition ∈ document, definition.IsSound) (definitions fuel) := by
  induction fuel with
  | zero => exact yields_fails
  | succ fuel ih =>
      exact takes_remaining.yields.bind fun _ _ => .ite (fun _ => yields_pure (by simp))
        fun _ => yields_definition.bind fun _ hfirst => ih.bind fun _ hrest =>
          yields_pure (List.forall_mem_cons.2 ⟨hfirst, hrest⟩)

end Reader

/-- All definitions of a document are sound that is read from a text without lone surrogates. -/
theorem isSound_of_parse? [Runtime] {source : String} {document : Document} {tokens : List Token}
    (hparse : parse? source = some document) (htokens : tokens? source = some tokens)
    (hplain : HavePlainStrings tokens) : ∀ definition ∈ document, definition.IsSound := by
  have hread : Lexer.tokensFrom [] source.toList = some tokens := by
    rw [tokens?] at htokens
    split_ifs at htokens
    exact htokens
  have hsound := Lexer.isSound_of_tokensFrom hread hplain (by simp)
  rw [parse?, htokens] at hparse
  simp only [Option.bind_eq_bind, Option.bind_some] at hparse
  split at hparse
  · contradiction
  · next found rest _ hdefinitions =>
      cases hparse
      exact (Reader.yields_definitions _ _ _ _ hsound hdefinitions).1
  · contradiction

end Sdl

end ConfigSchema
