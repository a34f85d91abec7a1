import ConfigSchema.Proofs.TokenReading

/-!
# Selections are closed

The three points of a spread stand in selections only, and selections stand in braces.  So of the
tokens that a reader takes no spread is without a closing brace behind it; every reader is put
together of others for which this holds.
-/

namespace ConfigSchema

namespace Sdl

/-- Whether a closing brace stands somewhere behind every spread. -/
def AreClosed (tokens : List Token) : Prop :=
  ∀ before after, tokens = before ++ .spread :: after → .mark '\x7d' ∈ after

theorem areClosed_nil : AreClosed [] := by
  intro before after hsplit
  simp at hsplit

theorem areClosed_singleton {token : Token} (htoken : token ≠ .spread) : AreClosed [token] := by
  intro before after hsplit
  rcases List.singleton_eq_append_iff.1 hsplit with ⟨-, hspread⟩ | ⟨-, hnil⟩
  · exact absurd (List.cons.inj hspread).1.symm htoken
  · contradiction

theorem AreClosed.append {tokens others : List Token} (htokens : AreClosed tokens)
    (hothers : AreClosed others) : AreClosed (tokens ++ others) := by
  intro before after hsplit
  rcases List.append_eq_append_iff.1 hsplit with ⟨more, -, hmore⟩ | ⟨more, hfront, hmore⟩
  · exact hothers more after hmore
  · cases more with
    | nil => exact hothers [] after hmore.symm
    | cons first more =>
        obtain ⟨rfl, rfl⟩ := List.cons.inj hmore
        exact List.mem_append_left _ (htokens before more hfront)

/-- Whether a closing brace stands at the end. -/
def EndsClosed (tokens : List Token) : Prop :=
  ∃ inner, tokens = inner ++ [.mark '\x7d']

/-- A closing brace at the end closes all that stands in front of it. -/
theorem EndsClosed.areClosed {tokens : List Token} (htokens : EndsClosed tokens) :
    AreClosed tokens := by
  obtain ⟨inner, rfl⟩ := htokens
  intro before after hsplit
  rcases List.append_eq_append_iff.1 hsplit with ⟨more, -, hmore⟩ | ⟨more, -, hmore⟩
  · exact absurd hmore (by cases more <;> simp)
  · cases more with
    | nil => simp at hmore
    | cons first more =>
        obtain ⟨-, rfl⟩ := List.cons.inj hmore
        simp

namespace Reader

variable {α β : Type} {reader : Reader α} {next : α → Reader β} {P Q R : List Token → Prop}

/-- Whether the tokens that a reader takes have a property whenever it succeeds. -/
def Takes (P : List Token → Prop) (reader : Reader α) : Prop :=
  ∀ tokens a rest, reader tokens = some (a, rest) → ∃ taken, tokens = taken ++ rest ∧ P taken

/-! ## Readers put together -/

theorem Takes.mono (htakes : Takes P reader) (hsub : ∀ taken, P taken → Q taken) :
    Takes Q reader := by
  intro tokens a rest hread
  obtain ⟨taken, htokens, htaken⟩ := htakes tokens a rest hread
  exact ⟨taken, htokens, hsub taken htaken⟩

theorem Takes.join (hjoin : ∀ {first second}, P first → Q second → R (first ++ second))
    (hfirst : Takes P reader) (hnext : ∀ a, Takes Q (next a)) : Takes R (reader >>= next) := by
  intro tokens b rest hread
  obtain ⟨a, behind, hreader, hbehind⟩ := bind_eq_some_iff.1 hread
  obtain ⟨first, rfl, hP⟩ := hfirst tokens a behind hreader
  obtain ⟨second, rfl, hQ⟩ := hnext a behind b rest hbehind
  exact ⟨first ++ second, (List.append_assoc first second rest).symm, hjoin hP hQ⟩

theorem Takes.bind (hfirst : Takes AreClosed reader) (hnext : ∀ a, Takes AreClosed (next a)) :
    Takes AreClosed (reader >>= next) :=
  hfirst.join AreClosed.append hnext

theorem takes_nothing {a : α} : Takes (· = []) (pure a : Reader α) := by
  intro tokens b rest hread
  obtain ⟨-, rfl⟩ := pure_eq_some_iff.1 hread
  exact ⟨[], rfl, rfl⟩

theorem takes_pure {a : α} : Takes AreClosed (pure a : Reader α) :=
  takes_nothing.mono fun _ htaken => htaken ▸ areClosed_nil

/-- What is taken last decides how it ends. -/
theorem Takes.before (hfirst : Takes P reader) (hnext : ∀ a, Takes EndsClosed (next a)) :
    Takes EndsClosed (reader >>= next) := by
  refine hfirst.join ?_ hnext
  rintro first _ - ⟨inner, rfl⟩
  exact ⟨first ++ inner, (List.append_assoc first inner _).symm⟩

theorem Takes.returning (htakes : Takes P reader) {f : α → β} :
    Takes P (reader >>= fun a => pure (f a)) := by
  refine htakes.join ?_ fun _ => takes_nothing
  rintro taken _ htaken rfl
  rwa [List.append_nil]

theorem Takes.map {f : α → β} (htakes : Takes P reader) : Takes P (f <$> reader) := by
  intro tokens b rest hread
  obtain ⟨a, hreader, -⟩ := map_eq_some_iff.1 hread
  exact htakes tokens a rest hreader

theorem Takes.ite {condition : Prop} [Decidable condition] {other : Reader α}
    (hreader : Takes P reader) (hother : Takes P other) :
    Takes P (if condition then reader else other) := by
  split
  · exact hreader
  · exact hother

theorem takes_fails : Takes P (fails : Reader α) := by
  intro tokens a rest hread
  contradiction

/-! ## Single tokens -/

theorem takes_looking {look : List Token → α} :
    Takes AreClosed (fun tokens => some (look tokens, tokens) : Reader α) := by
  intro tokens a rest hread
  obtain ⟨-, rfl⟩ := Prod.mk.inj (Option.some.inj hread)
  exact ⟨[], rfl, areClosed_nil⟩

theorem takes_sees (token : Token) : Takes AreClosed (sees token) := takes_looking

theorem takes_remaining : Takes AreClosed remaining := takes_looking

theorem takes_get : Takes AreClosed (get : Reader (List Token)) := takes_looking

theorem takes_one {token : Token} {rest : List Token} (htoken : token ≠ .spread) :
    ∃ taken, token :: rest = taken ++ rest ∧ AreClosed taken :=
  ⟨[token], rfl, areClosed_singleton htoken⟩

theorem takes_none {rest : List Token} : ∃ taken, rest = taken ++ rest ∧ AreClosed taken :=
  ⟨[], rfl, areClosed_nil⟩

theorem takes_atMost (token : Token) :
    Takes (fun taken => taken = [token] ∨ taken = []) (skip? token) := by
  intro tokens found rest hread
  rcases skip?_eq_some_iff.1 hread with ⟨-, rfl⟩ | ⟨-, rfl, -⟩
  · exact ⟨[token], rfl, .inl rfl⟩
  · exact ⟨[], rfl, .inr rfl⟩

theorem takes_skip? {token : Token} (htoken : token ≠ .spread) : Takes AreClosed (skip? token) := by
  refine (takes_atMost token).mono ?_
  rintro _ (rfl | rfl)
  · exact areClosed_singleton htoken
  · exact areClosed_nil

theorem takes_mark? (c : Char) : Takes AreClosed (skip? (.mark c)) :=
  takes_skip? (by simp)

theorem takes_keyword? (text : String) : Takes AreClosed (keyword? text) :=
  takes_skip? (by simp)

theorem takes_skip {token : Token} (htoken : token ≠ .spread) : Takes AreClosed (skip token) := by
  intro tokens done rest hread
  obtain rfl := skip_eq_some_iff.1 hread
  exact takes_one htoken

theorem takes_mark (c : Char) : Takes AreClosed (skip (.mark c)) :=
  takes_skip (by simp)

theorem takes_keyword (text : String) : Takes AreClosed (keyword text) :=
  takes_skip (by simp)

theorem takes_name : Takes AreClosed name := by
  intro tokens text rest hread
  obtain rfl := name_eq_some_iff.1 hread
  exact takes_one (by simp)

theorem takes_description : Takes AreClosed description := by
  intro tokens found rest hread
  unfold description at hread
  split at hread
  · obtain ⟨-, rfl⟩ := Prod.mk.inj (Option.some.inj hread)
    exact takes_one (by simp)
  · obtain ⟨-, rfl⟩ := Prod.mk.inj (Option.some.inj hread)
    exact takes_none

theorem takes_plainValue (isConstant : Bool) : Takes AreClosed (plainValue isConstant) := by
  intro tokens found rest hread
  unfold plainValue at hread
  split at hread
  · obtain ⟨-, rfl⟩ := Prod.mk.inj (Option.some.inj hread)
    exact takes_one (by simp)
  · obtain ⟨-, rfl⟩ := Prod.mk.inj (Option.some.inj hread)
    exact takes_one (by simp)
  · obtain ⟨-, rfl⟩ := Prod.mk.inj (Option.some.inj hread)
    exact takes_one (by simp)
  · obtain ⟨-, rfl⟩ := Prod.mk.inj (Option.some.inj hread)
    exact takes_one (by simp)
  · next text later =>
      split at hread
      · contradiction
      · obtain ⟨-, rfl⟩ := Prod.mk.inj (Option.some.inj hread)
        exact ⟨[.mark '$'] ++ [.name text], rfl,
          (areClosed_singleton (by simp)).append (areClosed_singleton (by simp))⟩
  · contradiction

/-! ## Repetition -/

theorem takes_itemsUpTo {close : Token} {item : Reader α} (hclose : close ≠ .spread)
    (hitem : Takes AreClosed item) (fuel : Nat) : Takes AreClosed (itemsUpTo close item fuel) := by
  induction fuel with
  | zero => exact takes_fails
  | succ fuel ih =>
      exact (takes_skip? hclose).bind fun _ =>
        .ite takes_pure (hitem.bind fun _ => ih.returning)

theorem takes_anyBetween {opening closing : Char} {item : Reader α} (hitem : Takes AreClosed item) :
    Takes AreClosed (anyBetween opening closing item) :=
  (takes_mark opening).bind fun _ => takes_remaining.bind fun _ =>
    takes_itemsUpTo (by simp) hitem _

theorem takes_someBetween {opening closing : Char} {item : Reader α}
    (hitem : Takes AreClosed item) : Takes AreClosed (someBetween opening closing item) :=
  (takes_mark opening).bind fun _ => hitem.bind fun _ => takes_remaining.bind fun _ =>
    (takes_itemsUpTo (by simp) hitem _).returning

theorem takes_optionalBetween {opening closing : Char} {item : Reader α}
    (hitem : Takes AreClosed item) : Takes AreClosed (optionalBetween opening closing item) :=
  (takes_sees _).bind fun _ => .ite (takes_someBetween hitem) takes_pure

theorem takes_itemsAfter {separator : Char} {item : Reader α} (hitem : Takes AreClosed item)
    (fuel : Nat) : Takes AreClosed (itemsAfter separator item fuel) := by
  induction fuel with
  | zero => exact takes_fails
  | succ fuel ih =>
      exact (takes_mark? separator).bind fun _ =>
        .ite (hitem.bind fun _ => ih.returning) takes_pure

theorem takes_separated {separator : Char} {item : Reader α} (hitem : Takes AreClosed item) :
    Takes AreClosed (separated separator item) :=
  (takes_mark? separator).bind fun _ => hitem.bind fun _ => takes_remaining.bind fun _ =>
    (takes_itemsAfter hitem _).returning

theorem takes_itemsUpTo_brace {item : Reader α} (hitem : Takes P item) (fuel : Nat) :
    Takes EndsClosed (itemsUpTo (.mark '\x7d') item fuel) := by
  induction fuel with
  | zero => exact takes_fails
  | succ fuel ih =>
      intro tokens found rest hread
      obtain ⟨isClosed, behind, hskip, hread⟩ := bind_eq_some_iff.1 hread
      rcases skip?_eq_some_iff.1 hskip with ⟨rfl, rfl⟩ | ⟨rfl, rfl, -⟩
      · obtain ⟨-, rfl⟩ := pure_eq_some_iff.1 hread
        exact ⟨[.mark '\x7d'], rfl, [], rfl⟩
      · exact (hitem.before fun _ => ih.returning) tokens found rest hread

/-- What stands between braces may be anything, for the last of them closes it. -/
theorem takes_someBetween_braces {item : Reader α} (hitem : Takes P item) :
    Takes AreClosed (someBetween '\x7b' '\x7d' item) := by
  have hends : Takes EndsClosed (someBetween '\x7b' '\x7d' item) :=
    (takes_mark _).before fun _ => hitem.before fun _ => takes_remaining.before fun _ =>
      (takes_itemsUpTo_brace hitem _).returning
  exact hends.mono fun _ => EndsClosed.areClosed

/-! ## Values and types -/

theorem takes_value (isConstant : Bool) (room : Nat) : Takes AreClosed (value isConstant room) := by
  induction room with
  | zero => exact takes_plainValue isConstant
  | succ room ih =>
      have hfield : Takes AreClosed (do
          let name ← name
          skip (.mark ':')
          return (name, ← value isConstant room)) :=
        takes_name.bind fun _ => (takes_mark ':').bind fun _ => ih.returning
      exact (takes_sees _).bind fun _ =>
        .ite ((takes_anyBetween ih).returning) <| (takes_sees _).bind fun _ =>
          .ite ((takes_anyBetween hfield).returning) (takes_plainValue isConstant)

theorem takes_withMark {inner : Reader TypeRef} (hinner : Takes AreClosed inner) :
    Takes AreClosed (typeRefWithin.withMark inner) :=
  hinner.bind fun _ => (takes_mark? '!').bind fun _ => .ite takes_pure takes_pure

theorem takes_typeRefWithin (room : Nat) : Takes AreClosed (typeRefWithin room) := by
  induction room with
  | zero => exact takes_withMark takes_name.map
  | succ room ih =>
      exact takes_withMark <| (takes_mark? '[').bind fun _ =>
        .ite (ih.bind fun _ => (takes_mark ']').returning) takes_name.map

theorem takes_typeRef [Runtime] : Takes AreClosed typeRef :=
  takes_typeRefWithin Runtime.parsingDepth

theorem takes_arguments (isConstant : Bool) (room : Nat) :
    Takes AreClosed (arguments isConstant room) :=
  takes_optionalBetween <| takes_name.bind fun _ => (takes_mark ':').bind fun _ =>
    (takes_value isConstant room).returning

theorem takes_directivesFrom (isConstant : Bool) (room fuel : Nat) :
    Takes AreClosed (directivesFrom isConstant room fuel) := by
  induction fuel with
  | zero => exact takes_fails
  | succ fuel ih =>
      exact (takes_mark? '@').bind fun _ =>
        .ite (takes_name.bind fun _ => (takes_arguments isConstant room).bind fun _ =>
          ih.returning) takes_pure

theorem takes_directives [Runtime] (isConstant : Bool) (room : Nat) :
    Takes AreClosed (directives isConstant room) :=
  takes_remaining.bind fun _ => takes_directivesFrom isConstant room _

/-! ## Operations and fragments -/

theorem takes_fragmentName : Takes AreClosed fragmentName :=
  takes_name.bind fun _ => .ite takes_fails takes_pure

theorem takes_fieldNames : Takes AreClosed fieldNames :=
  takes_name.bind fun _ => (takes_mark? ':').bind fun _ =>
    .ite (takes_name.returning) takes_pure

/-- The tokens of a selection itself may hold spreads that nothing closes yet. -/
theorem takes_selection [Runtime] {inner : Reader (List Selection)} (hinner : Takes AreClosed inner)
    (room : Nat) : Takes (fun _ => True) (selection inner room) := by
  have hdirectives := takes_directives false room
  refine (takes_atMost .spread).join (Q := AreClosed) (fun _ _ => trivial) fun _ => .ite ?_ ?_
  · refine (takes_keyword? "on").bind fun _ => .ite ?_ (takes_get.bind fun tokens => ?_)
    · exact takes_name.bind fun _ => hdirectives.bind fun _ => hinner.returning
    · split
      · exact takes_fragmentName.bind fun _ => hdirectives.returning
      · exact hdirectives.bind fun _ => hinner.returning
  · exact takes_fieldNames.bind fun _ => (takes_arguments false room).bind fun _ =>
      hdirectives.bind fun _ => (takes_sees _).bind fun _ => .ite hinner.returning takes_pure

theorem takes_selections [Runtime] : Takes AreClosed selections := by
  have hwithin : ∀ room, Takes AreClosed (selectionsWithin room) := by
    intro room
    induction room with
    | zero => exact takes_fails
    | succ room ih => exact takes_someBetween_braces (takes_selection ih room)
  exact hwithin Runtime.parsingDepth

theorem takes_defaultValue [Runtime] : Takes AreClosed defaultValue :=
  (takes_mark? '=').bind fun _ => .ite (takes_value true Runtime.parsingDepth).map takes_pure

theorem takes_variableDefinition [Runtime] : Takes AreClosed variableDefinition :=
  takes_description.bind fun _ => (takes_mark '$').bind fun _ => takes_name.bind fun _ =>
    (takes_mark ':').bind fun _ => takes_typeRef.bind fun _ => takes_defaultValue.bind fun _ =>
      (takes_directives true Runtime.parsingDepth).returning

theorem takes_operationType : Takes AreClosed operationType := by
  refine takes_name.bind fun word => ?_
  cases Operation.ofKeyword? word with
  | some _ => exact takes_pure
  | none => exact takes_fails

theorem takes_operation [Runtime] : Takes AreClosed operation := by
  refine (takes_sees _).bind fun _ => .ite takes_selections.returning <|
    takes_operationType.bind fun operation => takes_get.bind fun tokens => ?_
  have hbehind : ∀ name : Option String, Takes AreClosed (do
      let parameters ← optionalBetween '(' ')' variableDefinition
      let directives ← directives false
      return { operation, name, parameters, directives, selections := ← selections :
        OperationDefinition }) := by
    intro name
    exact (takes_optionalBetween takes_variableDefinition).bind fun _ =>
      (takes_directives false Runtime.parsingDepth).bind fun _ => takes_selections.returning
  dsimp only
  split
  · exact takes_name.map.bind hbehind
  · exact takes_pure.bind hbehind

theorem takes_fragment [Runtime] : Takes AreClosed fragment :=
  (takes_keyword "fragment").bind fun _ => takes_fragmentName.bind fun _ =>
    (takes_keyword "on").bind fun _ => takes_name.bind fun _ =>
      (takes_directives false Runtime.parsingDepth).bind fun _ => takes_selections.returning

/-! ## Parts of type definitions -/

theorem takes_inputValue [Runtime] : Takes AreClosed inputValue :=
  takes_description.bind fun _ => takes_name.bind fun _ => (takes_mark ':').bind fun _ =>
    takes_typeRef.bind fun _ => takes_defaultValue.bind fun _ =>
      (takes_directives true Runtime.parsingDepth).returning

theorem takes_field [Runtime] : Takes AreClosed field :=
  takes_description.bind fun _ => takes_name.bind fun _ =>
    (takes_optionalBetween takes_inputValue).bind fun _ => (takes_mark ':').bind fun _ =>
      takes_typeRef.bind fun _ => (takes_directives true Runtime.parsingDepth).returning

theorem takes_enumValue [Runtime] : Takes AreClosed enumValue :=
  takes_description.bind fun _ => takes_name.bind fun _ =>
    .ite takes_fails ((takes_directives true Runtime.parsingDepth).returning)

theorem takes_interfaces : Takes AreClosed interfaces :=
  (takes_keyword? "implements").bind fun _ => .ite (takes_separated takes_name) takes_pure

theorem takes_members : Takes AreClosed members :=
  (takes_mark? '=').bind fun _ => .ite (takes_separated takes_name) takes_pure

theorem takes_operationTypeDefinition : Takes AreClosed operationTypeDefinition :=
  takes_operationType.bind fun _ => (takes_mark ':').bind fun _ => takes_name.returning

theorem takes_typeNode [Runtime] (keyword : String) : Takes AreClosed (typeNode keyword) := by
  have hdirectives := takes_directives true Runtime.parsingDepth
  refine takes_name.bind fun name => ?_
  split
  · exact hdirectives.returning
  · exact takes_interfaces.bind fun _ => hdirectives.bind fun _ =>
      (takes_optionalBetween takes_field).returning
  · exact takes_interfaces.bind fun _ => hdirectives.bind fun _ =>
      (takes_optionalBetween takes_field).returning
  · exact hdirectives.bind fun _ => takes_members.returning
  · exact hdirectives.bind fun _ => (takes_optionalBetween takes_enumValue).returning
  · exact hdirectives.bind fun _ => (takes_optionalBetween takes_inputValue).returning
  · exact takes_fails

theorem takes_location : Takes AreClosed location := by
  refine takes_name.bind fun word => ?_
  cases Location.ofName? word with
  | some _ => exact takes_pure
  | none => exact takes_fails

theorem takes_directiveDefinition [Runtime] (description : Option Literal) :
    Takes AreClosed (directiveDefinition description) :=
  (takes_mark '@').bind fun _ => takes_name.bind fun _ =>
    (takes_optionalBetween takes_inputValue).bind fun _ =>
      (takes_keyword? "repeatable").bind fun _ => (takes_keyword "on").bind fun _ =>
        (takes_separated takes_location).returning

/-! ## Definitions -/

theorem takes_extension [Runtime] : Takes AreClosed extension :=
  takes_name.bind fun word => .ite
    ((takes_directives true Runtime.parsingDepth).bind fun _ =>
      (takes_optionalBetween takes_operationTypeDefinition).bind fun _ =>
        .ite takes_fails takes_pure)
    ((takes_typeNode word).bind fun _ => .ite takes_pure takes_fails)

theorem takes_described [Runtime] (description : Option Literal) (word : String) :
    Takes AreClosed (described description word) := by
  unfold described
  split
  · exact (takes_directives true Runtime.parsingDepth).bind fun _ =>
      (takes_someBetween takes_operationTypeDefinition).returning
  · exact (takes_directiveDefinition description).returning
  · exact (takes_typeNode _).returning

theorem takes_executable [Runtime] (word : String) : Takes AreClosed (executable word) :=
  .ite (takes_fragment.returning) (takes_operation.returning)

theorem takes_definition [Runtime] : Takes AreClosed definition := by
  refine takes_description.bind fun description => takes_get.bind fun tokens => ?_
  split
  · next word _ =>
      exact .ite ((takes_keyword word).bind fun _ => takes_described description word) <|
        .ite (.ite takes_fails ((takes_keyword "extend").bind fun _ => takes_extension))
          (takes_executable word)
  · exact .ite takes_fails (takes_operation.returning)
  · exact takes_fails

theorem takes_definitions [Runtime] (fuel : Nat) : Takes AreClosed (definitions fuel) := by
  induction fuel with
  | zero => exact takes_fails
  | succ fuel ih =>
      exact takes_remaining.bind fun _ =>
        .ite takes_pure (takes_definition.bind fun _ => ih.returning)

/-- The definitions of a document take all of its tokens. -/
theorem eq_nil_of_definitions [Runtime] {fuel : Nat} {tokens rest : List Token}
    {found : List Definition}
    (hread : definitions fuel tokens = some (found, rest)) : rest = [] := by
  induction fuel generalizing tokens found with
  | zero => contradiction
  | succ fuel ih =>
      obtain ⟨left, _, hleft, hread⟩ := bind_eq_some_iff.1 hread
      obtain ⟨rfl, rfl⟩ := Prod.mk.inj (Option.some.inj hleft)
      split at hread
      · next hnone =>
          obtain ⟨-, rfl⟩ := pure_eq_some_iff.1 hread
          exact List.length_eq_zero_iff.1 hnone
      · obtain ⟨_, _, -, hread⟩ := bind_eq_some_iff.1 hread
        obtain ⟨_, _, hbehind, hread⟩ := bind_eq_some_iff.1 hread
        obtain ⟨-, rfl⟩ := pure_eq_some_iff.1 hread
        exact ih hbehind

end Reader

/-- In a document every spread is closed. -/
theorem areClosed_of_parse? [Runtime] {source : String} {document : Document}
    (hparse : parse? source = some document) :
    ∃ tokens, tokens? source = some tokens ∧ AreClosed tokens := by
  obtain ⟨tokens, htokens, hread⟩ := Option.bind_eq_some_iff.1 hparse
  refine ⟨tokens, htokens, ?_⟩
  cases hdefinitions : Reader.definitions (tokens.length + 1) tokens with
  | none =>
      rw [hdefinitions] at hread
      contradiction
  | some found =>
      obtain ⟨taken, hsplit, htaken⟩ := Reader.takes_definitions _ _ _ _ hdefinitions
      rw [Reader.eq_nil_of_definitions hdefinitions, List.append_nil] at hsplit
      rwa [hsplit]

end Sdl

end ConfigSchema
