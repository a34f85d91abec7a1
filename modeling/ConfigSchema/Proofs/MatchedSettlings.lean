import ConfigSchema.Proofs.IntrospectionResults
import ConfigSchema.Proofs.NormalLiterals

/-!
# Settling with matching defaults

Literals that match stand for constants at the same time, and wait for the same input objects.  So
where the defaults of one schema match those of another one, both settle the same input objects one
after the other: what the first one settles within some levels, the second one settles within them.
-/

namespace ConfigSchema

namespace Schema

variable {schema one other : Schema} {settled more : Settled}

/-! ## Constants that resemble each other -/

/-- Both constants are null, or none is. -/
def Constant.SameNull (constant again : Constant) : Prop :=
  again = .null ↔ constant = .null

theorem Constant.sameNull_of_ne {constant again : Constant} (hconstant : constant ≠ .null)
    (hagain : again ≠ .null) : constant.SameNull again :=
  iff_of_false hagain hconstant

structure SettledField.Resembles (field again : SettledField) : Prop where
  name : again.name = field.name
  type : again.type = field.type
  default : Option.Rel Constant.SameNull field.default again.default

structure SettledInput.Resembles (input again : SettledInput) : Prop where
  isOneOf : again.isOneOf = input.isOneOf
  fields : List.Forall₂ SettledField.Resembles input.fields again.fields

/-- The same input objects are settled, with constants that resemble each other, and their fields
have the types that they have in the schema. -/
structure Tallies (schema : Schema) (settled more : Settled) : Prop where
  resembles : ∀ name, Option.Rel SettledInput.Resembles (settled.lookup name) (more.lookup name)
  fieldType? : ∀ name input, settled.lookup name = some input → ∀ field,
    (input.fields.find? (·.name = field)).map (·.type) = schema.fieldType? name field

theorem tallies_nil (schema : Schema) : schema.Tallies [] [] :=
  ⟨fun _ => .none, fun _ _ hlookup => nomatch hlookup⟩

theorem Tallies.cons (htallies : schema.Tallies settled more) {name : String}
    {input again : SettledInput} (hresembles : input.Resembles again)
    (htypes : ∀ field, (input.fields.find? (·.name = field)).map (·.type) =
      schema.fieldType? name field) :
    schema.Tallies ((name, input) :: settled) ((name, again) :: more) where
  resembles := by
    intro found
    rw [List.lookup_cons, List.lookup_cons]
    cases found == name with
    | true => exact .some hresembles
    | false => exact htallies.resembles found
  fieldType? := by
    intro found given hlookup
    rw [List.lookup_cons] at hlookup
    split at hlookup
    · next heq =>
        cases hlookup
        rw [beq_iff_eq.1 heq]
        exact htypes
    · exact htallies.fieldType? found given hlookup

theorem find?_of_resembles {fields agains : List SettledField}
    (hfields : List.Forall₂ SettledField.Resembles fields agains) (name : String) :
    Option.Rel SettledField.Resembles (fields.find? (·.name = name))
      (agains.find? (·.name = name)) := by
  induction hfields with
  | nil => exact .none
  | @cons field again _ _ hfirst _ ih =>
      by_cases hname : field.name = name
      · have hagain : again.name = name := hfirst.name.trans hname
        rw [List.find?_cons_of_pos (by simpa using hname),
          List.find?_cons_of_pos (by simpa using hagain)]
        exact .some hfirst
      · have hagain : again.name ≠ name := hfirst.name ▸ hname
        rw [List.find?_cons_of_neg (by simpa using hname),
          List.find?_cons_of_neg (by simpa using hagain)]
        exact ih

/-! ## Literals that match -/

/-- Two results are the same error, or both are values that are related. -/
abbrev Agree {α γ ε : Type} (R : α → γ → Prop) (result : Except ε α) (again : Except ε γ) : Prop :=
  Results.Agree (fun _ => False) R result again

theorem underLists_ne_null {constant : Constant} (hconstant : constant ≠ .null) (depth : Nat) :
    underLists depth constant ≠ .null := by
  cases depth with
  | zero => exact hconstant
  | succ depth => simp [underLists]

theorem ne_null_of_fitScalar {name : String} {value : Sdl.Value} {constant : Constant}
    (hfit : fitScalar name value = some constant) : constant ≠ .null := by
  rintro rfl
  unfold fitScalar at hfit
  split at hfit
  case h_1 =>
    dsimp only at hfit
    split_ifs at hfit
    cases hfit
  case h_8 =>
    split_ifs at hfit
    split at hfit
    · split_ifs at hfit <;> cases hfit
    all_goals cases hfit
  all_goals cases hfit

theorem ne_null_of_fitPlain {type : NamedType} {value : Sdl.Value} {constant : Constant}
    (hfit : fitPlain type value = some constant) : constant ≠ .null := by
  unfold fitPlain at hfit
  split at hfit
  · exact ne_null_of_fitScalar hfit
  · split at hfit
    · cases hfit
      simp
    · contradiction
  · contradiction

/-- Fields of objects with constants that are null at the same time. -/
def SameNullFields (field again : String × Constant) : Prop :=
  again.1 = field.1 ∧ field.2.SameNull again.2

theorem forall₂_filterMap_id {α β : Type} {R : α → β → Prop} {items : List (Option α)}
    {others : List (Option β)} (hall : List.Forall₂ (Option.Rel R) items others) :
    List.Forall₂ R (items.filterMap id) (others.filterMap id) := by
  induction hall with
  | nil => exact .nil
  | cons hfirst _ ih =>
      cases hfirst with
      | none => exact ih
      | some hfirst => exact .cons hfirst ih

theorem agree_closed {isOneOf : Bool} {fields agains : List (String × Constant)}
    (hfields : List.Forall₂ SameNullFields fields agains) :
    Agree (fun constant again => constant ≠ .null ∧ again ≠ .null)
      (closed isOneOf fields) (closed isOneOf agains) := by
  have hobjects : ∀ fields agains : List (String × Constant),
      Constant.object fields ≠ .null ∧ Constant.object agains ≠ .null := by simp
  cases isOneOf with
  | false => exact .ok (hobjects _ _)
  | true =>
      cases hfields with
      | nil => exact .error _
      | @cons field again rest others hfirst hrest =>
          obtain ⟨name, constant⟩ := field
          obtain ⟨_, told⟩ := again
          obtain ⟨rfl, hnull⟩ : _ = name ∧ (told = .null ↔ constant = .null) := hfirst
          cases hrest with
          | cons _ _ =>
              have hseveral : ∀ {name : String} {given : Constant} {second : String × Constant}
                  {rest : List (String × Constant)},
                  closed true ((name, given) :: second :: rest) = .error .type := by
                intro name given second rest
                cases given <;> rfl
              rw [hseveral, hseveral]
              exact .error _
          | nil =>
              by_cases hconstant : constant = .null
              · rw [hnull.2 hconstant, hconstant]
                exact .error _
              · have hsingle : ∀ {name : String} {given : Constant}, given ≠ .null →
                    closed true [(name, given)] = .ok (.object [(name, given)]) := by
                  intro name given hgiven
                  cases given <;> first | rfl | exact absurd rfl hgiven
                rw [hsingle hconstant, hsingle (mt hnull.1 hconstant)]
                exact .ok (hobjects _ _)

theorem agree_completed {input again : SettledInput} (hresembles : input.Resembles again)
    {given others : List (String × Except Unfit Constant)}
    (hgiven : ∀ name, Option.Rel (Agree Constant.SameNull) (given.lookup name)
      (others.lookup name)) :
    Agree (fun constant again => constant ≠ .null ∧ again ≠ .null) (completed input given)
      (completed again others) := by
  rw [completed_eq, completed_eq, hresembles.isOneOf]
  refine Results.Agree.bind (R := List.Forall₂ (Option.Rel SameNullFields))
    (Results.Agree.mapM (hresembles.fields.imp fun field other hfield => ?_))
    fun _ _ hfields => agree_closed (forall₂_filterMap_id hfields)
  have hlookup := hgiven field.name
  have hdefault := hfield.default
  unfold completedField
  rw [hfield.name, hfield.type]
  generalize given.lookup field.name = first at hlookup ⊢
  generalize others.lookup field.name = second at hlookup ⊢
  generalize field.default = default at hdefault ⊢
  generalize other.default = another at hdefault ⊢
  cases hlookup with
  | some hagree => exact hagree.map fun _ _ hnull => .some ⟨rfl, hnull⟩
  | none =>
      cases hdefault with
      | some hnull => exact .ok (.some ⟨rfl, hnull⟩)
      | none =>
          dsimp only
          split_ifs
          · exact .error _
          · exact .ok .none

mutual

/-- Literals that match stand for constants at the same time. -/
theorem Matches.agree (htallies : schema.Tallies settled more) {ref : TypeRef}
    {v w : Sdl.Value} : schema.Matches ref v w →
      Agree Constant.SameNull (fit schema settled ref v) (fit schema more ref w)
  | .null ref => by
      rw [fit, fit]
      split_ifs
      · exact .error _
      · exact .ok Iff.rfl
  | .plain hv hw htype hfits hagain => by
      obtain ⟨constant, hconstant⟩ := Option.isSome_iff_exists.1 hfits
      obtain ⟨again, hagain⟩ := Option.isSome_iff_exists.1 hagain
      rw [fit_of_isPlain hv, fit_of_isPlain hw, htype]
      dsimp only
      rw [hconstant, hagain]
      exact .ok (Constant.sameNull_of_ne (underLists_ne_null (ne_null_of_fitPlain hconstant) _)
        (underLists_ne_null (ne_null_of_fitPlain hagain) _))
  | .list hitem hitems => by
      rw [fit_list, fit_list, hitem]
      exact (hitems.agree htallies).map fun _ _ _ =>
        Constant.sameNull_of_ne (by simp) (by simp)
  | .object hfields => by
      rw [fit_object, fit_object]
      cases htype : schema.type? ref.base with
      | none => exact .error _
      | some type =>
          have hname := name_of_type? htype
          rw [← hname] at hfields
          dsimp only
          split
          · have hinputs := htallies.resembles type.name
            cases hlookup : settled.lookup type.name with
            | none =>
                rw [hlookup] at hinputs
                generalize more.lookup type.name = found at hinputs ⊢
                cases hinputs
                exact .error _
            | some input =>
                have htypes := htallies.fieldType? _ _ hlookup
                rw [hlookup] at hinputs
                generalize more.lookup type.name = found at hinputs ⊢
                cases hinputs with
                | some hresembles =>
                    exact (agree_completed hresembles
                      (hfields.agree htallies hresembles htypes)).map fun _ _ hnull =>
                        Constant.sameNull_of_ne (underLists_ne_null hnull.1 _)
                          (underLists_ne_null hnull.2 _)
          · split_ifs
            · exact .ok Iff.rfl
            · exact .error _

theorem AllMatch.agree (htallies : schema.Tallies settled more) {item : TypeRef}
    {items others : List Sdl.Value} : schema.AllMatch item items others →
      Agree (fun _ _ => True) (fitAll schema settled item items) (fitAll schema more item others)
  | .nil _ => by
      rw [fitAll, fitAll]
      exact .ok trivial
  | .cons hfirst hrest => by
      rw [fitAll_eq_bind hfirst.isVariable.1, fitAll_eq_bind hfirst.isVariable.2]
      exact (hfirst.agree htallies).bind fun _ _ _ =>
        (hrest.agree htallies).map fun _ _ _ => trivial

theorem FieldsMatch.agree (htallies : schema.Tallies settled more) {input again : SettledInput}
    (hresembles : input.Resembles again) {base : String}
    (htypes : ∀ field, (input.fields.find? (·.name = field)).map (·.type) =
      schema.fieldType? base field)
    {fields others : List (String × Sdl.Value)} :
    schema.FieldsMatch (schema.fieldType? base) fields others → ∀ name,
      Option.Rel (Agree Constant.SameNull) ((fitFields schema settled input fields).lookup name)
        ((fitFields schema more again others).lookup name)
  | .nil _ => by
      rw [fitFields, fitFields]
      exact fun _ => .none
  | @FieldsMatch.cons _ _ name ref v w rest others htype hfirst hrest => by
      intro found
      have hlater := hrest.agree htallies hresembles htypes found
      have hvalue := hfirst.agree htallies
      have hsame : (others.any fun other => decide (other.1 = name)) =
          rest.any fun other => decide (other.1 = name) := by
        have hnames := congrArg (·.any fun other => decide (other = name)) hrest.names_eq
        simpa only [List.any_map, Function.comp_def] using hnames
      have hfield := find?_of_resembles hresembles.fields name
      have hknown := (htypes name).trans htype
      rw [lookup_fitFields_cons, lookup_fitFields_cons, hsame]
      by_cases hrepeated : rest.any fun other => decide (other.1 = name)
      · rw [if_pos hrepeated, if_pos hrepeated]
        exact hlater
      · rw [if_neg hrepeated, if_neg hrepeated]
        obtain ⟨field, hfound, rfl⟩ := Option.map_eq_some_iff.1 hknown
        rw [hfound] at hfield ⊢
        generalize again.fields.find? (fun field => decide (field.name = name)) = told at hfield ⊢
        cases hfield with
        | some hfield =>
            rw [hfirst.isVariable.1, hfirst.isVariable.2]
            simp only [Bool.not_false, Option.filter_some, if_true, hfield.type]
            split_ifs
            · exact .some hvalue
            · exact hlater

end

/-! ## Schemas with matching defaults -/

/-- A value of the same name and type whose default matches. -/
structure InputValue.Rewritten (schema : Schema) (input again : InputValue) : Prop where
  name : again.name = input.name
  type : again.type = input.type
  default : Option.Rel (schema.Matches input.type) input.default again.default

/-- A type of the same name and kind, where the same values have defaults that match. -/
structure NamedType.Rewritten (schema : Schema) (type again : NamedType) : Prop where
  name : again.name = type.name
  kind : again.shape.kind = type.shape.kind
  inputs : List.Forall₂ (InputValue.Rewritten schema) type.shape.inputValues
    again.shape.inputValues

/-- Both schemas take the literals that a third one takes, and their input objects have the same
fields with defaults that match. -/
structure Rewrites (schema one other : Schema) : Prop where
  takesAlike : schema.TakesAlike one
  takesAgain : schema.TakesAlike other
  inputCount_eq : other.inputCount = one.inputCount
  fieldType?_eq : ∀ base name, one.fieldType? base name = schema.fieldType? base name
  isInputObject : ∀ name inputs isOneOf, one.IsInputObject name inputs isOneOf →
    ∃ agains, other.IsInputObject name agains isOneOf ∧
      List.Forall₂ (InputValue.Rewritten schema) inputs agains

section

variable {settle resettle : Settling}

theorem agree_defaultConstant (hrewrites : schema.Rewrites one other)
    (htallies : schema.Tallies settled more) {input again : InputValue}
    (hinput : input.Rewritten schema again) :
    Agree (Option.Rel Constant.SameNull) (one.defaultConstant settled input)
      (other.defaultConstant more again) := by
  have hdefault := hinput.default
  unfold defaultConstant
  rw [hinput.type]
  generalize input.default = value at hdefault ⊢
  generalize again.default = literal at hdefault ⊢
  cases hdefault with
  | none => exact .ok .none
  | @some v w hmatch =>
      have hagree := hmatch.agree htallies
      rw [hrewrites.takesAlike.fit_eq, hrewrites.takesAgain.fit_eq] at hagree
      dsimp only
      generalize one.fit settled input.type v = first at hagree ⊢
      generalize other.fit more input.type w = second at hagree ⊢
      cases hagree with
      | ok hnull => exact .ok (.some hnull)
      | error e =>
          cases e with
          | type => exact .ok .none
          | unsettled name => exact .error name
      | left hnever => exact hnever.elim
      | right hnever => exact hnever.elim

/-- Whatever is settled the first way is settled the second way, too. -/
def Follows (schema : Schema) (settle resettle : Settling) : Prop :=
  ∀ name settled more result, schema.Tallies settled more → settle name settled = some result →
    ∃ again, resettle name more = some again ∧ schema.Tallies result again

theorem follow_constantBy (hrewrites : schema.Rewrites one other)
    (hfollows : schema.Follows settle resettle) {input again : InputValue}
    (hinput : input.Rewritten schema again) {repetitions : Nat}
    (htallies : schema.Tallies settled more) {constant : Option Constant} {result : Settled}
    (hsettled : one.constantBy settle input repetitions settled = some (constant, result)) :
    ∃ told last, other.constantBy resettle again repetitions more = some (told, last) ∧
      Option.Rel Constant.SameNull constant told ∧ schema.Tallies result last := by
  induction repetitions generalizing settled more with
  | zero => contradiction
  | succ repetitions ih =>
      have hagree := agree_defaultConstant hrewrites htallies hinput
      rw [constantBy] at hsettled ⊢
      generalize one.defaultConstant settled input = first at hagree hsettled
      generalize other.defaultConstant more again = second at hagree ⊢
      cases hagree with
      | ok hnull =>
          cases hsettled
          exact ⟨_, _, rfl, hnull, htallies⟩
      | error name =>
          obtain ⟨next, hnext, hrest⟩ := Option.bind_eq_some_iff.1 hsettled
          obtain ⟨following, hfollowing, htallied⟩ := hfollows name settled more next htallies hnext
          dsimp only
          rw [hfollowing, Option.bind_some]
          exact ih htallied hrest
      | left hnever => exact hnever.elim
      | right hnever => exact hnever.elim

theorem follow_fieldsBy (hrewrites : schema.Rewrites one other)
    (hfollows : schema.Follows settle resettle) {inputs agains : List InputValue}
    (hinputs : List.Forall₂ (InputValue.Rewritten schema) inputs agains)
    (htallies : schema.Tallies settled more) {fields : List SettledField} {result : Settled}
    (hsettled : one.fieldsBy settle inputs settled = some (fields, result)) :
    ∃ told last, other.fieldsBy resettle agains more = some (told, last) ∧
      List.Forall₂ SettledField.Resembles fields told ∧
      List.Forall₂ (fun input field => field.name = input.name ∧ field.type = input.type)
        inputs fields ∧ schema.Tallies result last := by
  induction hinputs generalizing settled more fields with
  | nil =>
      cases hsettled
      exact ⟨[], more, rfl, .nil, .nil, htallies⟩
  | @cons input again rest others hinput _ ih =>
      simp only [fieldsBy, Option.bind_eq_bind, Option.bind_eq_some_iff, Prod.exists] at hsettled
      obtain ⟨constant, next, hconstant, later, last, hlater, heq⟩ := hsettled
      cases heq
      obtain ⟨told, following, hfollowing, hnull, htallied⟩ :=
        follow_constantBy hrewrites hfollows hinput htallies hconstant
      obtain ⟨tolds, final, hfinal, hresembles, hsources, hlast⟩ := ih htallied hlater
      rw [← hrewrites.inputCount_eq] at hfollowing
      rw [fieldsBy, hfollowing]
      simp only [Option.bind_eq_bind, Option.bind_some, hfinal]
      exact ⟨_, _, rfl, .cons ⟨hinput.name, hinput.type, hnull⟩ hresembles,
        .cons ⟨rfl, rfl⟩ hsources, hlast⟩

theorem find?_of_sources {inputs : List InputValue} {fields : List SettledField}
    (hsources : List.Forall₂ (fun input field => field.name = input.name ∧
      field.type = input.type) inputs fields) (name : String) :
    (fields.find? (·.name = name)).map (·.type) = (inputs.find? (·.name = name)).map (·.type) := by
  induction hsources with
  | nil => rfl
  | @cons input field _ _ hfirst _ ih =>
      rw [List.find?_cons, List.find?_cons, hfirst.1]
      split
      · exact congrArg some hfirst.2
      · exact ih

/-- What is settled within some levels is settled again within them. -/
theorem follows_settleWithin (hrewrites : schema.Rewrites one other) {room bound : Nat}
    (hroom : room ≤ bound) :
    schema.Follows (one.settleWithin room) (other.settleWithin bound) := by
  induction room generalizing bound with
  | zero =>
      intro name settled more result _ hsettled
      contradiction
  | succ room ih =>
      obtain ⟨bound, rfl⟩ := Nat.exists_eq_add_of_le' hroom
      intro name settled more result htallies hsettled
      rw [← Nat.add_assoc, settleWithin]
      rw [settleWithin] at hsettled
      beta_reduce at hsettled ⊢
      split at hsettled
      · next named description directives inputs isOneOf htype =>
          simp only [Option.bind_eq_bind, Option.bind_eq_some_iff, Prod.exists] at hsettled
          obtain ⟨fields, next, hfields, heq⟩ := hsettled
          cases heq
          have hinput : one.IsInputObject name inputs isOneOf := by
            rw [IsInputObject, htype]
            rfl
          obtain ⟨agains, hagain, hinputs⟩ := hrewrites.isInputObject _ _ _ hinput
          obtain ⟨type, hother, -, hshape⟩ := name_of_isInputObject hagain
          obtain ⟨told, last, htold, hresembles, hsources, hlast⟩ :=
            follow_fieldsBy hrewrites (ih (Nat.le_add_left room bound)) hinputs htallies hfields
          have hknown : ∀ field, (fields.find? (·.name = field)).map (·.type) =
              schema.fieldType? name field := by
            intro field
            rw [find?_of_sources hsources, ← hrewrites.fieldType?_eq,
              fieldType?_of_isInputObject hinput]
          obtain ⟨_, _, _, shape⟩ := type
          cases hshape
          rw [hother]
          simp only [Option.bind_eq_bind, htold, Option.bind_some]
          exact ⟨_, rfl, hlast.cons ⟨rfl, hresembles⟩ hknown⟩
      · contradiction

end

theorem follow_settleValues (hrewrites : schema.Rewrites one other) {room bound : Nat}
    (hroom : room ≤ bound) {inputs agains : List InputValue}
    (hinputs : List.Forall₂ (InputValue.Rewritten schema) inputs agains)
    (htallies : schema.Tallies settled more) {result : Settled}
    (hsettled : one.settleValues room inputs settled = some result) :
    ∃ last, other.settleValues bound agains more = some last ∧ schema.Tallies result last := by
  obtain ⟨⟨fields, _⟩, hfields, rfl⟩ := Option.map_eq_some_iff.1 hsettled
  obtain ⟨told, last, htold, -, -, hlast⟩ :=
    follow_fieldsBy hrewrites (follows_settleWithin hrewrites hroom) hinputs htallies hfields
  exact ⟨last, by rw [settleValues, htold]; rfl, hlast⟩

theorem settleType_eq (schema : Schema) (room : Nat) (settled : Settled) (type : NamedType) :
    schema.settleType room settled type =
      if type.shape.kind = .input then
        if (settled.lookup type.name).isSome then some settled
        else schema.settleWithin room type.name settled
      else schema.settleValues room type.shape.inputValues settled := by
  obtain ⟨name, description, directives, shape⟩ := type
  cases shape <;> rfl

theorem follow_settleType (hrewrites : schema.Rewrites one other) {room bound : Nat}
    (hroom : room ≤ bound) {type again : NamedType} (htype : type.Rewritten schema again)
    (htallies : schema.Tallies settled more) {result : Settled}
    (hsettled : one.settleType room settled type = some result) :
    ∃ last, other.settleType bound more again = some last ∧ schema.Tallies result last := by
  have hknown : (more.lookup type.name).isSome = (settled.lookup type.name).isSome := by
    have hinput := htallies.resembles type.name
    generalize settled.lookup type.name = input at hinput ⊢
    generalize more.lookup type.name = another at hinput ⊢
    cases hinput <;> rfl
  rw [settleType_eq] at hsettled ⊢
  rw [htype.kind, htype.name, hknown]
  split_ifs at hsettled ⊢
  · cases hsettled
    exact ⟨more, rfl, htallies⟩
  · exact follows_settleWithin hrewrites hroom type.name settled more result htallies hsettled
  · exact follow_settleValues hrewrites hroom htype.inputs htallies hsettled

theorem follow_settleTypes (hrewrites : schema.Rewrites one other) {room bound : Nat}
    (hroom : room ≤ bound) {types agains : List NamedType}
    (htypes : List.Forall₂ (NamedType.Rewritten schema) types agains)
    (htallies : schema.Tallies settled more) {result : Settled}
    (hsettled : types.foldlM (one.settleType room) settled = some result) :
    ∃ last, agains.foldlM (other.settleType bound) more = some last := by
  induction htypes generalizing settled more with
  | nil => exact ⟨more, rfl⟩
  | cons htype _ ih =>
      rw [List.foldlM_cons] at hsettled ⊢
      obtain ⟨next, hnext, hrest⟩ := Option.bind_eq_some_iff.1 hsettled
      obtain ⟨following, hfollowing, htallied⟩ :=
        follow_settleType hrewrites hroom htype htallies hnext
      rw [hfollowing]
      exact ih htallied hrest

end Schema

end ConfigSchema
