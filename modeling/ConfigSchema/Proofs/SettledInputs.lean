import ConfigSchema.Proofs.AlikeSchemas
import ConfigSchema.Proofs.Results

/-!
# Settled input objects

Whatever is told of a default stays told when more input objects are settled.  So an input object
that is settled has the constants that its defaults have at the end, whatever was settled in
between, and a schema that settles has all of its input objects settled in this way.
-/

namespace ConfigSchema

namespace Schema

variable {α β : Type} {schema : Schema} {settled more : Settled}

/-! ## Results that wait -/

/-- Whether a result is not there before another input object is settled. -/
def Waits (result : Except Unfit α) : Prop :=
  ∃ name, result = .error (.unsettled name)

/-- The second result is the first one, unless that waits. -/
def Keeps (first second : Except Unfit α) : Prop :=
  Waits first ∨ second = first

theorem Keeps.refl (result : Except Unfit α) : Keeps result result :=
  .inr rfl

theorem Keeps.map {first second : Except Unfit α} (hkeeps : Keeps first second) (f : α → β) :
    Keeps (first.map f) (second.map f) := by
  rcases hkeeps with ⟨name, rfl⟩ | rfl
  · exact .inl ⟨name, rfl⟩
  · exact .refl _

theorem Keeps.bind {first second : Except Unfit α} (hkeeps : Keeps first second)
    {next other : α → Except Unfit β} (hnext : ∀ a, Keeps (next a) (other a)) :
    Keeps (first.bind next) (second.bind other) := by
  rcases hkeeps with ⟨name, rfl⟩ | rfl
  · exact .inl ⟨name, rfl⟩
  · cases second with
    | error e => exact .refl _
    | ok a => exact hnext a

theorem Keeps.mapM {f g : α → Except Unfit β} {items : List α}
    (hall : ∀ item ∈ items, Keeps (f item) (g item)) : Keeps (items.mapM f) (items.mapM g) := by
  induction items with
  | nil => exact .refl _
  | cons item rest ih =>
      rw [List.forall_mem_cons] at hall
      rw [List.mapM_cons, List.mapM_cons]
      exact hall.1.bind fun first => (ih hall.2).bind fun others => .refl _

theorem Keeps.eq {first second : Except Unfit α} (hkeeps : Keeps first second)
    (hwaits : ¬ Waits first) : second = first :=
  hkeeps.resolve_left hwaits

/-! ## More settled input objects -/

/-- Everything that is settled is settled to the same, and maybe more. -/
def Extends (settled more : Settled) : Prop :=
  ∀ name input, settled.lookup name = some input → more.lookup name = some input

theorem Extends.refl (settled : Settled) : Extends settled settled :=
  fun _ _ hlookup => hlookup

theorem Extends.trans {most : Settled} (hmore : Extends settled more) (hmost : Extends more most) :
    Extends settled most :=
  fun name input hlookup => hmost name input (hmore name input hlookup)

theorem fit_object (schema : Schema) (settled : Settled) (ref : TypeRef)
    (fields : List (String × Sdl.Value)) :
    fit schema settled ref (.object fields) =
      match schema.type? ref.base with
      | none => .error (.unsettled ref.base)
      | some type =>
          match type.shape with
          | .input _ _ =>
              match settled.lookup type.name with
              | none => .error (.unsettled type.name)
              | some input =>
                  (completed input (fitFields schema settled input fields)).map
                    (underLists ref.listDepth)
          | _ =>
              if takesCompounds type then .ok (underLists ref.listDepth .compound)
              else .error .type := by
  unfold fit
  rfl

/-- A field of an object with the constant that is given for it or that it has otherwise. -/
def completedField (given : List (String × Except Unfit Constant)) (field : SettledField) :
    Except Unfit (Option (String × Constant)) :=
  match given.lookup field.name, field.default with
  | some constant, _ => constant.map fun constant => some (field.name, constant)
  | none, some constant => .ok (some (field.name, constant))
  | none, none => if field.type.isRequired then .error .type else .ok none

/-- An object of which all fields are there; there is exactly one if only one may be given. -/
def closed (isOneOf : Bool) (fields : List (String × Constant)) : Except Unfit Constant :=
  match isOneOf, fields with
  | false, fields => .ok (.object fields)
  | true, [(_, .null)] => .error .type
  | true, [field] => .ok (.object [field])
  | true, _ => .error .type

theorem completed_eq (input : SettledInput) (given : List (String × Except Unfit Constant)) :
    completed input given =
      (input.fields.mapM (completedField given)).bind fun fields =>
        closed input.isOneOf (fields.filterMap id) := by
  rfl

theorem keeps_completed (input : SettledInput)
    {given others : List (String × Except Unfit Constant)}
    (hgiven : ∀ name, Option.Rel Keeps (given.lookup name) (others.lookup name)) :
    Keeps (completed input given) (completed input others) := by
  rw [completed_eq, completed_eq]
  refine Keeps.bind (Keeps.mapM fun field _ => ?_) fun fields => .refl _
  have hfield := hgiven field.name
  unfold completedField
  generalize given.lookup field.name = first at hfield ⊢
  generalize others.lookup field.name = second at hfield ⊢
  cases hfield with
  | none => exact .refl _
  | some hkeeps => exact hkeeps.map _

theorem lookup_fitFields_cons (input : SettledInput) (name : String) (value : Sdl.Value)
    (rest : List (String × Sdl.Value)) (other : String) :
    (fitFields schema settled input ((name, value) :: rest)).lookup other =
      if rest.any (·.1 = name) then (fitFields schema settled input rest).lookup other
      else
        match (input.fields.find? (·.name = name)).filter fun _ => !value.isVariable with
        | some field =>
            if other = name then some (fit schema settled field.type value)
            else (fitFields schema settled input rest).lookup other
        | none => (fitFields schema settled input rest).lookup other := by
  rw [fitFields_cons]
  by_cases hrepeated : rest.any (·.1 = name)
  · rw [if_pos hrepeated, if_pos hrepeated]
  · rw [if_neg hrepeated, if_neg hrepeated]
    cases (input.fields.find? (·.name = name)).filter fun _ => !value.isVariable with
    | none => rfl
    | some field =>
        rw [Option.map_some, Option.toList_some, List.singleton_append, List.lookup_cons]
        by_cases hname : other = name
        · simp [hname]
        · simp [hname, beq_false_of_ne hname]

theorem fitAll_eq_bind {item : TypeRef} {value : Sdl.Value} (hvariable : value.isVariable = false)
    (rest : List Sdl.Value) :
    fitAll schema settled item (value :: rest) =
      (fit schema settled item value).bind fun constant =>
        (fitAll schema settled item rest).map (constant :: ·) := by
  rw [fitAll_cons hvariable]
  cases fit schema settled item value <;> rfl

mutual

/-- What is told of a literal stays told. -/
theorem keeps_fit (hextends : Extends settled more) : (value : Sdl.Value) → (ref : TypeRef) →
    Keeps (fit schema settled ref value) (fit schema more ref value)
  | .variable _, _ => by
      rw [fit, fit]
      exact .refl _
  | .null, _ => by
      rw [fit, fit]
      exact .refl _
  | .list items, ref => by
      rw [fit_list, fit_list]
      cases ref.item? with
      | some item => exact (keeps_fitAll hextends items item).map _
      | none => exact .refl _
  | .object fields, ref => by
      rw [fit_object, fit_object]
      cases schema.type? ref.base with
      | none => exact .refl _
      | some type =>
          dsimp only
          cases type.shape with
          | input _ _ =>
              dsimp only
              cases hlookup : settled.lookup type.name with
              | none => exact .inl ⟨_, rfl⟩
              | some input =>
                  rw [hextends _ _ hlookup]
                  exact (keeps_completed input (keeps_fitFields hextends fields input)).map _
          | _ => exact .refl _
  | .int _, _ => .refl _
  | .float _, _ => .refl _
  | .string _, _ => .refl _
  | .boolean _, _ => .refl _
  | .enum _, _ => .refl _

theorem keeps_fitAll (hextends : Extends settled more) : (values : List Sdl.Value) →
    (item : TypeRef) → Keeps (fitAll schema settled item values) (fitAll schema more item values)
  | [], _ => by
      rw [fitAll, fitAll]
      exact .refl _
  | value :: rest, item => by
      have hvalue := keeps_fit hextends value item
      have hrest := keeps_fitAll hextends rest item
      cases hvariable : value.isVariable with
      | true =>
          rw [fitAll_variable hvariable, fitAll_variable hvariable]
          split_ifs
          · exact .refl _
          · exact hrest.map _
      | false =>
          rw [fitAll_eq_bind hvariable, fitAll_eq_bind hvariable]
          exact hvalue.bind fun constant => hrest.map _

theorem keeps_fitFields (hextends : Extends settled more) :
    (fields : List (String × Sdl.Value)) → (input : SettledInput) → (other : String) →
      Option.Rel Keeps ((fitFields schema settled input fields).lookup other)
        ((fitFields schema more input fields).lookup other)
  | [], _, _ => by
      rw [fitFields, fitFields]
      exact .none
  | (name, value) :: rest, input, other => by
      have hvalue := keeps_fit hextends value
      have hrest := keeps_fitFields hextends rest input other
      rw [lookup_fitFields_cons, lookup_fitFields_cons]
      by_cases hrepeated : rest.any (·.1 = name)
      · rw [if_pos hrepeated, if_pos hrepeated]
        exact hrest
      · rw [if_neg hrepeated, if_neg hrepeated]
        cases (input.fields.find? (·.name = name)).filter fun _ => !value.isVariable with
        | none => exact hrest
        | some field =>
            dsimp only
            by_cases hname : other = name
            · rw [if_pos hname, if_pos hname]
              exact .some (hvalue field.type)
            · rw [if_neg hname, if_neg hname]
              exact hrest

end

/-- A constant that is told stays the same. -/
theorem defaultConstant_of_extends (hextends : Extends settled more) {input : InputValue}
    {constant : Option Constant} (htold : schema.defaultConstant settled input = .ok constant) :
    schema.defaultConstant more input = .ok constant := by
  unfold defaultConstant at htold ⊢
  cases hdefault : input.default with
  | none => simpa [hdefault] using htold
  | some value =>
      rw [hdefault] at htold
      dsimp only at htold ⊢
      rcases @keeps_fit schema _ _ hextends value input.type with ⟨name, hwaits⟩ | heq
      · rw [hwaits] at htold
        contradiction
      · rw [heq]
        exact htold

/-! ## Settlements -/

/-- Whether a name stands for an input object with these fields. -/
def IsInputObject (schema : Schema) (name : String) (fields : List InputValue)
    (isOneOf : Bool) : Prop :=
  (schema.type? name).map (·.shape) = some (.input fields isOneOf)

/-- The field of an input object with the constant of its default. -/
structure SettlesField (schema : Schema) (settled : Settled) (field : InputValue)
    (told : SettledField) : Prop where
  name : told.name = field.name
  type : told.type = field.type
  default : schema.defaultConstant settled field = .ok told.default

/-- An input object with the constants of all its defaults. -/
structure SettlesInput (schema : Schema) (settled : Settled) (name : String)
    (input : SettledInput) : Prop where
  isInputObject : ∃ fields, schema.IsInputObject name fields input.isOneOf ∧
    List.Forall₂ (schema.SettlesField settled) fields input.fields

/-- Whatever is settled has the constants of its defaults. -/
def IsSettlement (schema : Schema) (settled : Settled) : Prop :=
  ∀ name input, settled.lookup name = some input → schema.SettlesInput settled name input

theorem SettlesField.mono (hextends : Extends settled more) {field : InputValue}
    {told : SettledField} (hsettles : schema.SettlesField settled field told) :
    schema.SettlesField more field told where
  name := hsettles.name
  type := hsettles.type
  default := defaultConstant_of_extends hextends hsettles.default

theorem SettlesInput.mono (hextends : Extends settled more) {name : String} {input : SettledInput}
    (hsettles : schema.SettlesInput settled name input) : schema.SettlesInput more name input := by
  obtain ⟨fields, hinput, hfields⟩ := hsettles.isInputObject
  exact ⟨fields, hinput, hfields.imp fun _ _ hfield => hfield.mono hextends⟩

theorem name_of_isInputObject {name : String} {fields : List InputValue} {isOneOf : Bool}
    (hinput : schema.IsInputObject name fields isOneOf) :
    ∃ type, schema.type? name = some type ∧ type.name = name ∧
      type.shape = .input fields isOneOf := by
  obtain ⟨type, htype, hshape⟩ := Option.map_eq_some_iff.1 hinput
  exact ⟨type, htype, name_of_type? htype, hshape⟩

theorem find?_of_settles {inputs : List InputValue} {fields : List SettledField}
    (hfields : List.Forall₂ (schema.SettlesField settled) inputs fields) (name : String) :
    Option.Rel (schema.SettlesField settled) (inputs.find? (·.name = name))
      (fields.find? (·.name = name)) := by
  induction hfields with
  | nil => exact .none
  | @cons input field _ _ hfirst _ ih =>
      by_cases hname : input.name = name
      · have hfield : field.name = name := hfirst.name.trans hname
        rw [List.find?_cons_of_pos (by simpa using hname),
          List.find?_cons_of_pos (by simpa using hfield)]
        exact .some hfirst
      · have hfield : field.name ≠ name := hfirst.name ▸ hname
        rw [List.find?_cons_of_neg (by simpa using hname),
          List.find?_cons_of_neg (by simpa using hfield)]
        exact ih

/-- No input object is built in. -/
theorem own_of_isInputObject {name : String} {fields : List InputValue} {isOneOf : Bool}
    (hinput : schema.IsInputObject name fields isOneOf) :
    ∃ type ∈ schema.types, schema.type? name = some type ∧ type.name = name ∧
      type.shape = .input fields isOneOf := by
  obtain ⟨type, htype, hname, hshape⟩ := name_of_isInputObject hinput
  refine ⟨type, ?_, htype, hname, hshape⟩
  rcases type?_cases htype with ⟨hbuilt, -⟩ | ⟨-, hown, -⟩
  · have hkind : type.shape.kind = .input := by rw [hshape]; rfl
    have hmem := (BuiltIn.mem_of_type? hbuilt).1
    exact absurd hkind
      ((by decide : ∀ type ∈ BuiltIn.types, type.shape.kind ≠ .input) type hmem)
  · exact hown

theorem eq_of_isInputObject {name : String} {fields others : List InputValue}
    {isOneOf isOther : Bool} (hone : schema.IsInputObject name fields isOneOf)
    (hother : schema.IsInputObject name others isOther) : fields = others ∧ isOneOf = isOther := by
  obtain ⟨rfl, rfl⟩ := Shape.input.inj (Option.some.inj (hone.symm.trans hother))
  exact ⟨rfl, rfl⟩

/-- A field has one constant only. -/
theorem SettlesField.eq {field : InputValue} {told other : SettledField}
    (htold : schema.SettlesField settled field told)
    (hother : schema.SettlesField settled field other) : told = other := by
  have hdefault : told.default = other.default :=
    Except.ok.inj (htold.default.symm.trans hother.default)
  cases told
  cases other
  cases htold.name
  cases htold.type
  cases hother.name
  cases hother.type
  cases hdefault
  rfl

theorem eq_of_settlesFields {inputs : List InputValue} {fields others : List SettledField}
    (hfields : List.Forall₂ (schema.SettlesField settled) inputs fields)
    (hothers : List.Forall₂ (schema.SettlesField settled) inputs others) : fields = others := by
  induction hfields generalizing others with
  | nil =>
      cases hothers
      rfl
  | cons hfirst _ ih =>
      cases hothers with
      | cons hother hrest => rw [hfirst.eq hother, ih hrest]

/-! ## What a settling comes to -/

/-- More is settled, and what was settled is the same. -/
structure Continues (schema : Schema) (settled more : Settled) : Prop where
  isSettlement : schema.IsSettlement more
  extends_ : Extends settled more

theorem Continues.refl (hsettlement : schema.IsSettlement settled) :
    schema.Continues settled settled :=
  ⟨hsettlement, .refl settled⟩

theorem Continues.trans {most : Settled} (hmore : schema.Continues settled more)
    (hmost : schema.Continues more most) : schema.Continues settled most :=
  ⟨hmost.isSettlement, hmore.extends_.trans hmost.extends_⟩

/-- An input object may be settled twice: it comes out the same. -/
theorem continues_cons {name : String} {inputs : List InputValue} {isOneOf : Bool}
    {fields : List SettledField} (hinput : schema.IsInputObject name inputs isOneOf)
    (hsettlement : schema.IsSettlement settled)
    (hfields : List.Forall₂ (schema.SettlesField settled) inputs fields) :
    schema.Continues settled ((name, { fields, isOneOf }) :: settled) := by
  have hextends : Extends settled ((name, { fields, isOneOf }) :: settled) := by
    intro other found hfound
    rw [List.lookup_cons]
    split
    · next heq =>
        obtain rfl := beq_iff_eq.1 heq
        obtain ⟨others, hother, hsettled⟩ := (hsettlement other found hfound).isInputObject
        obtain ⟨rfl, hone⟩ := eq_of_isInputObject hinput hother
        rw [eq_of_settlesFields hfields hsettled, hone]
    · exact hfound
  refine ⟨?_, hextends⟩
  intro other found hfound
  rw [List.lookup_cons] at hfound
  split at hfound
  · next heq =>
      cases hfound
      obtain rfl := beq_iff_eq.1 heq
      exact ⟨inputs, hinput, hfields.imp fun _ _ hfield => hfield.mono hextends⟩
  · exact (hsettlement other found hfound).mono hextends

/-- Whatever settles an input object settles it after others that stay the same. -/
def IsContinuing (schema : Schema) (settle : Settling) : Prop :=
  ∀ name settled more, schema.IsSettlement settled → settle name settled = some more →
    schema.Continues settled more ∧ (more.lookup name).isSome = true

section

variable {settle : Settling}

theorem continues_of_constantBy (hsettle : schema.IsContinuing settle) {input : InputValue}
    {constant : Option Constant} {repetitions : Nat} (hsettlement : schema.IsSettlement settled)
    (htold : schema.constantBy settle input repetitions settled = some (constant, more)) :
    schema.Continues settled more ∧ schema.defaultConstant more input = .ok constant := by
  induction repetitions generalizing settled with
  | zero => contradiction
  | succ repetitions ih =>
      rw [constantBy] at htold
      split at htold
      · next hconstant =>
          cases htold
          exact ⟨.refl hsettlement, hconstant⟩
      · next name _ =>
          obtain ⟨next, hnext, hrest⟩ := Option.bind_eq_some_iff.1 htold
          have hcontinues := (hsettle name settled next hsettlement hnext).1
          obtain ⟨hmore, hconstant⟩ := ih hcontinues.isSettlement hrest
          exact ⟨hcontinues.trans hmore, hconstant⟩

theorem continues_of_fieldsBy (hsettle : schema.IsContinuing settle) {inputs : List InputValue}
    {fields : List SettledField} (hsettlement : schema.IsSettlement settled)
    (htold : schema.fieldsBy settle inputs settled = some (fields, more)) :
    schema.Continues settled more ∧ List.Forall₂ (schema.SettlesField more) inputs fields := by
  induction inputs generalizing settled fields with
  | nil =>
      cases htold
      exact ⟨.refl hsettlement, .nil⟩
  | cons input rest ih =>
      simp only [fieldsBy, Option.bind_eq_bind, Option.bind_eq_some_iff, Prod.exists] at htold
      obtain ⟨constant, next, hconstant, others, last, hothers, heq⟩ := htold
      cases heq
      obtain ⟨hcontinues, hfirst⟩ := continues_of_constantBy hsettle hsettlement hconstant
      obtain ⟨hmore, hrest⟩ := ih hcontinues.isSettlement hothers
      exact ⟨hcontinues.trans hmore, .cons (SettlesField.mono hmore.extends_ ⟨rfl, rfl, hfirst⟩)
        hrest⟩

end

theorem isContinuing_settleWithin (schema : Schema) (room : Nat) :
    schema.IsContinuing (schema.settleWithin room) := by
  induction room with
  | zero =>
      intro name settled more _ hsettled
      contradiction
  | succ room ih =>
      intro name settled more hsettlement hsettled
      rw [settleWithin] at hsettled
      beta_reduce at hsettled
      split at hsettled
      · next named description directives fields isOneOf htype =>
          simp only [Option.bind_eq_bind, Option.bind_eq_some_iff, Prod.exists] at hsettled
          obtain ⟨told, next, htold, heq⟩ := hsettled
          cases heq
          have hinput : schema.IsInputObject name fields isOneOf := by
            rw [IsInputObject, htype]
            rfl
          obtain ⟨hcontinues, hfields⟩ := continues_of_fieldsBy ih hsettlement htold
          refine ⟨hcontinues.trans (continues_cons hinput hcontinues.isSettlement hfields), ?_⟩
          rw [List.lookup_cons, beq_self_eq_true]
          rfl
      · contradiction

section

variable {room : Nat}

theorem continues_of_settleValues {inputs : List InputValue}
    (hsettlement : schema.IsSettlement settled)
    (hmore : schema.settleValues room inputs settled = some more) :
    schema.Continues settled more := by
  obtain ⟨⟨fields, last⟩, hfields, rfl⟩ := Option.map_eq_some_iff.1 hmore
  exact (continues_of_fieldsBy (schema.isContinuing_settleWithin room) hsettlement hfields).1

theorem continues_of_settleType {type : NamedType} (hsettlement : schema.IsSettlement settled)
    (hmore : schema.settleType room settled type = some more) :
    schema.Continues settled more ∧
      (type.shape.kind = .input → (more.lookup type.name).isSome = true) := by
  unfold settleType at hmore
  split at hmore
  · next hshape =>
      exact ⟨continues_of_settleValues hsettlement hmore, by simp [hshape, Shape.kind]⟩
  · next hshape =>
      exact ⟨continues_of_settleValues hsettlement hmore, by simp [hshape, Shape.kind]⟩
  · split_ifs at hmore with hthere
    · cases hmore
      exact ⟨.refl hsettlement, fun _ => hthere⟩
    · exact (schema.isContinuing_settleWithin room _ _ _ hsettlement hmore).imp id
        fun hsome _ => hsome
  · next hinput =>
      cases hmore
      refine ⟨.refl hsettlement, fun hkind => ?_⟩
      cases hshape : type.shape <;> rw [hshape] at hkind <;> try contradiction
      exact absurd hshape (hinput _ _)

theorem continues_of_settleTypes {types : List NamedType}
    (hsettlement : schema.IsSettlement settled)
    (hmore : types.foldlM (schema.settleType room) settled = some more) :
    schema.Continues settled more ∧
      ∀ type ∈ types, type.shape.kind = .input → (more.lookup type.name).isSome = true := by
  induction types generalizing settled with
  | nil =>
      cases hmore
      exact ⟨.refl hsettlement, by simp⟩
  | cons type rest ih =>
      rw [List.foldlM_cons] at hmore
      obtain ⟨next, hnext, hrest⟩ := Option.bind_eq_some_iff.1 hmore
      obtain ⟨hcontinues, hfirst⟩ := continues_of_settleType hsettlement hnext
      obtain ⟨hlater, hall⟩ := ih hcontinues.isSettlement hrest
      refine ⟨hcontinues.trans hlater, List.forall_mem_cons.2 ⟨fun hkind => ?_, hall⟩⟩
      obtain ⟨input, hinput⟩ := Option.isSome_iff_exists.1 (hfirst hkind)
      rw [hlater.extends_ _ _ hinput]
      rfl

/-- Everything that there is to settle has the constants of its defaults. -/
structure Settles (schema : Schema) (settled : Settled) : Prop where
  isSettlement : schema.IsSettlement settled
  all : ∀ name fields isOneOf, schema.IsInputObject name fields isOneOf →
    (settled.lookup name).isSome = true

theorem isSettlement_nil (schema : Schema) : schema.IsSettlement [] := by
  simp [IsSettlement]

/-- What settles has all of its input objects settled. -/
theorem settles_of_settledInputs? (hsettled : schema.settledInputs? room = some settled) :
    schema.Settles settled := by
  obtain ⟨first, hfirst, hrest⟩ := Option.bind_eq_some_iff.1 hsettled
  have hcontinues := continues_of_settleValues schema.isSettlement_nil hfirst
  obtain ⟨hlater, hall⟩ := continues_of_settleTypes hcontinues.isSettlement hrest
  refine ⟨hlater.isSettlement, ?_⟩
  intro name fields isOneOf hinput
  obtain ⟨type, hown, -, rfl, hshape⟩ := own_of_isInputObject hinput
  exact hall type hown (by rw [hshape]; rfl)

end

end Schema

end ConfigSchema
