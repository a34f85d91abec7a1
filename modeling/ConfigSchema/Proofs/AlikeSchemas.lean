import ConfigSchema.Proofs.TypeOrder
import ConfigSchema.Schema.Settling
import Mathlib.Data.List.Forall2
import Mathlib.Data.Option.Basic

/-!
# Schemas that take the same literals

What a literal stands for depends on the kinds of types, on the names of enumeration values and on
the input objects that are settled.  Schemas that do not differ in these, nor in the input values
of their parts, settle alike.
-/

namespace ConfigSchema

/-- The reference of the items of a list. -/
def TypeRef.item? : TypeRef → Option TypeRef
  | .list item => some item
  | .required (.list item) => some item
  | _ => none

def Sdl.Value.isVariable : Sdl.Value → Bool
  | .variable _ => true
  | _ => false

namespace Schema

def Shape.valueNames : Shape → List String
  | .enum values => values.map (·.name)
  | _ => []

/-- Two types take the same literals, apart from objects that have to be settled. -/
structure NamedType.TakesAlike (one other : NamedType) : Prop where
  name : one.name = other.name
  kind : one.shape.kind = other.shape.kind
  values : one.shape.valueNames = other.shape.valueNames

/-- The names of two schemas stand for types that take the same literals. -/
def TakesAlike (one other : Schema) : Prop :=
  ∀ name, Option.Rel NamedType.TakesAlike (one.type? name) (other.type? name)

variable {one other : Schema} {first second : NamedType}

/-! ## The cases of fitting -/

section

variable {schema : Schema} {settled : Settled}

theorem fit_list (ref : TypeRef) (items : List Sdl.Value) :
    fit schema settled ref (.list items) =
      match ref.item? with
      | some item => (fitAll schema settled item items).map .list
      | none =>
          match schema.type? ref.base with
          | some type => if takesCompounds type then .ok .compound else .error .type
          | none => .error .type := by
  cases ref with
  | named name => rfl
  | list item => rfl
  | required of => cases of <;> rfl

theorem fitAll_variable {item : TypeRef} {value : Sdl.Value} (hvariable : value.isVariable = true)
    (rest : List Sdl.Value) :
    fitAll schema settled item (value :: rest) =
      if item.isRequired then .error .type
      else (fitAll schema settled item rest).map (.null :: ·) := by
  cases value <;> first | rfl | contradiction

theorem fitAll_cons {item : TypeRef} {value : Sdl.Value} (hvariable : value.isVariable = false)
    (rest : List Sdl.Value) :
    fitAll schema settled item (value :: rest) =
      match fit schema settled item value with
      | .error e => .error e
      | .ok constant => (fitAll schema settled item rest).map (constant :: ·) := by
  cases value <;> first | rfl | contradiction

theorem fitFields_cons (input : SettledInput) (name : String) (value : Sdl.Value)
    (rest : List (String × Sdl.Value)) :
    fitFields schema settled input ((name, value) :: rest) =
      if rest.any (·.1 = name) then fitFields schema settled input rest
      else
        (((input.fields.find? (·.name = name)).filter fun _ => !value.isVariable).map fun field =>
            (name, fit schema settled field.type value)).toList ++
          fitFields schema settled input rest := by
  rw [fitFields.eq_def]
  dsimp only
  cases value <;> cases input.fields.find? (·.name = name) <;> rfl

end

/-! ## Fitting -/

theorem NamedType.TakesAlike.takesCompounds_eq (halike : first.TakesAlike second) :
    takesCompounds first = takesCompounds second := by
  obtain ⟨hname, hkind, -⟩ := halike
  unfold takesCompounds
  rw [hname]
  cases hfirst : first.shape <;> cases hsecond : second.shape <;>
    simp_all [Shape.kind]

theorem NamedType.TakesAlike.fitPlain_eq (halike : first.TakesAlike second) (value : Sdl.Value) :
    fitPlain first value = fitPlain second value := by
  obtain ⟨hname, hkind, hvalues⟩ := halike
  cases hfirst : first.shape <;> cases hsecond : second.shape <;>
    simp only [hfirst, hsecond, Shape.kind, reduceCtorEq] at hkind <;>
    simp only [fitPlain, hfirst, hsecond, hname]
  next values others =>
    have hany : ∀ name, (values.any fun value => decide (value.name = name)) =
        others.any fun value => decide (value.name = name) := by
      intro name
      have hnames : values.map (·.name) = others.map (·.name) := by
        simpa [hfirst, hsecond, Shape.valueNames] using hvalues
      have hmap := congrArg (fun names => names.any fun found => decide (found = name)) hnames
      simpa [List.any_map, Function.comp_def] using hmap
    cases value <;> simp only [hany]

theorem TakesAlike.type?_cases (halike : one.TakesAlike other) (name : String) :
    one.type? name = none ∧ other.type? name = none ∨
      ∃ first second, one.type? name = some first ∧ other.type? name = some second ∧
        first.TakesAlike second := by
  have hrel := halike name
  generalize one.type? name = found at hrel ⊢
  generalize other.type? name = another at hrel ⊢
  cases hrel with
  | none => exact .inl ⟨rfl, rfl⟩
  | some hboth => exact .inr ⟨_, _, rfl, rfl, hboth⟩

/-- A value that is neither null nor a list nor an object fits alike. -/
theorem TakesAlike.fit_plain_eq (halike : one.TakesAlike other) (settled : Settled) (ref : TypeRef)
    {value : Sdl.Value}
    (hplain : ∀ schema : Schema, fit schema settled ref value =
      match schema.type? ref.base with
      | none => .error .type
      | some type =>
          match fitPlain type value with
          | some constant => .ok (underLists ref.listDepth constant)
          | none => .error .type) :
    fit one settled ref value = fit other settled ref value := by
  rw [hplain one, hplain other]
  rcases halike.type?_cases ref.base with ⟨hone, hother⟩ | ⟨first, second, hone, hother, hboth⟩
  · rw [hone, hother]
  · rw [hone, hother]
    simp only [hboth.fitPlain_eq]

mutual

theorem TakesAlike.fit_eq (halike : one.TakesAlike other) (settled : Settled) (ref : TypeRef) :
    (value : Sdl.Value) → fit one settled ref value = fit other settled ref value
  | .variable _ => by rw [fit, fit]
  | .null => by rw [fit, fit]
  | .list items => by
      have hitems := fun item => halike.fitAll_eq settled item items
      rw [fit_list, fit_list]
      cases ref.item? with
      | some item => simp only [hitems]
      | none =>
          rcases halike.type?_cases ref.base with
            ⟨hone, hother⟩ | ⟨first, second, hone, hother, hboth⟩
          · rw [hone, hother]
          · rw [hone, hother]
            simp only [hboth.takesCompounds_eq]
  | .object fields => by
      have hfields := fun input => halike.fitFields_eq settled input fields
      rw [fit, fit]
      rcases halike.type?_cases ref.base with
        ⟨hone, hother⟩ | ⟨first, second, hone, hother, hboth⟩
      · rw [hone, hother]
      · rw [hone, hother]
        have hkind := hboth.kind
        have hcompounds := hboth.takesCompounds_eq
        dsimp only
        cases hfirst : first.shape <;> cases hsecond : second.shape <;>
          simp only [hfirst, hsecond, Shape.kind, reduceCtorEq] at hkind <;>
          simp only [hcompounds, hboth.name, hfields]
  | .int _ => halike.fit_plain_eq settled ref fun _ => rfl
  | .float _ => halike.fit_plain_eq settled ref fun _ => rfl
  | .string _ => halike.fit_plain_eq settled ref fun _ => rfl
  | .boolean _ => halike.fit_plain_eq settled ref fun _ => rfl
  | .enum _ => halike.fit_plain_eq settled ref fun _ => rfl

theorem TakesAlike.fitAll_eq (halike : one.TakesAlike other) (settled : Settled) (item : TypeRef) :
    (values : List Sdl.Value) →
      fitAll one settled item values = fitAll other settled item values
  | [] => by rw [fitAll, fitAll]
  | value :: rest => by
      have hvalue := halike.fit_eq settled item value
      have hrest := halike.fitAll_eq settled item rest
      cases hvariable : value.isVariable with
      | true => rw [fitAll_variable hvariable, fitAll_variable hvariable, hrest]
      | false => rw [fitAll_cons hvariable, fitAll_cons hvariable, hvalue, hrest]

theorem TakesAlike.fitFields_eq (halike : one.TakesAlike other) (settled : Settled)
    (input : SettledInput) : (fields : List (String × Sdl.Value)) →
      fitFields one settled input fields = fitFields other settled input fields
  | [] => by rw [fitFields, fitFields]
  | (name, value) :: rest => by
      have hvalue := fun ref => halike.fit_eq settled ref value
      have hrest := halike.fitFields_eq settled input rest
      rw [fitFields_cons, fitFields_cons, hrest]
      simp only [hvalue]

end

/-! ## Settling -/

/-- Two shapes with the same input values, values of enumerations and fields. -/
inductive Shape.SettlesAlike : Shape → Shape → Prop
  | scalar (one other : Option String) : SettlesAlike (.scalar one) (.scalar other)
  | object (one other : List String) (fields : List Field) :
      SettlesAlike (.object one fields) (.object other fields)
  | interface (one other : List String) (fields : List Field) :
      SettlesAlike (.interface one fields) (.interface other fields)
  | union (one other : List String) : SettlesAlike (.union one) (.union other)
  | enum (values : List EnumValue) : SettlesAlike (.enum values) (.enum values)
  | input (fields : List InputValue) (isOneOf : Bool) :
      SettlesAlike (.input fields isOneOf) (.input fields isOneOf)

theorem Shape.SettlesAlike.refl (shape : Shape) : shape.SettlesAlike shape := by
  cases shape <;> constructor

/-- Two types of one name that settle alike. -/
structure NamedType.SettlesAlike (one other : NamedType) : Prop where
  name : one.name = other.name
  shape : one.shape.SettlesAlike other.shape

theorem NamedType.SettlesAlike.takesAlike (halike : first.SettlesAlike second) :
    first.TakesAlike second := by
  obtain ⟨hname, hshape⟩ := halike
  refine ⟨hname, ?_, ?_⟩ <;>
    (generalize first.shape = one at hshape
     generalize second.shape = other at hshape
     cases hshape <;> rfl)

/-- Two schemas have the same directives and, in the same order, types that settle alike. -/
structure SettlesAlike (one other : Schema) : Prop where
  types : List.Forall₂ NamedType.SettlesAlike one.types other.types
  directives : one.directives = other.directives

theorem find?_of_settlesAlike {types others : List NamedType}
    (halike : List.Forall₂ NamedType.SettlesAlike types others) (name : String) :
    Option.Rel NamedType.SettlesAlike (types.find? fun type => decide (type.name = name))
      (others.find? fun type => decide (type.name = name)) := by
  induction halike with
  | nil => exact .none
  | @cons type other _ _ hfirst _ ih =>
      by_cases hname : type.name = name
      · have hother : other.name = name := hfirst.name ▸ hname
        rw [List.find?_cons_of_pos (by simpa using hname),
          List.find?_cons_of_pos (by simpa using hother)]
        exact .some hfirst
      · have hother : other.name ≠ name := hfirst.name ▸ hname
        rw [List.find?_cons_of_neg (by simpa using hname),
          List.find?_cons_of_neg (by simpa using hother)]
        exact ih

theorem SettlesAlike.type? (halike : one.SettlesAlike other) (name : String) :
    Option.Rel NamedType.SettlesAlike (one.type? name) (other.type? name) := by
  unfold Schema.type?
  cases BuiltIn.type? name with
  | some type => exact .some ⟨rfl, Shape.SettlesAlike.refl _⟩
  | none => simpa using find?_of_settlesAlike halike.types name

theorem SettlesAlike.type?_cases (halike : one.SettlesAlike other) (name : String) :
    one.type? name = none ∧ other.type? name = none ∨
      ∃ first second, one.type? name = some first ∧ other.type? name = some second ∧
        first.SettlesAlike second := by
  have hrel := halike.type? name
  generalize one.type? name = found at hrel ⊢
  generalize other.type? name = another at hrel ⊢
  cases hrel with
  | none => exact .inl ⟨rfl, rfl⟩
  | some hboth => exact .inr ⟨_, _, rfl, rfl, hboth⟩

theorem SettlesAlike.takesAlike (halike : one.SettlesAlike other) : one.TakesAlike other := by
  intro name
  rcases halike.type?_cases name with ⟨hone, hother⟩ | ⟨first, second, hone, hother, hboth⟩
  · rw [hone, hother]
    exact .none
  · rw [hone, hother]
    exact .some hboth.takesAlike

theorem SettlesAlike.defaultConstant_eq (halike : one.SettlesAlike other) (settled : Settled)
    (input : InputValue) :
    one.defaultConstant settled input = other.defaultConstant settled input := by
  unfold defaultConstant
  cases input.default with
  | none => rfl
  | some value => simp only [halike.takesAlike.fit_eq]

theorem SettlesAlike.constantBy_eq (halike : one.SettlesAlike other) (settle : Settling)
    (input : InputValue) (repetitions : Nat) (settled : Settled) :
    one.constantBy settle input repetitions settled =
      other.constantBy settle input repetitions settled := by
  induction repetitions generalizing settled with
  | zero => rfl
  | succ repetitions ih =>
      rw [constantBy, constantBy, halike.defaultConstant_eq]
      cases other.defaultConstant settled input with
      | ok constant => rfl
      | error name => simp only [ih]

theorem SettlesAlike.inputCount_eq (halike : one.SettlesAlike other) :
    one.inputCount = other.inputCount := by
  have hcount : ∀ {types others : List NamedType},
      List.Forall₂ NamedType.SettlesAlike types others →
        types.countP (fun type => type.shape.kind = .input) =
          others.countP fun type => type.shape.kind = .input := by
    intro types others htypes
    induction htypes with
    | nil => rfl
    | cons hfirst _ ih => rw [List.countP_cons, List.countP_cons, ih, hfirst.takesAlike.kind]
  exact hcount halike.types

theorem SettlesAlike.fieldsBy_eq (halike : one.SettlesAlike other) (settle : Settling)
    (fields : List InputValue) (settled : Settled) :
    one.fieldsBy settle fields settled = other.fieldsBy settle fields settled := by
  induction fields generalizing settled with
  | nil => rfl
  | cons field rest ih => simp only [fieldsBy, halike.inputCount_eq, halike.constantBy_eq, ih]

theorem SettlesAlike.settleWithin_eq (halike : one.SettlesAlike other) (room : Nat) :
    one.settleWithin room = other.settleWithin room := by
  induction room with
  | zero => rfl
  | succ room ih =>
      funext name settled
      rw [settleWithin, settleWithin, ih]
      beta_reduce
      rcases halike.type?_cases name with
        ⟨hone, hother⟩ | ⟨⟨_, _, _, shape⟩, ⟨_, _, _, another⟩, hone, hother, -, hshape⟩
      · rw [hone, hother]
      · rw [hone, hother]
        cases hshape <;> simp only [halike.fieldsBy_eq]

theorem SettlesAlike.settleValues_eq (halike : one.SettlesAlike other) (room : Nat)
    (values : List InputValue) (settled : Settled) :
    one.settleValues room values settled = other.settleValues room values settled := by
  unfold settleValues
  rw [halike.settleWithin_eq, halike.fieldsBy_eq]

theorem SettlesAlike.settleType_eq (halike : one.SettlesAlike other)
    (hsame : first.SettlesAlike second) (room : Nat) (settled : Settled) :
    one.settleType room settled first = other.settleType room settled second := by
  obtain ⟨hname, hshape⟩ := hsame
  unfold settleType
  rw [hname, halike.settleWithin_eq]
  generalize first.shape = shape at hshape
  generalize second.shape = another at hshape
  cases hshape <;> simp only [halike.settleValues_eq]

theorem SettlesAlike.settledInputs?_eq (halike : one.SettlesAlike other) (room : Nat) :
    one.settledInputs? room = other.settledInputs? room := by
  have hfold : ∀ {types others : List NamedType},
      List.Forall₂ NamedType.SettlesAlike types others → ∀ settled,
        types.foldlM (one.settleType room) settled =
          others.foldlM (other.settleType room) settled := by
    intro types others htypes
    induction htypes with
    | nil =>
        intro settled
        rw [List.foldlM_nil, List.foldlM_nil]
    | cons hfirst _ ih =>
        intro settled
        rw [List.foldlM_cons, List.foldlM_cons, halike.settleType_eq hfirst]
        simp only [ih]
  unfold settledInputs?
  rw [halike.directives, halike.settleValues_eq]
  simp only [hfold halike.types]

end Schema

end ConfigSchema
