import ConfigSchema.Proofs.PlainLiterals
import ConfigSchema.Proofs.SettledInputs

/-!
# Normal literals

A normal literal gives every field that has a default, in the order of the fields.  Printed and read
again it fits again, whatever the defaults of the fields are then.  The literal that comes out
matches it: the same lists and objects have the same fields, and where one has a plain value, so has
the other.
-/

namespace ConfigSchema

theorem TypeRef.base_of_item? {ref item : TypeRef} (hitem : ref.item? = some item) :
    item.base = ref.base := by
  cases ref with
  | named _ => contradiction
  | list of =>
      cases hitem
      rfl
  | required of =>
      cases of <;> cases hitem
      rfl

theorem TypeRef.IsProper.of_item? {ref item : TypeRef} (hproper : ref.IsProper)
    (hitem : ref.item? = some item) : item.IsProper := by
  cases ref with
  | named _ => contradiction
  | list of =>
      cases hitem
      exact hproper
  | required of =>
      cases of <;> cases hitem
      exact hproper.2

namespace Sdl

theorem fieldNames_of_isPlain {v : Value} (hplain : v.isPlain = true) : v.fieldNames = [] := by
  cases v <;> first | rfl | contradiction

theorem depth_of_isPlain {v : Value} (hplain : v.isPlain = true) : v.depth = 0 := by
  cases v <;> first | rfl | contradiction

theorem ne_null_of_isPlain {v : Value} (hplain : v.isPlain = true) : v ≠ .null := by
  rintro rfl
  contradiction

theorem isPlain_reread {v : Value} (hplain : v.isPlain = true) : v.reread.isPlain = true := by
  cases v with
  | float text =>
      rw [Value.reread]
      split <;> rfl
  | _ => first | rfl | contradiction

theorem eq_null_of_reread {v : Value} (hnull : v.reread = .null) : v = .null := by
  cases v with
  | float text =>
      rw [Value.reread] at hnull
      split at hnull <;> contradiction
  | _ => first | rfl | contradiction

theorem isVariable_of_isPlain {v : Value} (hplain : v.isPlain = true) : v.isVariable = false := by
  cases v <;> first | rfl | contradiction

theorem names_rereadFields (fields : List (String × Value)) :
    (rereadFields fields).map (·.1) = fields.map (·.1) := by
  induction fields with
  | nil => rfl
  | cons field rest ih => rw [rereadFields, List.map_cons, List.map_cons, ih]

mutual

theorem Value.fieldNames_reread : (v : Value) → v.reread.fieldNames = v.fieldNames
  | .float text => by
      rw [Value.reread]
      split <;> rfl
  | .list items => fieldNamesOfAll_reread items
  | .object fields => by
      rw [Value.reread, Value.fieldNames, Value.fieldNames, names_rereadFields,
        fieldNamesOfFields_reread fields]
  | .variable _ => rfl
  | .null => rfl
  | .int _ => rfl
  | .string _ => rfl
  | .boolean _ => rfl
  | .enum _ => rfl

theorem fieldNamesOfAll_reread : (items : List Value) →
    fieldNamesOfAll (rereadAll items) = fieldNamesOfAll items
  | [] => rfl
  | v :: rest => by
      rw [rereadAll, fieldNamesOfAll, fieldNamesOfAll, v.fieldNames_reread,
        fieldNamesOfAll_reread rest]

theorem fieldNamesOfFields_reread : (fields : List (String × Value)) →
    fieldNamesOfFields (rereadFields fields) = fieldNamesOfFields fields
  | [] => rfl
  | (name, v) :: rest => by
      rw [rereadFields, fieldNamesOfFields, fieldNamesOfFields, v.fieldNames_reread,
        fieldNamesOfFields_reread rest]

end

end Sdl

namespace Schema

variable {schema : Schema} {settled : Settled}

/-! ## Literals that match -/

/-- The type of a field of an input object. -/
def fieldType? (schema : Schema) (base name : String) : Option TypeRef :=
  match (schema.type? base).map NamedType.shape with
  | some (.input inputs _) => (inputs.find? (·.name = name)).map (·.type)
  | _ => none

theorem fieldType?_of_isInputObject {base : String} {inputs : List InputValue} {isOneOf : Bool}
    (hinput : schema.IsInputObject base inputs isOneOf) (name : String) :
    schema.fieldType? base name = (inputs.find? (·.name = name)).map (·.type) := by
  rw [fieldType?, hinput]

mutual

/-- Two literals at a type have the same lists and objects, and plain values that fit in the same
places. -/
inductive Matches (schema : Schema) : TypeRef → Sdl.Value → Sdl.Value → Prop
  | null (ref : TypeRef) : Matches schema ref .null .null
  | plain {ref : TypeRef} {v w : Sdl.Value} {type : NamedType} (hv : v.isPlain = true)
      (hw : w.isPlain = true) (htype : schema.type? ref.base = some type)
      (hfits : (fitPlain type v).isSome = true) (hagain : (fitPlain type w).isSome = true) :
      Matches schema ref v w
  | list {ref item : TypeRef} {items others : List Sdl.Value} (hitem : ref.item? = some item)
      (hitems : AllMatch schema item items others) :
      Matches schema ref (.list items) (.list others)
  | object {ref : TypeRef} {fields others : List (String × Sdl.Value)}
      (hfields : FieldsMatch schema (schema.fieldType? ref.base) fields others) :
      Matches schema ref (.object fields) (.object others)

inductive AllMatch (schema : Schema) : TypeRef → List Sdl.Value → List Sdl.Value → Prop
  | nil (item : TypeRef) : AllMatch schema item [] []
  | cons {item : TypeRef} {v w : Sdl.Value} {rest others : List Sdl.Value}
      (hfirst : Matches schema item v w) (hrest : AllMatch schema item rest others) :
      AllMatch schema item (v :: rest) (w :: others)

/-- Fields of the same names, with values that match at the types of the fields. -/
inductive FieldsMatch (schema : Schema) : (String → Option TypeRef) →
    List (String × Sdl.Value) → List (String × Sdl.Value) → Prop
  | nil (typeOf : String → Option TypeRef) : FieldsMatch schema typeOf [] []
  | cons {typeOf : String → Option TypeRef} {name : String} {ref : TypeRef} {v w : Sdl.Value}
      {rest others : List (String × Sdl.Value)} (htype : typeOf name = some ref)
      (hfirst : Matches schema ref v w) (hrest : FieldsMatch schema typeOf rest others) :
      FieldsMatch schema typeOf ((name, v) :: rest) ((name, w) :: others)

end

theorem Matches.eq_null_iff {ref : TypeRef} {v w : Sdl.Value} (hmatch : schema.Matches ref v w) :
    w = .null ↔ v = .null := by
  cases hmatch with
  | null => simp
  | plain hv hw => simp [Sdl.ne_null_of_isPlain hv, Sdl.ne_null_of_isPlain hw]
  | list => simp
  | object => simp

theorem Matches.isVariable {ref : TypeRef} {v w : Sdl.Value} (hmatch : schema.Matches ref v w) :
    v.isVariable = false ∧ w.isVariable = false := by
  cases hmatch with
  | null => exact ⟨rfl, rfl⟩
  | plain hv hw => exact ⟨Sdl.isVariable_of_isPlain hv, Sdl.isVariable_of_isPlain hw⟩
  | list => exact ⟨rfl, rfl⟩
  | object => exact ⟨rfl, rfl⟩

theorem FieldsMatch.names_eq {typeOf : String → Option TypeRef}
    {fields others : List (String × Sdl.Value)} :
    schema.FieldsMatch typeOf fields others → others.map (·.1) = fields.map (·.1)
  | .nil _ => rfl
  | .cons _ _ hrest => congrArg (_ :: ·) hrest.names_eq

mutual

theorem Matches.depth_eq {ref : TypeRef} {v w : Sdl.Value} :
    schema.Matches ref v w → w.depth = v.depth
  | .null _ => rfl
  | .plain hv hw _ _ _ => by rw [Sdl.depth_of_isPlain hv, Sdl.depth_of_isPlain hw]
  | .list _ hitems => congrArg (· + 1) hitems.depth_eq
  | .object hfields => congrArg (· + 1) hfields.depth_eq

theorem AllMatch.depth_eq {item : TypeRef} {items others : List Sdl.Value} :
    schema.AllMatch item items others → Sdl.depthOfAll others = Sdl.depthOfAll items
  | .nil _ => rfl
  | .cons hfirst hrest => by
      rw [Sdl.depthOfAll, Sdl.depthOfAll, hfirst.depth_eq, hrest.depth_eq]

theorem FieldsMatch.depth_eq {typeOf : String → Option TypeRef}
    {fields others : List (String × Sdl.Value)} :
    schema.FieldsMatch typeOf fields others → Sdl.depthOfFields others = Sdl.depthOfFields fields
  | .nil _ => rfl
  | .cons _ hfirst hrest => by
      rw [Sdl.depthOfFields, Sdl.depthOfFields, hfirst.depth_eq, hrest.depth_eq]

end

mutual

theorem Matches.fieldNames_eq {ref : TypeRef} {v w : Sdl.Value} :
    schema.Matches ref v w → w.fieldNames = v.fieldNames
  | .null _ => rfl
  | .plain hv hw _ _ _ => by rw [Sdl.fieldNames_of_isPlain hv, Sdl.fieldNames_of_isPlain hw]
  | .list _ hitems => hitems.fieldNames_eq
  | .object hfields => by
      rw [Sdl.Value.fieldNames, Sdl.Value.fieldNames, hfields.names_eq, hfields.fieldNames_eq]

theorem AllMatch.fieldNames_eq {item : TypeRef} {items others : List Sdl.Value} :
    schema.AllMatch item items others → Sdl.fieldNamesOfAll others = Sdl.fieldNamesOfAll items
  | .nil _ => rfl
  | .cons hfirst hrest => by
      rw [Sdl.fieldNamesOfAll, Sdl.fieldNamesOfAll, hfirst.fieldNames_eq, hrest.fieldNames_eq]

theorem FieldsMatch.fieldNames_eq {typeOf : String → Option TypeRef}
    {fields others : List (String × Sdl.Value)} :
    schema.FieldsMatch typeOf fields others →
      Sdl.fieldNamesOfFields others = Sdl.fieldNamesOfFields fields
  | .nil _ => rfl
  | .cons _ hfirst hrest => by
      rw [Sdl.fieldNamesOfFields, Sdl.fieldNamesOfFields, hfirst.fieldNames_eq,
        hrest.fieldNames_eq]

end

/-! ## Normal literals -/

mutual

/-- A literal at a type whose objects give every field that has a default. -/
inductive IsNormal [Runtime] (schema : Schema) (settled : Settled) : TypeRef → Sdl.Value → Prop
  | null {ref : TypeRef} (hrequired : ref.isRequired = false) : IsNormal schema settled ref .null
  | plain {ref : TypeRef} {v : Sdl.Value} {type : NamedType} (hdepth : ref.listDepth = 0)
      (htype : schema.type? ref.base = some type) (hplain : IsPlainAt type v) :
      IsNormal schema settled ref v
  | list {ref item : TypeRef} {items : List Sdl.Value} (hitem : ref.item? = some item)
      (hitems : AreNormal schema settled item items) : IsNormal schema settled ref (.list items)
  | object {ref : TypeRef} {input : SettledInput} {fields : List (String × Sdl.Value)}
      (hdepth : ref.listDepth = 0) (hlookup : settled.lookup ref.base = some input)
      (hfields : AreNormalFields schema settled input.fields fields)
      (hsingle : input.isOneOf = true → ∃ name v, fields = [(name, v)] ∧ v ≠ .null) :
      IsNormal schema settled ref (.object fields)

inductive AreNormal [Runtime] (schema : Schema) (settled : Settled) :
    TypeRef → List Sdl.Value → Prop
  | nil {item : TypeRef} : AreNormal schema settled item []
  | cons {item : TypeRef} {v : Sdl.Value} {rest : List Sdl.Value}
      (hfirst : IsNormal schema settled item v) (hrest : AreNormal schema settled item rest) :
      AreNormal schema settled item (v :: rest)

/-- The values of the fields of an input object, in order; what is left out has no default and is
not required. -/
inductive AreNormalFields [Runtime] (schema : Schema) (settled : Settled) :
    List SettledField → List (String × Sdl.Value) → Prop
  | nil : AreNormalFields schema settled [] []
  | given {field : SettledField} {rest : List SettledField} {v : Sdl.Value}
      {others : List (String × Sdl.Value)} (hfirst : IsNormal schema settled field.type v)
      (hrest : AreNormalFields schema settled rest others) :
      AreNormalFields schema settled (field :: rest) ((field.name, v) :: others)
  | left {field : SettledField} {rest : List SettledField} {others : List (String × Sdl.Value)}
      (hdefault : field.default = none) (hrequired : field.type.isRequired = false)
      (hrest : AreNormalFields schema settled rest others) :
      AreNormalFields schema settled (field :: rest) others

end

/-- The fields of an input object have different names, which are names of the language, and types
that can be written. -/
structure SettledInput.IsProper (input : SettledInput) : Prop where
  names : ∀ field ∈ input.fields, Introspection.isName field.name = true
  nodup : (input.fields.map (·.name)).Nodup
  types : ∀ field ∈ input.fields, field.type.IsProper

def Settled.IsProper (settled : Settled) : Prop :=
  ∀ name input, settled.lookup name = some input → input.IsProper

mutual

theorem IsNormal.isPrintable [Runtime] (hproper : settled.IsProper) {ref : TypeRef}
    {v : Sdl.Value} :
    IsNormal schema settled ref v → v.IsPrintable
  | .null _ => trivial
  | .plain _ _ hplain => hplain.isPrintable
  | .list _ hitems => hitems.arePrintable hproper
  | .object _ hlookup hfields _ => hfields.arePrintable hproper (hproper _ _ hlookup).names

theorem AreNormal.arePrintable [Runtime] (hproper : settled.IsProper) {item : TypeRef}
    {items : List Sdl.Value} :
    AreNormal schema settled item items → Sdl.ArePrintable items
  | .nil => trivial
  | .cons hfirst hrest => ⟨hfirst.isPrintable hproper, hrest.arePrintable hproper⟩

theorem AreNormalFields.arePrintable [Runtime] (hproper : settled.IsProper)
    {inputs : List SettledField} {fields : List (String × Sdl.Value)}
    (hinputs : ∀ field ∈ inputs, Introspection.isName field.name = true) :
    AreNormalFields schema settled inputs fields → Sdl.ArePrintableFields fields
  | .nil => trivial
  | .given hfirst hrest =>
      ⟨hinputs _ List.mem_cons_self, hfirst.isPrintable hproper,
        hrest.arePrintable hproper (List.forall_mem_cons.1 hinputs).2⟩
  | .left _ _ hrest => hrest.arePrintable hproper (List.forall_mem_cons.1 hinputs).2

end

theorem AreNormalFields.sublist [Runtime] {inputs : List SettledField}
    {fields : List (String × Sdl.Value)} :
    AreNormalFields schema settled inputs fields →
      (fields.map (·.1)).Sublist (inputs.map (·.name))
  | .nil => .slnil
  | .given _ hrest => hrest.sublist.cons_cons _
  | .left _ _ hrest => hrest.sublist.cons _

mutual

/-- No object of a normal literal gives a field twice. -/
theorem IsNormal.nodup_fieldNames [Runtime] (hproper : settled.IsProper) {ref : TypeRef}
    {v : Sdl.Value} :
    IsNormal schema settled ref v → ∀ names ∈ v.fieldNames, names.Nodup
  | .null _ => by simp [Sdl.Value.fieldNames]
  | .plain _ _ hplain => by simp [Sdl.fieldNames_of_isPlain hplain.isPlain]
  | .list _ hitems => hitems.nodup_fieldNames hproper
  | .object _ hlookup hfields _ =>
      List.forall_mem_cons.2 ⟨(hproper _ _ hlookup).nodup.sublist hfields.sublist,
        hfields.nodup_fieldNames hproper⟩

theorem AreNormal.nodup_fieldNames [Runtime] (hproper : settled.IsProper) {item : TypeRef}
    {items : List Sdl.Value} :
    AreNormal schema settled item items → ∀ names ∈ Sdl.fieldNamesOfAll items, names.Nodup
  | .nil => by simp [Sdl.fieldNamesOfAll]
  | .cons hfirst hrest =>
      List.forall_mem_append.2 ⟨hfirst.nodup_fieldNames hproper, hrest.nodup_fieldNames hproper⟩

theorem AreNormalFields.nodup_fieldNames [Runtime] (hproper : settled.IsProper)
    {inputs : List SettledField} {fields : List (String × Sdl.Value)} :
    AreNormalFields schema settled inputs fields →
      ∀ names ∈ Sdl.fieldNamesOfFields fields, names.Nodup
  | .nil => by simp [Sdl.fieldNamesOfFields]
  | .given hfirst hrest =>
      List.forall_mem_append.2 ⟨hfirst.nodup_fieldNames hproper, hrest.nodup_fieldNames hproper⟩
  | .left _ _ hrest => hrest.nodup_fieldNames hproper

end

/-! ## Fitting again -/

theorem fit_of_isPlain {ref : TypeRef} {v : Sdl.Value} (hplain : v.isPlain = true) :
    fit schema settled ref v =
      match schema.type? ref.base with
      | none => .error .type
      | some type =>
          match fitPlain type v with
          | some constant => .ok (underLists ref.listDepth constant)
          | none => .error .type := by
  cases v <;> first | rfl | contradiction

theorem IsNormal.isVariable_reread [Runtime] {ref : TypeRef} {v : Sdl.Value}
    (hnormal : IsNormal schema settled ref v) : v.reread.isVariable = false := by
  cases hnormal with
  | plain _ _ hplain =>
      exact Sdl.isVariable_of_isPlain (Sdl.isPlain_reread hplain.isPlain)
  | _ => rfl

/-- A field that has no default unless the other one has. -/
structure SettledField.RetoldBy (field again : SettledField) : Prop where
  name : again.name = field.name
  type : again.type = field.type
  default : field.default = none → again.default = none

/-- The same input objects are settled again, with defaults for no other fields. -/
structure SettledInput.RetoldBy (input again : SettledInput) : Prop where
  isOneOf : again.isOneOf = input.isOneOf
  fields : List.Forall₂ SettledField.RetoldBy input.fields again.fields

structure Retells (schema : Schema) (settled more : Settled) : Prop where
  isInputObject : ∀ name input, settled.lookup name = some input →
    ∃ fields isOneOf, schema.IsInputObject name fields isOneOf
  fieldType? : ∀ name input, settled.lookup name = some input → ∀ field ∈ input.fields,
    schema.fieldType? name field.name = some field.type
  again : ∀ name input, settled.lookup name = some input →
    ∃ again, more.lookup name = some again ∧ input.RetoldBy again

variable {more : Settled}

/-- A literal that fits when it is read again, and has a literal that matches it then. -/
def Refits [Runtime] (schema : Schema) (more : Settled) (ref : TypeRef) (v : Sdl.Value) : Prop :=
  ∃ constant w, fit schema more ref v.reread = .ok constant ∧
    (∀ (other : Schema) (place : TypeRef), place.base = ref.base →
      literal other more place constant = .ok w) ∧
    schema.Matches ref v.reread w ∧ Introspection.Document.hasReadableTexts w = true

def RefitsAll [Runtime] (schema : Schema) (more : Settled) (item : TypeRef)
    (items : List Sdl.Value) : Prop :=
  ∃ constants ws, fitAll schema more item (Sdl.rereadAll items) = .ok constants ∧
    (∀ (other : Schema) (place : TypeRef), place.base = item.base →
      literals other more place constants = .ok ws) ∧
    schema.AllMatch item (Sdl.rereadAll items) ws ∧
      Introspection.Document.hasReadableItems ws = true

/-- What is given for the fields of an input object is what they stand for when they are read
again. -/
def Gives (schema : Schema) (more : Settled) (given : List (String × Except Unfit Constant))
    (agains : List SettledField) (fields : List (String × Sdl.Value)) : Prop :=
  ∀ again ∈ agains, given.lookup again.name =
    ((Sdl.rereadFields fields).lookup again.name).map (fit schema more again.type)

def RefitsFields [Runtime] (schema : Schema) (more : Settled) (base : String) (input : SettledInput)
    (given : List (String × Except Unfit Constant)) (agains : List SettledField)
    (fields : List (String × Sdl.Value)) : Prop :=
  ∃ results ws, agains.mapM (completedField given) = .ok results ∧
    (∀ other : Schema, literalFields other more input (results.filterMap id) = .ok ws) ∧
    schema.FieldsMatch (schema.fieldType? base) (Sdl.rereadFields fields) ws ∧
      Introspection.Document.hasReadableFields ws = true

theorem refits_plain [Runtime] {ref : TypeRef} {v : Sdl.Value} {type : NamedType}
    (hdepth : ref.listDepth = 0)
    (htype : schema.type? ref.base = some type) (hplain : IsPlainAt type v) :
    Refits schema more ref v := by
  obtain ⟨constant, w, hfit, hagain⟩ := hplain.refits
  have hreread := Sdl.isPlain_reread hplain.isPlain
  refine ⟨constant, w, ?_, ?_, ?_, hagain.isReadable⟩
  · rw [fit_of_isPlain hreread, htype]
    simp only [hfit, hdepth, underLists]
  · intro other place hplace
    exact hagain.hasLiteral other more place (hplace.trans (name_of_type? htype).symm)
  · exact .plain hreread hagain.isPlain htype (by rw [hfit]; rfl) hagain.fits

theorem refitsAll_cons [Runtime] {item : TypeRef} {v : Sdl.Value} {rest : List Sdl.Value}
    (hvariable : v.reread.isVariable = false) (hfirst : Refits schema more item v)
    (hrest : RefitsAll schema more item rest) : RefitsAll schema more item (v :: rest) := by
  obtain ⟨constant, w, hfit, hliteral, hmatch, hreadable⟩ := hfirst
  obtain ⟨constants, ws, hfits, hliterals, hmatches, hreadables⟩ := hrest
  refine ⟨constant :: constants, w :: ws, ?_, ?_, .cons hmatch hmatches, ?_⟩
  · rw [Sdl.rereadAll, fitAll_eq_bind hvariable, hfit, hfits]
    rfl
  · intro other place hplace
    rw [literals, hliteral other place hplace, hliterals other place hplace]
    rfl
  · rw [Introspection.Document.hasReadableItems, hreadable, hreadables]
    rfl

theorem refitsFields_given [Runtime] {base : String} {input : SettledInput}
    {given : List (String × Except Unfit Constant)} {field again : SettledField}
    {agains : List SettledField} {v : Sdl.Value} {others : List (String × Sdl.Value)}
    (hretold : field.RetoldBy again) (htype : schema.fieldType? base field.name = some field.type)
    (hgives : Gives schema more given (again :: agains) ((field.name, v) :: others))
    (hfind : input.fields.find? (·.name = again.name) = some again)
    (hfirst : Refits schema more field.type v)
    (hrest : RefitsFields schema more base input given agains others) :
    RefitsFields schema more base input given (again :: agains) ((field.name, v) :: others) := by
  obtain ⟨constant, w, hfit, hliteral, hmatch, hreadable⟩ := hfirst
  obtain ⟨results, ws, hresults, hliterals, hmatches, hreadables⟩ := hrest
  have hlookup := hgives again List.mem_cons_self
  rw [Sdl.rereadFields, List.lookup_cons, hretold.name, beq_self_eq_true, hretold.type,
    Option.map_some, hfit] at hlookup
  refine ⟨some (field.name, constant) :: results, (field.name, w) :: ws, ?_, ?_,
    .cons htype hmatch hmatches, ?_⟩
  · rw [Results.mapM_cons_eq_ok_iff]
    refine ⟨_, _, ?_, hresults, rfl⟩
    rw [completedField, hretold.name, hlookup]
    rfl
  · intro other
    rw [List.filterMap_cons, id, literalFields, ← hretold.name, hfind]
    dsimp only
    rw [hretold.type, hliteral other field.type rfl]
    dsimp only
    rw [hliterals other]
    rfl
  · rw [Introspection.Document.hasReadableFields, hreadable, hreadables]
    rfl

theorem refitsFields_left [Runtime] {base : String} {input : SettledInput}
    {given : List (String × Except Unfit Constant)} {field again : SettledField}
    {agains : List SettledField} {others : List (String × Sdl.Value)}
    (hretold : field.RetoldBy again) (hgives : Gives schema more given (again :: agains) others)
    (hleft : (Sdl.rereadFields others).lookup field.name = none) (hdefault : field.default = none)
    (hrequired : field.type.isRequired = false)
    (hrest : RefitsFields schema more base input given agains others) :
    RefitsFields schema more base input given (again :: agains) others := by
  obtain ⟨results, ws, hresults, hliterals, hboth⟩ := hrest
  have hlookup := hgives again List.mem_cons_self
  rw [hretold.name, hleft, Option.map_none] at hlookup
  refine ⟨none :: results, ws, ?_, ?_, hboth⟩
  · rw [Results.mapM_cons_eq_ok_iff]
    refine ⟨_, _, ?_, hresults, rfl⟩
    rw [completedField, hretold.name, hlookup, hretold.default hdefault, hretold.type]
    dsimp only
    rw [hrequired, if_neg (by decide)]
  · intro other
    rw [List.filterMap_cons, id]
    exact hliterals other

theorem lookup_rereadFields_eq_none {fields : List (String × Sdl.Value)} {name : String}
    (hname : name ∉ fields.map (·.1)) : (Sdl.rereadFields fields).lookup name = none := by
  rw [List.lookup_eq_none_iff]
  intro field hfield
  rw [bne_iff_ne]
  rintro rfl
  rw [← Sdl.names_rereadFields] at hname
  exact hname (List.mem_map_of_mem hfield)

/-- What is given for a field is what its only value stands for. -/
theorem lookup_fitFields {input : SettledInput} {field : SettledField}
    (hfind : input.fields.find? (·.name = field.name) = some field) :
    {fields : List (String × Sdl.Value)} → (fields.map (·.1)).Nodup →
      (∀ given ∈ fields, given.2.isVariable = false) →
        (fitFields schema settled input fields).lookup field.name =
          (fields.lookup field.name).map (fit schema settled field.type)
  | [], _, _ => by
      rw [fitFields]
      rfl
  | (name, v) :: rest, hnodup, hvariables => by
      rw [List.map_cons, List.nodup_cons] at hnodup
      rw [List.forall_mem_cons] at hvariables
      have hrest := lookup_fitFields hfind hnodup.2 hvariables.2
      have hnew : (rest.any fun other => decide (other.1 = name)) = false := by
        rw [List.any_eq_false]
        intro other hother hsame
        exact hnodup.1 (List.mem_map.2 ⟨other, hother, of_decide_eq_true hsame⟩)
      rw [lookup_fitFields_cons, hnew, if_neg (by decide), List.lookup_cons]
      by_cases hname : field.name = name
      · subst hname
        rw [hfind, beq_self_eq_true, Option.map_some]
        simp only [hvariables.1, Bool.not_false, Option.filter_some, if_true]
      · rw [beq_false_of_ne hname]
        cases (input.fields.find? (·.name = name)).filter fun _ => !v.isVariable with
        | none => exact hrest
        | some found =>
            dsimp only
            rw [if_neg hname]
            exact hrest

theorem isVariable_of_areNormalFields [Runtime] {inputs : List SettledField}
    {fields : List (String × Sdl.Value)} : AreNormalFields schema settled inputs fields →
      ∀ given ∈ Sdl.rereadFields fields, given.2.isVariable = false
  | .nil => by simp [Sdl.rereadFields]
  | .given hfirst hrest => by
      rw [Sdl.rereadFields, List.forall_mem_cons]
      exact ⟨hfirst.isVariable_reread, isVariable_of_areNormalFields hrest⟩
  | .left _ _ hrest => isVariable_of_areNormalFields hrest

theorem Gives.tail {given : List (String × Except Unfit Constant)} {again : SettledField}
    {agains : List SettledField} {name : String} {v : Sdl.Value}
    {others : List (String × Sdl.Value)}
    (hgives : Gives schema more given (again :: agains) ((name, v) :: others))
    (hnew : ∀ other ∈ agains, other.name ≠ name) : Gives schema more given agains others := by
  intro other hother
  have hlookup := hgives other (List.mem_cons_of_mem _ hother)
  rw [Sdl.rereadFields, List.lookup_cons, beq_false_of_ne (hnew other hother)] at hlookup
  exact hlookup

theorem names_of_retoldBy {inputs agains : List SettledField}
    (hagains : List.Forall₂ SettledField.RetoldBy inputs agains) :
    agains.map (·.name) = inputs.map (·.name) := by
  induction hagains with
  | nil => rfl
  | cons hfirst _ ih => rw [List.map_cons, List.map_cons, hfirst.name, ih]

theorem find?_of_nodup {fields : List SettledField} (hnodup : (fields.map (·.name)).Nodup) :
    ∀ field ∈ fields, fields.find? (·.name = field.name) = some field := by
  intro field hfield
  obtain ⟨found, hfound⟩ := Option.isSome_iff_exists.1
    (List.find?_isSome.2 ⟨field, hfield, by simp⟩ :
      (fields.find? fun other => decide (other.name = field.name)).isSome = true)
  have hname := List.find?_some hfound
  rw [hfound, List.inj_on_of_nodup_map hnodup (List.mem_of_find?_eq_some hfound) hfield
    (by simpa using hname)]

theorem AreNormalFields.gives [Runtime] {inputs : List SettledField}
    {fields : List (String × Sdl.Value)} (hnormal : AreNormalFields schema settled inputs fields)
    {again : SettledInput} (hnodup : (inputs.map (·.name)).Nodup)
    (hfind : ∀ field ∈ again.fields, again.fields.find? (·.name = field.name) = some field) :
    Gives schema more (fitFields schema more again (Sdl.rereadFields fields)) again.fields
      fields := by
  intro field hfield
  refine lookup_fitFields (hfind field hfield) ?_ (isVariable_of_areNormalFields hnormal)
  rw [Sdl.names_rereadFields]
  exact hnodup.sublist hnormal.sublist

theorem literals_cons_eq_ok_iff {ref : TypeRef} {constant : Constant} {rest : List Constant}
    {ws : List Sdl.Value} :
    literals schema settled ref (constant :: rest) = .ok ws ↔
      ∃ w others, literal schema settled ref constant = .ok w ∧
        literals schema settled ref rest = .ok others ∧ ws = w :: others := by
  rw [literals]
  cases literal schema settled ref constant with
  | error e => simp
  | ok w =>
      simp only [Results.map_eq_ok_iff, Except.ok.injEq]
      constructor
      · rintro ⟨others, hothers, rfl⟩
        exact ⟨w, others, rfl, hothers, rfl⟩
      · rintro ⟨_, others, rfl, hothers, rfl⟩
        exact ⟨others, hothers, rfl⟩

theorem literalFields_cons_eq_ok_iff {input : SettledInput} {name : String} {constant : Constant}
    {rest : List (String × Constant)} {ws : List (String × Sdl.Value)} :
    literalFields schema settled input ((name, constant) :: rest) = .ok ws ↔
      ∃ field w others, input.fields.find? (·.name = name) = some field ∧
        literal schema settled field.type constant = .ok w ∧
        literalFields schema settled input rest = .ok others ∧ ws = (name, w) :: others := by
  rw [literalFields]
  cases input.fields.find? (·.name = name) with
  | none => simp
  | some field =>
      dsimp only
      cases hliteral : literal schema settled field.type constant with
      | error e => simp [hliteral]
      | ok w =>
          simp only [Results.map_eq_ok_iff]
          constructor
          · rintro ⟨others, hothers, rfl⟩
            exact ⟨field, w, others, rfl, hliteral, hothers, rfl⟩
          · rintro ⟨found, _, others, hfound, hw, hothers, rfl⟩
            cases hfound
            rw [hliteral, Except.ok.injEq] at hw
            exact ⟨others, hothers, by rw [hw]⟩

theorem literalFields_eq_single {input : SettledInput} {constants : List (String × Constant)}
    {name : String} {w : Sdl.Value}
    (hliterals : literalFields schema settled input constants = .ok [(name, w)]) :
    ∃ constant ref, constants = [(name, constant)] ∧
      literal schema settled ref constant = .ok w := by
  rcases constants with _ | ⟨⟨other, constant⟩, rest⟩
  · simp [literalFields] at hliterals
  · obtain ⟨field, found, others, -, hfound, hrest, heq⟩ :=
      literalFields_cons_eq_ok_iff.1 hliterals
    obtain ⟨hpair, rfl⟩ := List.cons.inj heq
    cases hpair
    refine ⟨constant, field.type, ?_, hfound⟩
    rcases rest with _ | ⟨⟨another, later⟩, rest⟩
    · rfl
    · obtain ⟨_, _, _, -, -, -, heq⟩ := literalFields_cons_eq_ok_iff.1 hrest
      cases heq

/-- An object of which all fields are there again. -/
theorem refits_object [Runtime] {ref : TypeRef} {input again : SettledInput}
    {fields : List (String × Sdl.Value)} (hdepth : ref.listDepth = 0)
    (hinput : ∃ fields isOneOf, schema.IsInputObject ref.base fields isOneOf)
    (hlookup : more.lookup ref.base = some again) (hone : again.isOneOf = input.isOneOf)
    (hsingle : input.isOneOf = true → ∃ name v, fields = [(name, v)] ∧ v ≠ .null)
    (hfields : RefitsFields schema more ref.base again
      (fitFields schema more again (Sdl.rereadFields fields)) again.fields fields) :
    Refits schema more ref (.object fields) := by
  obtain ⟨results, ws, hresults, hliterals, hmatches, hreadable⟩ := hfields
  obtain ⟨inputs, isOneOf, hinput⟩ := hinput
  obtain ⟨type, htype, hname, hshape⟩ := name_of_isInputObject hinput
  have hclosed : closed again.isOneOf (results.filterMap id) =
      .ok (.object (results.filterMap id)) := by
    rw [hone]
    cases hsole : input.isOneOf with
    | false => rfl
    | true =>
        obtain ⟨name, v, rfl, hnull⟩ := hsingle hsole
        have hliteral := hliterals schema
        rw [Sdl.rereadFields, Sdl.rereadFields] at hmatches
        cases hmatches with
        | cons _ hfirst hrest =>
            cases hrest
            obtain ⟨constant, place, hconstants, hw⟩ := literalFields_eq_single hliteral
            rw [hconstants]
            cases constant with
            | null =>
                rw [literal, Except.ok.injEq] at hw
                subst hw
                exact absurd (Sdl.eq_null_of_reread (hfirst.eq_null_iff.1 rfl)) hnull
            | _ => rfl
  refine ⟨.object (results.filterMap id), .object ws, ?_, ?_, .object hmatches, hreadable⟩
  · rw [Sdl.Value.reread, fit_object, htype]
    dsimp only
    rw [hshape, hname, hlookup]
    dsimp only
    rw [completed_eq, hresults, hdepth]
    simp only [Except.bind, hclosed]
    rfl
  · intro other place hplace
    rw [literal, hplace, hlookup]
    dsimp only
    rw [hliterals other]
    rfl

mutual

/-- A normal literal fits when it is read again. -/
theorem IsNormal.refits [Runtime] (hproper : settled.IsProper)
    (hretells : schema.Retells settled more) {ref : TypeRef} {v : Sdl.Value} :
    IsNormal schema settled ref v → Refits schema more ref v
  | .null hrequired =>
      ⟨.null, .null, (if_neg (Bool.eq_false_iff.1 hrequired) : fit schema more ref .null = _),
        fun _ _ _ => rfl, .null ref, rfl⟩
  | .plain hdepth htype hplain => refits_plain hdepth htype hplain
  | .list hitem hitems => by
      obtain ⟨constants, ws, hfits, hliterals, hmatches, hreadables⟩ :=
        hitems.refits hproper hretells
      refine ⟨.list constants, .list ws, ?_, ?_, .list hitem hmatches, hreadables⟩
      · rw [Sdl.Value.reread, fit_list, hitem]
        dsimp only
        rw [hfits]
        rfl
      · intro other place hplace
        rw [literal, hliterals other place (hplace.trans (TypeRef.base_of_item? hitem).symm)]
        rfl
  | .object hdepth hlookup hfields hsingle => by
      obtain ⟨again, hagain, hretold⟩ := hretells.again _ _ hlookup
      have hnodup := (hproper _ _ hlookup).nodup
      have hagains := names_of_retoldBy hretold.fields
      have hfind := find?_of_nodup (hagains ▸ hnodup)
      exact refits_object hdepth (hretells.isInputObject _ _ hlookup) hagain hretold.isOneOf hsingle
        (hfields.refits hproper hretells hretold.fields (hretells.fieldType? _ _ hlookup) hnodup
          hfind (hfields.gives hnodup hfind))

theorem AreNormal.refits [Runtime] (hproper : settled.IsProper)
    (hretells : schema.Retells settled more) {item : TypeRef} {items : List Sdl.Value} :
    AreNormal schema settled item items → RefitsAll schema more item items
  | .nil => ⟨[], [], by rw [Sdl.rereadAll, fitAll], fun _ _ _ => rfl, .nil item, rfl⟩
  | .cons hfirst hrest =>
      refitsAll_cons hfirst.isVariable_reread (hfirst.refits hproper hretells)
        (hrest.refits hproper hretells)

theorem AreNormalFields.refits [Runtime] (hproper : settled.IsProper)
    (hretells : schema.Retells settled more) {base : String} {inputs agains : List SettledField}
    {fields : List (String × Sdl.Value)} {given : List (String × Except Unfit Constant)}
    {input : SettledInput} (hagains : List.Forall₂ SettledField.RetoldBy inputs agains)
    (htypes : ∀ field ∈ inputs, schema.fieldType? base field.name = some field.type)
    (hnodup : (inputs.map (·.name)).Nodup)
    (hfind : ∀ again ∈ agains, input.fields.find? (·.name = again.name) = some again)
    (hgives : Gives schema more given agains fields) :
    AreNormalFields schema settled inputs fields →
      RefitsFields schema more base input given agains fields
  | .nil => by
      cases hagains
      exact ⟨[], [], rfl, fun _ => rfl, .nil _, rfl⟩
  | .given hfirst hrest => by
      have hvalue := hfirst.refits hproper hretells
      cases hagains with
      | cons hhead htail =>
          rw [List.forall_mem_cons] at hfind htypes
          rw [List.map_cons, List.nodup_cons] at hnodup
          rw [← names_of_retoldBy htail] at hnodup
          have htail' := hgives.tail fun other hother heq =>
            hnodup.1 (heq ▸ List.mem_map_of_mem hother)
          rw [names_of_retoldBy htail] at hnodup
          exact refitsFields_given hhead htypes.1 hgives hfind.1 hvalue
            (hrest.refits hproper hretells htail htypes.2 hnodup.2 hfind.2 htail')
  | .left hdefault hrequired hrest => by
      cases hagains with
      | cons hhead htail =>
          rw [List.forall_mem_cons] at hfind htypes
          rw [List.map_cons, List.nodup_cons] at hnodup
          have hleft := lookup_rereadFields_eq_none fun hmem =>
            hnodup.1 (hrest.sublist.subset hmem)
          exact refitsFields_left hhead hgives hleft hdefault hrequired
            (hrest.refits hproper hretells htail htypes.2 hnodup.2 hfind.2
              fun other hother => hgives other (List.mem_cons_of_mem _ hother))

end

end Schema

end ConfigSchema
