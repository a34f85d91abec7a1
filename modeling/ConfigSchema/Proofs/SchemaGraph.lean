import ConfigSchema.Proofs.ExpansionOutcome
import ConfigSchema.Proofs.TypeOrder
import ConfigSchema.Schema.Graph
import ConfigSchema.Schema.OfDocument

/-!
# Graphs of schemas

The graph of a schema looks a name up exactly if the schema lists a type of the name that graphs
have a place for.  In a schema whose types are used where their kinds may be used, whatever the
graph refers to is looked up unless it is one of the types with which schemas describe themselves.
-/

namespace ConfigSchema

namespace Schema

variable {schema : Schema} {name : String} {type : TypeDef} {named : NamedType}

/-! ## Types in the graph -/

theorem NamedType.toGraph?_eq_some_iff :
    named.toGraph? = some type ↔
      named.name ∉ Sdl.BuiltIn.introspectionNames ∧ ∃ shape, named.shape.toGraph? = some shape ∧
        type = { name := named.name, description := named.description,
                 directives := named.directives, shape } := by
  unfold NamedType.toGraph?
  simp only [List.contains_iff_mem]
  by_cases hintrospection : named.name ∈ Sdl.BuiltIn.introspectionNames
  · simp [hintrospection]
  · rw [if_neg hintrospection, Option.map_eq_some_iff]
    simp only [hintrospection, not_false_eq_true, true_and, eq_comm]

theorem NamedType.exists_toGraph? (hname : named.name ∉ Sdl.BuiltIn.introspectionNames)
    (hkind : named.shape.kind ≠ .input) : ∃ type, named.toGraph? = some type := by
  have hshape : ∃ shape, named.shape.toGraph? = some shape := by
    cases hshape : named.shape with
    | input fields isOneOf => simp [hshape, Shape.kind] at hkind
    | scalar specifiedBy => exact ⟨_, rfl⟩
    | object interfaces fields => exact ⟨_, rfl⟩
    | interface interfaces fields => exact ⟨_, rfl⟩
    | union members => exact ⟨_, rfl⟩
    | enum values => exact ⟨_, rfl⟩
  obtain ⟨shape, hshape⟩ := hshape
  exact ⟨_, toGraph?_eq_some_iff.2 ⟨hname, shape, hshape, rfl⟩⟩

theorem NamedType.mem_references_of_toGraph? (htype : named.toGraph? = some type)
    (hmem : name ∈ type.references) : name ∈ named.references := by
  obtain ⟨-, shape, hshape, rfl⟩ := toGraph?_eq_some_iff.1 htype
  have hfield : ∀ fields : List Field, name ∈ (fields.map Field.toGraph).map (·.type.base) →
      name ∈ fields.flatMap Field.references := by
    intro fields hbase
    obtain ⟨_, hgraph, rfl⟩ := List.mem_map.1 hbase
    obtain ⟨field, hfield, rfl⟩ := List.mem_map.1 hgraph
    exact List.mem_flatMap.2 ⟨field, hfield, List.mem_cons_self⟩
  unfold NamedType.references
  cases hown : named.shape with
  | object interfaces fields =>
      rw [hown] at hshape
      cases hshape
      rcases List.mem_append.1 hmem with hbase | hinterface
      · exact List.mem_append_right _ (hfield fields hbase)
      · exact List.mem_append_left _ hinterface
  | interface interfaces fields =>
      rw [hown] at hshape
      cases hshape
      rcases List.mem_append.1 hmem with hbase | hinterface
      · exact List.mem_append_right _ (hfield fields hbase)
      · exact List.mem_append_left _ hinterface
  | union members =>
      rw [hown] at hshape
      cases hshape
      exact hmem
  | scalar specifiedBy =>
      rw [hown] at hshape
      cases hshape
      exact absurd hmem List.not_mem_nil
  | enum values =>
      rw [hown] at hshape
      cases hshape
      exact absurd hmem List.not_mem_nil
  | input fields isOneOf =>
      rw [hown] at hshape
      contradiction

theorem mem_types_toGraph_iff :
    type ∈ schema.toGraph.types ↔ ∃ named ∈ schema.orderedTypes, named.toGraph? = some type :=
  List.mem_filterMap

theorem isIndexed_toGraph (schema : Schema) : schema.toGraph.IsIndexed := by
  apply TypeGraph.isIndexed_of_unique
  intro first hfirst second hsecond hname
  obtain ⟨one, hone, hfirst⟩ := List.mem_filterMap.1 hfirst
  obtain ⟨other, hother, hsecond⟩ := List.mem_filterMap.1 hsecond
  obtain ⟨-, _, -, heqFirst⟩ := NamedType.toGraph?_eq_some_iff.1 hfirst
  obtain ⟨-, _, -, heqSecond⟩ := NamedType.toGraph?_eq_some_iff.1 hsecond
  have hnames : one.name = other.name := by
    rw [heqFirst, heqSecond] at hname
    exact hname
  have hsame : one = other := by
    have honeType := (mem_orderedTypes_iff.1 hone).2
    have hotherType := (mem_orderedTypes_iff.1 hother).2
    rw [hnames, hotherType, Option.some.injEq] at honeType
    exact honeType.symm
  rw [hsame, hsecond, Option.some.injEq] at hfirst
  exact hfirst.symm

theorem mem_names_toGraph_iff :
    name ∈ schema.toGraph.index.names ↔
      name ∈ schema.orderedNames ∧ name ∉ Sdl.BuiltIn.introspectionNames ∧
        ∃ named, schema.type? name = some named ∧ named.shape.kind ≠ .input := by
  rw [← Entries.get?_isSome_iff, Option.isSome_iff_exists]
  constructor
  · rintro ⟨type, hget⟩
    obtain ⟨htype, rfl⟩ := (isIndexed_toGraph schema _ _).1 hget
    obtain ⟨named, hnamed, hgraph⟩ := mem_types_toGraph_iff.1 htype
    obtain ⟨hname, shape, hshape, rfl⟩ := NamedType.toGraph?_eq_some_iff.1 hgraph
    obtain ⟨hordered, hfound⟩ := mem_orderedTypes_iff.1 hnamed
    refine ⟨hordered, hname, named, hfound, ?_⟩
    intro hkind
    cases hown : named.shape with
    | input fields isOneOf => simp [hown, Shape.toGraph?] at hshape
    | scalar specifiedBy => simp [hown, Shape.kind] at hkind
    | object interfaces fields => simp [hown, Shape.kind] at hkind
    | interface interfaces fields => simp [hown, Shape.kind] at hkind
    | union members => simp [hown, Shape.kind] at hkind
    | enum values => simp [hown, Shape.kind] at hkind
  · rintro ⟨hordered, hintrospection, named, hfound, hkind⟩
    have hname := name_of_type? hfound
    subst hname
    obtain ⟨type, htype⟩ := NamedType.exists_toGraph? hintrospection hkind
    have hmem : type ∈ schema.toGraph.types :=
      mem_types_toGraph_iff.2 ⟨named, mem_orderedTypes_iff.2 ⟨hordered, hfound⟩, htype⟩
    obtain ⟨-, _, -, heq⟩ := NamedType.toGraph?_eq_some_iff.1 htype
    refine ⟨type, ?_⟩
    have hget := (isIndexed_toGraph schema).get?_name hmem
    rw [heq] at hget ⊢
    exact hget

/-! ## What types refer to -/

theorem isKind_iff {test : Sdl.TypeBody.Kind → Bool} :
    schema.isKind test name = true ↔
      ∃ named, schema.type? name = some named ∧ test named.shape.kind = true := by
  unfold isKind
  cases schema.type? name with
  | none => simp
  | some named => simp

theorem own_of_mem_references (hnamed : named ∈ schema.orderedTypes)
    (htype : named.toGraph? = some type) (hmem : name ∈ type.references) :
    named ∈ schema.types := by
  have hfound := (mem_orderedTypes_iff.1 hnamed).2
  rcases type?_cases hfound with ⟨hbuilt, -⟩ | ⟨-, hown, -⟩
  · have hscalar : ∀ other ∈ BuiltIn.types, other.name ∉ Sdl.BuiltIn.introspectionNames →
        other.references = [] := by decide
    have hbuiltIn := (BuiltIn.mem_of_type? hbuilt).1
    have hname := (NamedType.toGraph?_eq_some_iff.1 htype).1
    have hreferences := NamedType.mem_references_of_toGraph? htype hmem
    rw [hscalar named hbuiltIn hname] at hreferences
    exact absurd hreferences List.not_mem_nil
  · exact hown

/-- What a type of the graph refers to is of a kind that fits its place. -/
structure FitsKinds (schema : Schema) (type : TypeDef) : Prop where
  fields : ∀ field ∈ type.fields, schema.isOutput field.type.base = true
  interfaces : ∀ name ∈ type.interfaces, schema.isKind (· = .interface) name = true
  members : ∀ members, type.shape = .union members →
    ∀ name ∈ members, schema.isKind (· = .object) name = true

private theorem fields_of_hasFittingFields {interfaces : List String} {fields : List Field}
    (hfits : schema.hasFittingFields interfaces fields = true) :
    (∀ field ∈ fields.map Field.toGraph, schema.isOutput field.type.base = true) ∧
      ∀ name ∈ interfaces, schema.isKind (· = .interface) name = true := by
  unfold hasFittingFields at hfits
  rw [Bool.and_eq_true, List.all_eq_true, List.all_eq_true] at hfits
  refine ⟨?_, hfits.1⟩
  intro _ hgraph
  obtain ⟨field, hfield, rfl⟩ := List.mem_map.1 hgraph
  have hboth := hfits.2 field hfield
  rw [Bool.and_eq_true] at hboth
  exact hboth.1

theorem fitsKinds_of_toGraph? (hfits : schema.hasFittingReferences named = true)
    (htype : named.toGraph? = some type) : schema.FitsKinds type := by
  obtain ⟨-, shape, hshape, rfl⟩ := NamedType.toGraph?_eq_some_iff.1 htype
  unfold hasFittingReferences at hfits
  cases hown : named.shape with
  | object interfaces fields =>
      rw [hown] at hshape hfits
      cases hshape
      obtain ⟨hfields, hinterfaces⟩ := fields_of_hasFittingFields hfits
      exact ⟨hfields, hinterfaces, fun _ hunion => by contradiction⟩
  | interface interfaces fields =>
      rw [hown] at hshape hfits
      cases hshape
      obtain ⟨hfields, hinterfaces⟩ := fields_of_hasFittingFields hfits
      exact ⟨hfields, hinterfaces, fun _ hunion => by contradiction⟩
  | union members =>
      rw [hown] at hshape hfits
      cases hshape
      rw [List.all_eq_true] at hfits
      refine ⟨by simp [TypeDef.fields, TypeDef.fields?], by simp [TypeDef.interfaces], ?_⟩
      intro others hunion
      cases hunion
      exact hfits
  | scalar specifiedBy =>
      rw [hown] at hshape
      cases hshape
      exact ⟨by simp [TypeDef.fields, TypeDef.fields?], by simp [TypeDef.interfaces],
        fun _ hunion => by contradiction⟩
  | enum values =>
      rw [hown] at hshape
      cases hshape
      exact ⟨by simp [TypeDef.fields, TypeDef.fields?], by simp [TypeDef.interfaces],
        fun _ hunion => by contradiction⟩
  | input fields isOneOf =>
      rw [hown] at hshape
      contradiction

theorem FitsKinds.exists_type? (hfits : schema.FitsKinds type) (hmem : name ∈ type.references) :
    ∃ target, schema.type? name = some target ∧ target.shape.kind ≠ .input := by
  have hkind : ∀ test : Sdl.TypeBody.Kind → Bool, test .input = false →
      schema.isKind test name = true →
      ∃ target, schema.type? name = some target ∧ target.shape.kind ≠ .input := by
    intro test hinput htest
    obtain ⟨target, htarget, hpasses⟩ := isKind_iff.1 htest
    refine ⟨target, htarget, ?_⟩
    intro heq
    rw [heq, hinput] at hpasses
    contradiction
  rcases TypeDef.mem_references_iff.1 hmem with ⟨field, hfield, rfl⟩ | hinterface | hmember
  · exact hkind _ rfl (hfits.fields field hfield)
  · exact hkind _ rfl (hfits.interfaces name hinterface)
  · obtain ⟨members, hshape, hin⟩ := hmember
    exact hkind _ rfl (hfits.members members hshape name hin)

theorem fitsKinds_of_mem (hwell : schema.isWellKinded = true)
    (htype : type ∈ schema.toGraph.types) : schema.FitsKinds type := by
  obtain ⟨named, hnamed, hgraph⟩ := mem_types_toGraph_iff.1 htype
  by_cases hempty : type.references = []
  · have hnone : ∀ name, name ∉ type.references := by simp [hempty]
    constructor
    · intro field hfield
      exact absurd (TypeDef.base_mem_references hfield) (hnone _)
    · intro name hname
      exact absurd (TypeDef.mem_references_iff.2 (.inr (.inl hname))) (hnone name)
    · intro members hshape name hname
      exact absurd (TypeDef.mem_references_iff.2 (.inr (.inr ⟨members, hshape, hname⟩)))
        (hnone name)
  · obtain ⟨name, hmem⟩ := List.exists_mem_of_ne_nil _ hempty
    have hown := own_of_mem_references hnamed hgraph hmem
    unfold isWellKinded at hwell
    rw [Bool.and_eq_true, List.all_eq_true] at hwell
    exact fitsKinds_of_toGraph? (hwell.1 named hown) hgraph

/-- Of what the types of the graph refer to, just the types of introspection are missing. -/
theorem mem_names_iff_of_references (hwell : schema.isWellKinded = true)
    (htype : type ∈ schema.toGraph.types) (hmem : name ∈ type.references) :
    name ∈ schema.toGraph.index.names ↔ name ∉ Sdl.BuiltIn.introspectionNames := by
  obtain ⟨target, htarget, hkind⟩ := (fitsKinds_of_mem hwell htype).exists_type? hmem
  obtain ⟨named, hnamed, hgraph⟩ := mem_types_toGraph_iff.1 htype
  have hown := own_of_mem_references hnamed hgraph hmem
  have hfound := (mem_orderedTypes_iff.1 hnamed).2
  have hreferences := NamedType.mem_references_of_toGraph? hgraph hmem
  have hordered := mem_orderedNames_of_reference hown hfound hreferences htarget
  rw [mem_names_toGraph_iff]
  constructor
  · intro hnames
    exact hnames.2.1
  · intro hname
    exact ⟨hordered, hname, target, htarget, hkind⟩

/-! ## Expansions -/

theorem exists_type?_of_get? (hget : schema.toGraph.index.get? name = some type) :
    ∃ named, schema.type? name = some named ∧ named.toGraph? = some type := by
  obtain ⟨htype, rfl⟩ := (isIndexed_toGraph schema _ _).1 hget
  obtain ⟨named, hnamed, hgraph⟩ := mem_types_toGraph_iff.1 htype
  obtain ⟨-, _, -, heq⟩ := NamedType.toGraph?_eq_some_iff.1 hgraph
  have hname : type.name = named.name := by rw [heq]
  refine ⟨named, ?_, hgraph⟩
  rw [hname]
  exact (mem_orderedTypes_iff.1 hnamed).2

theorem isObject_of_isKind (hkind : schema.isKind (· = .object) name = true)
    (hget : schema.toGraph.index.get? name = some type) : type.isObject = true := by
  obtain ⟨named, hnamed, hgraph⟩ := exists_type?_of_get? hget
  obtain ⟨other, hother, hobject⟩ := isKind_iff.1 hkind
  rw [hnamed, Option.some.injEq] at hother
  subst hother
  obtain ⟨-, shape, hshape, rfl⟩ := NamedType.toGraph?_eq_some_iff.1 hgraph
  cases hown : named.shape with
  | object interfaces fields =>
      rw [hown] at hshape
      cases hshape
      rfl
  | scalar specifiedBy => simp [hown, Shape.kind] at hobject
  | interface interfaces fields => simp [hown, Shape.kind] at hobject
  | union members => simp [hown, Shape.kind] at hobject
  | enum values => simp [hown, Shape.kind] at hobject
  | input fields isOneOf => simp [hown, Shape.kind] at hobject

theorem isInterface_notMem_introspectionNames
    (hkind : schema.isKind (· = .interface) name = true) :
    name ∉ Sdl.BuiltIn.introspectionNames := by
  intro hintrospection
  obtain ⟨named, hnamed, hinterface⟩ := isKind_iff.1 hkind
  have hnone : ∀ other ∈ BuiltIn.types, other.shape.kind ≠ .interface := by decide
  rcases type?_cases hnamed with ⟨hbuilt, -⟩ | ⟨hnot, -⟩
  · have hother := hnone named (BuiltIn.mem_of_type? hbuilt).1
    exact hother (of_decide_eq_true hinterface)
  · exact hnot (List.mem_append_right _ hintrospection)

end Schema

end ConfigSchema
