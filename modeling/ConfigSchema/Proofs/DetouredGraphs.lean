import ConfigSchema.Proofs.MarkSwitches
import ConfigSchema.Proofs.ReprintedSchemas

/-!
# Graphs of schemas that were written and read again

A schema whose introspection result is read and written as a document has the graph of the schema
again, but for the directives that are applied: the types come in the same order with the same
parts, since a walk over a schema depends on nothing but the names that its types refer to.
-/

namespace ConfigSchema

namespace Schema

/-! ## Walks -/

section

variable {references others : String → List String} {keep : String → Bool}

/-- A search depends only on the pending names that could remain. -/
theorem gather_congr_filter {remaining pending asked : List String}
    (hkeep : ∀ name ∈ remaining, keep name = true)
    (hreferences : ∀ name, (references name).filter keep = (others name).filter keep)
    (hasked : pending.filter keep = asked.filter keep) :
    gather references remaining pending = gather others remaining asked := by
  have hfind : ∀ {remaining pending asked : List String},
      (∀ name ∈ remaining, keep name = true) → pending.filter keep = asked.filter keep →
        pending.find? remaining.contains = asked.find? remaining.contains := by
    intro remaining pending asked hkeep hasked
    have hfilter : ∀ names : List String,
        (names.filter keep).find? remaining.contains = names.find? remaining.contains := by
      intro names
      rw [List.find?_filter]
      congr 1
      funext name
      cases hname : remaining.contains name with
      | false => simp
      | true => simp [hkeep name (List.contains_iff_mem.1 hname)]
    rw [← hfilter, hasked, hfilter]
  fun_induction gather references remaining pending generalizing asked with
  | case1 remaining pending hnone =>
      rw [hfind hkeep hasked] at hnone
      exact (gather_of_find?_eq_none hnone).symm
  | case2 remaining pending first hfirst ih =>
      rw [hfind hkeep hasked] at hfirst
      rw [gather_of_find?_eq_some hfirst,
        ih (fun name hname => hkeep name (List.mem_of_mem_erase hname))]
      rw [List.filter_append, List.filter_append, hreferences, hasked]

theorem walk_congr_filter {starts asked : List (Option String × List String)}
    (hreferences : ∀ name, (references name).filter keep = (others name).filter keep)
    (hasked : List.Forall₂ (fun one another => one.1 = another.1 ∧
      one.2.filter keep = another.2.filter keep) starts asked) {remaining : List String}
    (hkeep : ∀ name ∈ remaining, keep name = true) :
    walk references remaining starts = walk others remaining asked := by
  induction hasked generalizing remaining with
  | nil => rfl
  | @cons start another _ _ hfirst _ ih =>
      obtain ⟨own, pending⟩ := start
      obtain ⟨_, sought⟩ := another
      obtain ⟨rfl, hsought⟩ := hfirst
      rw [walk, walk, gather_congr_filter hkeep hreferences hsought,
        ih fun name hname => hkeep name (List.mem_of_mem_filter hname)]

end

/-! ## Schemas that correspond -/

/-- Types of one name that refer to the same names and whose places in the graph belong
together. -/
structure NamedType.Corresponds (R : TypeDef → TypeDef → Prop) (one other : NamedType) : Prop where
  name : one.name = other.name
  references : one.references = other.references
  graph : Option.Rel R one.toGraph? other.toGraph?

/-- Schemas whose types correspond in order, with the same directives and the same built-in root
types, if any. -/
structure Corresponds (R : TypeDef → TypeDef → Prop) (one other : Schema) : Prop where
  types : List.Forall₂ (NamedType.Corresponds R) one.types other.types
  builtIn : ∀ type ∈ BuiltIn.types, Option.Rel R type.toGraph? type.toGraph?
  roots : one.roots.names.filter (Sdl.BuiltIn.typeNames.contains ·) =
    other.roots.names.filter (Sdl.BuiltIn.typeNames.contains ·)
  directives : one.directives.map (·.name) = other.directives.map (·.name)
  arguments : (one.directives.flatMap fun d => d.arguments.map (·.type.base)) =
    other.directives.flatMap fun d => d.arguments.map (·.type.base)

variable {R : TypeDef → TypeDef → Prop} {one other : Schema}

theorem find?_of_corresponds {types others : List NamedType}
    (htypes : List.Forall₂ (NamedType.Corresponds R) types others) (name : String) :
    Option.Rel (NamedType.Corresponds R) (types.find? fun type => decide (type.name = name))
      (others.find? fun type => decide (type.name = name)) := by
  induction htypes with
  | nil => exact .none
  | @cons type other _ _ hfirst _ ih =>
      by_cases hname : type.name = name
      · have hother : other.name = name := hfirst.name ▸ hname
        rw [List.find?_cons_of_pos (by simpa using hname),
          List.find?_cons_of_pos (by simpa using hother)]
        exact .some hfirst
      · have hother : other.name ≠ name := hfirst.name ▸ hname
        rw [List.find?_cons_of_neg (by simpa using hname),
          List.find?_cons_of_neg (by simpa using hother)]
        exact ih

theorem Corresponds.type? (hboth : one.Corresponds R other) (name : String) :
    Option.Rel (NamedType.Corresponds R) (one.type? name) (other.type? name) := by
  unfold Schema.type?
  cases hbuilt : BuiltIn.type? name with
  | some type => exact .some ⟨rfl, rfl, hboth.builtIn type (BuiltIn.mem_of_type? hbuilt).1⟩
  | none => simpa using find?_of_corresponds hboth.types name

theorem Corresponds.referencesOf_eq (hboth : one.Corresponds R other) (name : String) :
    one.referencesOf name = other.referencesOf name := by
  have hrel := hboth.type? name
  unfold referencesOf
  generalize one.type? name = found at hrel ⊢
  generalize other.type? name = another at hrel ⊢
  cases hrel with
  | none => rfl
  | some htypes => exact htypes.references

theorem Corresponds.names_types (hboth : one.Corresponds R other) :
    one.types.map (·.name) = other.types.map (·.name) :=
  map_eq_map_of_forall₂ (hboth.types.imp fun _ _ htype => htype.name)

theorem Corresponds.orderedNames_eq (hboth : one.Corresponds R other) :
    one.orderedNames = other.orderedNames := by
  rw [orderedNames_eq_walk, orderedNames_eq_walk, ← hboth.names_types]
  refine @walk_congr_filter _ _ (Sdl.BuiltIn.typeNames.contains ·) _ _ ?_ ?_ _ ?_
  · intro name
    rw [hboth.referencesOf_eq]
  · rw [starts, starts, ← hboth.names_types, ← hboth.arguments]
    refine List.rel_append ?_ (.cons ⟨rfl, hboth.roots⟩ (List.forall₂_same.2 fun _ _ => ⟨rfl, rfl⟩))
    rw [List.forall₂_map_left_iff, List.forall₂_map_right_iff, List.forall₂_same]
    intro name _
    rw [hboth.referencesOf_eq]
    exact ⟨rfl, rfl⟩
  · intro name hname
    exact List.contains_iff_mem.2 (List.mem_of_mem_filter hname)

/-- The graphs of schemas that correspond list types that belong together. -/
theorem Corresponds.types_toGraph (hboth : one.Corresponds R other) :
    List.Forall₂ R one.toGraph.types other.toGraph.types := by
  have htypes : ∀ schema : Schema, schema.toGraph.types =
      schema.orderedNames.filterMap fun name => (schema.type? name).bind NamedType.toGraph? := by
    intro schema
    rw [← List.filterMap_filterMap]
    rfl
  have hname : ∀ name, Option.Rel R ((one.type? name).bind NamedType.toGraph?)
      ((other.type? name).bind NamedType.toGraph?) := by
    intro name
    have hrel := hboth.type? name
    generalize one.type? name = found at hrel ⊢
    generalize other.type? name = another at hrel ⊢
    cases hrel with
    | none => exact .none
    | some htype => exact htype.graph
  rw [htypes, htypes, hboth.orderedNames_eq]
  induction other.orderedNames with
  | nil => exact .nil
  | cons first rest ih =>
      have hrel := hname first
      rw [List.filterMap_cons, List.filterMap_cons]
      generalize (one.type? first).bind NamedType.toGraph? = found at hrel ⊢
      generalize (other.type? first).bind NamedType.toGraph? = another at hrel ⊢
      cases hrel with
      | none => exact ih
      | some htype => exact .cons htype ih

theorem Corresponds.toGraph_eq (hboth : one.Corresponds Eq other) :
    one.toGraph = other.toGraph := by
  have htypes : one.toGraph.types = other.toGraph.types :=
    List.forall₂_eq_eq_eq ▸ hboth.types_toGraph
  change TypeGraph.ofTypes one.toGraph.types (one.directives.map (·.name)) =
    TypeGraph.ofTypes other.toGraph.types (other.directives.map (·.name))
  rw [htypes, hboth.directives]

/-! ## Names that stay -/

section

open Introspection.Document

variable {schema again : Schema}

theorem bases_describedInputs (inputs : List InputValue) :
    (describedInputs inputs).map (·.type.base) = inputs.map (·.type.base) := by
  unfold describedInputs
  split
  · rfl
  · rw [List.map_map]
    rfl

theorem bases_reprinted [Runtime] (inputs : List InputValue) :
    ((describedInputs (inputs.map (·.retold schema))).map (·.reprinted again)).map (·.type.base) =
      inputs.map (·.type.base) := by
  have hreprinted : ∀ others : List InputValue,
      (others.map (·.reprinted again)).map (·.type.base) = others.map (·.type.base) := by
    intro others
    rw [List.map_map]
    rfl
  rw [hreprinted, bases_describedInputs, List.map_map]
  rfl

/-- A field after the detour over an introspection result and a document. -/
def Field.detoured [Runtime] (schema : Schema) (field : Field) : Field :=
  (field.retold schema).reprinted schema.retold

def NamedType.detoured [Runtime] (schema : Schema) (type : NamedType) : NamedType :=
  (type.retold schema).reprinted schema.retold

theorem references_detoured [Runtime] (field : Field) :
    (field.detoured schema).references = field.references := by
  change field.type.base :: _ = field.type.base :: _
  exact congrArg _ (bases_reprinted field.arguments)

/-! ## Directives that stay -/

/-- A field with the directive of its deprecation only. -/
def Field.redirected (field : Field) : Field :=
  { field with directives := (deprecationOf field.deprecation).map (·.name) }

def Shape.redirected : Shape → Shape
  | .object interfaces fields => .object interfaces (fields.map Field.redirected)
  | .interface interfaces fields => .interface interfaces (fields.map Field.redirected)
  | shape => shape

/-- A type with the directives only that tell what it is. -/
def NamedType.redirected (type : NamedType) : NamedType :=
  { type with
    directives := (directivesOf type.shape).map (·.name), shape := type.shape.redirected }

end

/-- A schema in which nothing but deprecations and specifications is told by directives. -/
def redirected (schema : Schema) : Schema :=
  { schema with types := schema.types.map NamedType.redirected }

section

open Introspection.Document

variable {schema again : Schema} {type : NamedType}

theorem flatMap_references_map {fields : List Field} {change : Field → Field}
    (hchange : ∀ field, (change field).references = field.references) :
    (fields.map change).flatMap Field.references = fields.flatMap Field.references := by
  rw [List.flatMap_map]
  exact List.flatMap_congr fun field _ => hchange field

theorem NamedType.references_redirected (type : NamedType) :
    type.redirected.references = type.references := by
  obtain ⟨name, description, directives, shape⟩ := type
  have hfields := fun fields => @flatMap_references_map fields Field.redirected fun _ => rfl
  cases shape with
  | object interfaces fields => exact congrArg (interfaces ++ ·) (hfields fields)
  | interface interfaces fields => exact congrArg (interfaces ++ ·) (hfields fields)
  | _ => rfl

theorem NamedType.references_detoured [Runtime] (hown : type.name ∉ Sdl.BuiltIn.typeNames) :
    (type.detoured schema).references = type.references := by
  rw [detoured, retold, if_neg hown]
  obtain ⟨name, description, directives, shape⟩ := type
  have hfields : ∀ fields : List Field, (((fields.map (·.retold schema)).map
      (·.reprinted schema.retold)).flatMap Field.references) = fields.flatMap Field.references := by
    intro fields
    rw [List.map_map]
    exact flatMap_references_map Schema.references_detoured
  cases shape with
  | object interfaces fields => exact congrArg (interfaces ++ ·) (hfields fields)
  | interface interfaces fields => exact congrArg (interfaces ++ ·) (hfields fields)
  | input fields isOneOf =>
      change ((fields.map (·.retold schema)).map (·.reprinted schema.retold)).map (·.type.base) =
        fields.map (·.type.base)
      rw [List.map_map, List.map_map]
      rfl
  | _ => rfl

/-- The place of a type in the graph after the detour. -/
theorem NamedType.toGraph?_detoured [Runtime] (hown : type.name ∉ Sdl.BuiltIn.typeNames) :
    (type.detoured schema).toGraph? = type.redirected.toGraph? := by
  rw [detoured, retold, if_neg hown]
  obtain ⟨name, description, directives, shape⟩ := type
  have hfields : ∀ fields : List Field, ((fields.map (·.retold schema)).map
      (·.reprinted schema.retold)).map Field.toGraph =
        (fields.map Field.redirected).map Field.toGraph := by
    intro fields
    rw [List.map_map, List.map_map, List.map_map]
    rfl
  cases shape with
  | object interfaces fields =>
      unfold toGraph?
      change (if _ then none else some (TypeDef.mk name description _ (.object _ interfaces))) =
        if _ then none else some (TypeDef.mk name description _ (.object _ interfaces))
      rw [hfields]
      rfl
  | interface interfaces fields =>
      unfold toGraph?
      change (if _ then none else some (TypeDef.mk name description _ (.interface _ interfaces))) =
        if _ then none else some (TypeDef.mk name description _ (.interface _ interfaces))
      rw [hfields]
      rfl
  | _ => rfl

/-- Types that differ in their directives, of which the second one has none if it is an object. -/
structure ClosesLike (one other : TypeDef) : Prop where
  same : one.SameButDirectives other
  closed : other.isObject = true → other.directives = []

theorem NamedType.closesLike_redirected (type : NamedType) :
    Option.Rel ClosesLike type.toGraph? type.redirected.toGraph? := by
  obtain ⟨name, description, directives, shape⟩ := type
  have hfields :
      ∀ fields : List Field, (fields.map Field.toGraph).map ConfigSchema.Field.undirected =
      ((fields.map Field.redirected).map Field.toGraph).map ConfigSchema.Field.undirected := by
    intro fields
    rw [List.map_map, List.map_map, List.map_map]
    rfl
  unfold toGraph? redirected
  cases hname : Sdl.BuiltIn.introspectionNames.contains name with
  | true => exact .none
  | false =>
      cases shape with
      | object interfaces fields =>
          refine .some ⟨⟨?_⟩, fun _ => rfl⟩
          change TypeDef.mk name description [] (.object _ interfaces) =
            TypeDef.mk name description [] (.object _ interfaces)
          rw [hfields]
      | interface interfaces fields =>
          refine .some ⟨⟨?_⟩, fun hobject => by cases hobject⟩
          change TypeDef.mk name description [] (.interface _ interfaces) =
            TypeDef.mk name description [] (.interface _ interfaces)
          rw [hfields]
      | input fields isOneOf => exact .none
      | _ => exact .some ⟨⟨rfl⟩, fun hobject => by cases hobject⟩

theorem BuiltIn.closesLike (htype : type ∈ BuiltIn.types) :
    Option.Rel ClosesLike type.toGraph? type.toGraph? := by
  have hall : ∀ type ∈ BuiltIn.types, type.directives = [] := by decide
  cases hgraph : type.toGraph? with
  | none => exact .none
  | some found =>
      obtain ⟨-, shape, -, rfl⟩ := NamedType.toGraph?_eq_some_iff.1 hgraph
      exact .some ⟨⟨rfl⟩, fun _ => hall type htype⟩

/-! ## The detour -/

/-- Directives behind the marks and before the built-in ones, under names of their own. -/
structure HasOwnDirectives (schema : Schema) (own : List Directive) : Prop where
  directives : schema.directives = markDirectives ++ own ++ BuiltIn.directives
  unmarked : ∀ d ∈ own, d.name ∉ [docsDirective, openDirective]
  notBuiltIn : ∀ d ∈ own, d.name ∉ Sdl.BuiltIn.directiveNames

theorem HasOwnDirectives.unmarkedDirectives_retold [Runtime] {own : List Directive}
    (hown : schema.HasOwnDirectives own) :
    unmarkedDirectives schema.retold = own.map (·.retold schema) := by
  have hmarks : (markDirectives.map (·.retold schema)).filter (fun d =>
      d.name ∉ [docsDirective, openDirective] && !Sdl.BuiltIn.directiveNames.contains d.name) =
        [] := by
    rfl
  have hbuiltIn : (BuiltIn.directives.map (·.retold schema)).filter (fun d =>
      d.name ∉ [docsDirective, openDirective] && !Sdl.BuiltIn.directiveNames.contains d.name) =
        [] := by
    rfl
  have hkept : (own.map (·.retold schema)).filter (fun d =>
      d.name ∉ [docsDirective, openDirective] && !Sdl.BuiltIn.directiveNames.contains d.name) =
        own.map (·.retold schema) := by
    rw [List.filter_eq_self]
    intro d hd
    obtain ⟨other, hother, rfl⟩ := List.mem_map.1 hd
    rw [Bool.and_eq_true, decide_eq_true_eq, Bool.not_eq_true', ← Bool.not_eq_true,
      List.contains_iff_mem]
    exact ⟨hown.unmarked other hother, hown.notBuiltIn other hother⟩
  rw [unmarkedDirectives, ownDirectives, List.filter_filter]
  change (schema.directives.map (·.retold schema)).filter _ = _
  rw [hown.directives, List.map_append, List.map_append, List.filter_append, List.filter_append,
    hmarks, hbuiltIn, hkept, List.nil_append, List.append_nil]

/-- The types of a sound schema are those of the order that are not built in. -/
theorem IsSound.filter_orderedTypes [Runtime] (hsound : schema.IsSound) :
    (schema.orderedTypes.filter fun type => !Sdl.BuiltIn.typeNames.contains type.name) =
      schema.types := by
  let own? := fun name =>
    (schema.type? name).filter fun type => !Sdl.BuiltIn.typeNames.contains type.name
  have hnone : ∀ name ∈ Sdl.BuiltIn.typeNames.filter fun name =>
      !(schema.types.map (·.name)).contains name, own? name = none := by
    intro name hname
    have hbuilt := List.mem_of_mem_filter hname
    change (schema.type? name).filter _ = none
    rw [Option.filter_eq_none_iff]
    intro type htype
    rw [name_of_type? htype, List.contains_iff_mem.2 hbuilt]
    simp
  have hself : (schema.types.map (·.name)).filterMap own? = schema.types := by
    have hsome : ∀ type ∈ schema.types, (own? ∘ (·.name)) type = some type := by
      intro type htype
      change (schema.type? type.name).filter _ = some type
      have hown := (hsound.types type htype).own
      rw [← List.contains_iff_mem, Bool.not_eq_true] at hown
      rw [hsound.type?_of_mem htype, Option.filter_some, hown]
      rfl
    rw [List.filterMap_map, List.filterMap_congr hsome, List.filterMap_some]
  rw [orderedTypes, List.filter_filterMap, orderedNames_eq_walk]
  exact (filterMap_walk hnone _).trans (by rw [filterMap_starts, hself])

theorem NamedType.name_retold [Runtime] (type : NamedType) :
    (type.retold schema).name = type.name := by
  unfold retold
  split <;> rfl

theorem IsSound.ownTypes_retold [Runtime] (hsound : schema.IsSound) :
    ownTypes schema.retold = schema.types.map (·.retold schema) := by
  rw [ownTypes]
  change (schema.orderedTypes.map (·.retold schema)).filter _ = _
  rw [List.filter_map, ← hsound.filter_orderedTypes]
  congr 1
  apply List.filter_congr
  intro type _
  rw [Function.comp_apply, NamedType.name_retold]

theorem filter_usualRoots {names : List String}
    (hnames : ∀ name ∈ names, name ∈ usualRoots) :
    names.filter (Sdl.BuiltIn.typeNames.contains ·) = [] := by
  have hall : ∀ name ∈ usualRoots, Sdl.BuiltIn.typeNames.contains name = false := by decide
  rw [List.filter_eq_nil_iff]
  intro name hname
  rw [hall name (hnames name hname)]
  exact Bool.false_ne_true

section

variable [Runtime] (hsound : schema.IsSound) {own : List Directive}
  (hown : schema.HasOwnDirectives own)
  (hof : again.IsOf (mergedDocument schema.retold))

include hsound hof in
theorem types_detoured : again.types = schema.types.map (·.detoured schema) := by
  rw [hof.types_eq_reprinted, hsound.ownTypes_retold, List.map_map]
  rfl

include hof in
theorem roots_detoured : again.roots.names.filter (Sdl.BuiltIn.typeNames.contains ·) =
    schema.roots.names.filter (Sdl.BuiltIn.typeNames.contains ·) := by
  rw [hof.roots]
  rcases rootsOf_mergedDocument_cases schema.retold with hsame | ⟨hagain, husual⟩
  · rw [hsame]
    rfl
  · rw [filter_usualRoots hagain]
    exact (filter_usualRoots husual).symm

include hown hof in
theorem directives_detoured :
    again.directives.map (·.name) = schema.directives.map (·.name) ∧
      (again.directives.flatMap fun d => d.arguments.map (·.type.base)) =
        schema.directives.flatMap fun d => d.arguments.map (·.type.base) := by
  rw [hof.directives_eq_reprinted, hown.unmarkedDirectives_retold, hown.directives]
  constructor
  · rw [List.map_append, List.map_append, List.map_append, List.map_append, List.map_map,
      List.map_map]
    rfl
  · rw [List.flatMap_append, List.flatMap_append, List.flatMap_append, List.flatMap_append,
      List.map_map, List.flatMap_map]
    congr 2
    exact List.flatMap_congr fun d _ => bases_reprinted d.arguments

include hsound hown hof in
/-- The schema after the detour corresponds to the one before it with fewer directives. -/
theorem corresponds_redirected : again.Corresponds Eq schema.redirected where
  types := by
    rw [types_detoured hsound hof, redirected, List.forall₂_map_left_iff,
      List.forall₂_map_right_iff, List.forall₂_same]
    intro type htype
    have hname := (hsound.types type htype).own
    refine ⟨type.name_retold, ?_, ?_⟩
    · rw [NamedType.references_detoured hname, NamedType.references_redirected]
    · rw [NamedType.toGraph?_detoured hname]
      cases type.redirected.toGraph? with
      | none => exact .none
      | some _ => exact .some rfl
  builtIn := by
    intro type _
    cases type.toGraph? with
    | none => exact .none
    | some _ => exact .some rfl
  roots := show _ = schema.roots.names.filter _ from roots_detoured hof
  directives := show _ = schema.directives.map _ from (directives_detoured hown hof).1
  arguments := show _ = schema.directives.flatMap _ from (directives_detoured hown hof).2

end

theorem corresponds_closesLike (schema : Schema) :
    schema.Corresponds ClosesLike schema.redirected where
  types := by
    rw [redirected, List.forall₂_map_right_iff, List.forall₂_same]
    exact fun type _ => ⟨rfl, type.references_redirected.symm, type.closesLike_redirected⟩
  builtIn := fun _ htype => BuiltIn.closesLike htype
  roots := rfl
  directives := rfl
  arguments := rfl

/-- The graph of a schema and the one with fewer directives differ in directives alone. -/
theorem sameButDirectives_redirected (schema : Schema) :
    schema.toGraph.SameButDirectives schema.redirected.toGraph :=
  TypeGraph.sameButDirectives_ofTypes
    ((corresponds_closesLike schema).types_toGraph.imp fun _ _ hpair => hpair.same) _ _

/-- The fields of a type whose kind has fields with arguments. -/
def Shape.fields : Shape → List Field
  | .object _ fields => fields
  | .interface _ fields => fields
  | _ => []

theorem NamedType.fields_toGraph? {found : TypeDef} (hgraph : type.toGraph? = some found) :
    found.directives = type.directives ∧ found.fields = type.shape.fields.map Field.toGraph ∧
      type.shape.kind ≠ .input := by
  obtain ⟨-, shape, hshape, rfl⟩ := NamedType.toGraph?_eq_some_iff.1 hgraph
  obtain ⟨name, description, directives, own⟩ := type
  cases own <;> cases hshape <;> exact ⟨rfl, rfl, nofun⟩

theorem directivesOf_subset {shape : Shape} (hkind : shape.kind ≠ .input) :
    (directivesOf shape).map (·.name) ⊆ ["specifiedBy"] := by
  cases shape with
  | scalar specification => cases specification <;> simp [directivesOf]
  | input fields isOneOf => contradiction
  | _ => exact List.nil_subset _

theorem deprecationOf_subset (deprecation : Option String) :
    (deprecationOf deprecation).map (·.name) ⊆ ["deprecated"] := by
  cases deprecation with
  | none => exact List.nil_subset _
  | some reason =>
      rw [deprecationOf]
      split_ifs <;> exact List.Subset.refl _

theorem Shape.kind_redirected (shape : Shape) : shape.redirected.kind = shape.kind := by
  cases shape <;> rfl

theorem Shape.fields_redirected (shape : Shape) :
    shape.redirected.fields = shape.fields.map Field.redirected := by
  cases shape <;> rfl

/-- The only directives that are left are those of specifications and of deprecations. -/
theorem directives_redirected (schema : Schema) :
    ∀ type ∈ schema.redirected.toGraph.types, type.directives ⊆ ["specifiedBy"] ∧
      ∀ field ∈ type.fields, field.directives ⊆ ["deprecated"] := by
  intro found hfound
  obtain ⟨type, htype, hgraph⟩ := List.mem_filterMap.1 hfound
  obtain ⟨hdirectives, hfields, hkind⟩ := NamedType.fields_toGraph? hgraph
  rw [hdirectives, hfields]
  rcases orderedTypes_cases htype with ⟨-, hbuilt⟩ | ⟨-, hown⟩
  · have hbare : ∀ type ∈ BuiltIn.types, type.directives = [] ∧
        ∀ field ∈ type.shape.fields, field.directives = [] := by decide
    rw [(hbare type hbuilt).1]
    refine ⟨List.nil_subset _, List.forall_mem_map.2 fun field hfield => ?_⟩
    rw [Field.toGraph, (hbare type hbuilt).2 field hfield]
    exact List.nil_subset _
  · obtain ⟨source, hsource, rfl⟩ := List.mem_map.1 hown
    rw [NamedType.redirected] at hkind ⊢
    refine ⟨directivesOf_subset (source.shape.kind_redirected ▸ hkind), ?_⟩
    dsimp only
    rw [Shape.fields_redirected, List.map_map]
    exact List.forall_mem_map.2 fun field _ => deprecationOf_subset field.deprecation

/-- With fewer directives every definition of a compiled document is closed. -/
theorem document_redirected [Runtime] (schema : Schema) (settings : Settings) (asked : Json) :
    schema.redirected.toGraph.document settings asked =
      (schema.toGraph.document settings asked).map
        (·.redefined fun _ definition => { definition with isOpen := false }) := by
  have htypes := (corresponds_closesLike schema).types_toGraph
  have hobjects : List.Forall₂ ClosesLike schema.toGraph.objects
      schema.redirected.toGraph.objects := by
    refine List.rel_filter ?_ htypes
    intro type another hpair
    simp only [hpair.same.sameButFields.isObject_eq]
  refine (sameButDirectives_redirected schema).document_eq _ ?_ settings asked
  obtain ⟨hlength, hzip⟩ := List.forall₂_iff_zip.1 hobjects
  refine List.forall₂_iff_zip.2 ⟨hlength, fun {type other} hmem => ?_⟩
  have hpair := hzip hmem
  have hobject : other.isObject = true := (List.mem_filter.1 (List.of_mem_zip hmem).2).2
  refine ⟨hpair.same, fun properties => ?_⟩
  rw [TypeGraph.definitionOf, TypeGraph.definitionOf, hpair.same.name_eq, hpair.closed hobject]
  rfl

end

end Schema

end ConfigSchema
