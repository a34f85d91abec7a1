import ConfigSchema.Proofs.DeclarationOrder
import ConfigSchema.Proofs.RelistedSchemas

/-!
# Declared types

A type of a graph is built in, or it comes from a definition: it has the fields of the definition
and of all extensions, and it lists what they list.  A definition with the name of a built-in type
says nothing.
-/

namespace ConfigSchema

namespace Sdl

/-- The fields that a document declares for a type. -/
def fieldsOf (document : Document) (name : String) : List FieldDefinition :=
  if name ∈ BuiltIn.typeNames then [] else (partsOf document name).flatMap (·.body.fields)

/-- The interfaces that a document declares for a type. -/
def interfacesOf (document : Document) (name : String) : List String :=
  if name ∈ BuiltIn.typeNames then [] else (partsOf document name).flatMap (·.body.interfaces)

namespace TypeBody

/-- Bodies of a kind without some parts have none of these parts together. -/
theorem flatMap_eq_nil_of_kind {β : Type} {part : TypeBody → List β} {first : TypeBody}
    (hnone : ∀ body : TypeBody, body.kind = first.kind → part body = []) {more : List TypeBody}
    (hkinds : ∀ body ∈ more, body.kind = first.kind) : more.flatMap part = [] :=
  List.flatMap_eq_nil_iff.2 fun body hbody => hnone body (hkinds body hbody)

variable {first : TypeBody} {more : List TypeBody}

theorem fields_followedBy_eq (hkinds : ∀ body ∈ more, body.kind = first.kind) :
    (first.followedBy more).fields = (first :: more).flatMap fields := by
  rw [List.flatMap_cons]
  cases first with
  | object interfaces fields => rfl
  | interface interfaces fields => rfl
  | _ =>
      rw [flatMap_eq_nil_of_kind (by rintro ⟨⟩ <;> simp [kind, fields]) hkinds]
      rfl

theorem interfaces_followedBy_eq (hkinds : ∀ body ∈ more, body.kind = first.kind) :
    (first.followedBy more).interfaces = (first :: more).flatMap interfaces := by
  rw [List.flatMap_cons]
  cases first with
  | object interfaces fields => rfl
  | interface interfaces fields => rfl
  | _ =>
      rw [flatMap_eq_nil_of_kind (by rintro ⟨⟩ <;> simp [kind, interfaces]) hkinds]
      rfl

theorem mem_listed_of_mem_interfaces {body : TypeBody} {name : String}
    (hmem : name ∈ body.interfaces) : name ∈ body.listed := by
  cases body <;> first | exact hmem | contradiction

/-- Input objects list nothing. -/
theorem kind_ne_input_of_mem_listed {body : TypeBody} {name : String}
    (hmem : name ∈ body.listed) : body.kind ≠ .input := by
  cases body <;> first | contradiction | simp [kind]

end TypeBody

end Sdl

namespace Schema

variable {schema : Schema} {document : Sdl.Document} {name : String} {type : TypeDef}

/-! ## Definitions of types -/

/-- A type that is not built in comes from a definition. -/
theorem IsOf.exists_definition_of_mem [Runtime] (hof : schema.IsOf document)
    (htype : type ∈ schema.toGraph.types) (hname : type.name ∉ Sdl.BuiltIn.typeNames) :
    ∃ about node named, .type about node ∈ document ∧ node.name = type.name ∧
      namedType? document about node = some named ∧ named.toGraph? = some type := by
  obtain ⟨named, hnamed, hgraph⟩ := mem_types_toGraph_iff.1 htype
  obtain ⟨-, shape, hshape, rfl⟩ := NamedType.toGraph?_eq_some_iff.1 hgraph
  have hown : named ∈ schema.types := by
    rcases type?_cases (mem_orderedTypes_iff.1 hnamed).2 with ⟨-, hbuilt⟩ | ⟨-, hmem, -⟩
    · exact absurd hbuilt hname
    · exact hmem
  have htypes := hof.types
  rw [typesOf?_eq, Results.mapM_eq_some_iff] at htypes
  obtain ⟨⟨about, node⟩, hnode, hfound⟩ := Results.exists_left_of_forall₂ htypes hown
  exact ⟨about, node, named, Sdl.mem_typeDefinitions_iff.1 hnode,
    (name_of_namedType? hfound).symm, hfound, hgraph⟩

/-- A definition introduces a type unless it is one of an input object or has a built-in name. -/
theorem IsOf.exists_of_definition [Runtime] (hof : schema.IsOf document)
    {about : Option Sdl.Literal} {node : Sdl.TypeNode} (hnode : .type about node ∈ document)
    (hkind : node.body.kind ≠ .input) (hname : node.name ∉ Sdl.BuiltIn.typeNames) :
    ∃ type ∈ schema.toGraph.types, type.name = node.name := by
  have htypes := hof.types
  rw [typesOf?_eq, Results.mapM_eq_some_iff] at htypes
  obtain ⟨named, hnamed, hfound⟩ := Results.exists_right_of_forall₂ htypes
    (Sdl.mem_typeDefinitions_iff.2 hnode)
  have hsame := name_of_namedType? hfound
  have hshapeKind : named.shape.kind ≠ .input := by
    simp only [namedType?, BuiltIn.type?_eq_none_iff.2 hname] at hfound
    obtain ⟨shape, hshape, rfl⟩ := Option.map_eq_some_iff.1 hfound
    rw [mergedBody_of_isValid hof.isValid hnode] at hshape
    rw [kind_of_shape? hshape, Sdl.TypeBody.kind_followedBy]
    exact hkind
  have hintrospection : named.name ∉ Sdl.BuiltIn.introspectionNames := by
    rw [hsame]
    exact fun hbuilt => hname (List.mem_append_right _ hbuilt)
  obtain ⟨type, htype⟩ := NamedType.exists_toGraph? hintrospection hshapeKind
  have hordered : named ∈ schema.orderedTypes :=
    mem_orderedTypes_iff.2 ⟨mem_orderedNames_of_own hnamed, hof.type?_of_mem hnamed⟩
  obtain ⟨-, shape, -, rfl⟩ := NamedType.toGraph?_eq_some_iff.1 htype
  exact ⟨_, mem_types_toGraph_iff.2 ⟨named, hordered, htype⟩, hsame⟩

/-- What is extended is defined, as a type of the same kind. -/
theorem exists_definition_of_extension (hvalid : document.isValid = true)
    {extension : Sdl.TypeNode} (hextension : extension ∈ extensionsOf document name) :
    ∃ about node, .type about node ∈ document ∧ node.name = name ∧
      node.body.kind = extension.body.kind := by
  obtain ⟨hmem, rfl⟩ := Sdl.mem_extensionsOf_iff.1 hextension
  have hpossible :=
    Sdl.Document.satisfies hvalid Sdl.Document.hasPossibleExtensions (by simp [Sdl.Document.rules])
  obtain ⟨definition, hdefinition, hmatches⟩ :=
    List.any_eq_true.1 (List.all_eq_true.1 hpossible _ hmem)
  cases definition with
  | type about node =>
      simp only [Bool.and_eq_true, decide_eq_true_eq] at hmatches
      exact ⟨about, node, hdefinition, hmatches.1, hmatches.2⟩
  | _ => contradiction

/-- A name of which anything is said is that of a type in the graph, unless it is built in or that
of an input object. -/
theorem IsOf.exists_of_mem_partsOf [Runtime] (hof : schema.IsOf document) {part : Sdl.TypeNode}
    (hpart : part ∈ Sdl.partsOf document name) (hkind : part.body.kind ≠ .input)
    (hname : name ∉ Sdl.BuiltIn.typeNames) : ∃ type ∈ schema.toGraph.types, type.name = name := by
  rcases List.mem_append.1 hpart with hdefinition | hextension
  · obtain ⟨definition, hmem, hself⟩ :=
      List.exists_of_findSome?_eq_some (Option.mem_toList.1 hdefinition)
    cases definition with
    | type about node =>
        simp only [Option.ite_none_right_eq_some, Option.some.injEq] at hself
        obtain ⟨rfl, rfl⟩ := hself
        exact hof.exists_of_definition hmem hkind hname
    | _ => contradiction
  · obtain ⟨about, node, hnode, rfl, hsame⟩ :=
      exists_definition_of_extension hof.isValid hextension
    exact hof.exists_of_definition hnode (by rw [hsame]; exact hkind) hname

/-! ## What types say -/

/-- The types of a graph list what the document lists. -/
theorem IsOf.listed_of_mem [Runtime] (hof : schema.IsOf document)
    (htype : type ∈ schema.toGraph.types) (hname : type.name ∉ Sdl.BuiltIn.typeNames) :
    type.shape.listed = Sdl.listedBy document type.name := by
  obtain ⟨about, node, named, hnode, hsame, hfound, hgraph⟩ :=
    hof.exists_definition_of_mem htype hname
  rw [← hsame] at hname ⊢
  rw [← listed_of_namedType? hof.isValid hnode hfound hname]
  obtain ⟨-, shape, hshape, rfl⟩ := NamedType.toGraph?_eq_some_iff.1 hgraph
  cases hnamedShape : named.shape <;> rw [hnamedShape] at hshape <;> cases hshape <;> rfl

theorem says_of_shape? {directives : List Sdl.Directive} {body : Sdl.TypeBody} {shape : Shape}
    (hshape : shape? directives body = some shape) {made : TypeShape}
    (hmade : shape.toGraph? = some made) (hown : type.shape = made) :
    type.fields = body.fields.map Sdl.FieldDefinition.toGraph ∧
      type.interfaces = body.interfaces := by
  have hfields : ∀ {fields : List Sdl.FieldDefinition} {all : List Field},
      fields.mapM field? = some all →
        all.map Field.toGraph = fields.map Sdl.FieldDefinition.toGraph :=
    fun hall => Results.map_eq_of_mapM hall fun field _ result hresult => toGraph_of_field? hresult
  subst hown
  cases body with
  | object interfaces fields =>
      obtain ⟨all, hall, rfl⟩ := Option.map_eq_some_iff.1 hshape
      rw [TypeDef.fields, TypeDef.fields?, TypeDef.interfaces, ← Option.some.inj hmade]
      exact ⟨hfields hall, rfl⟩
  | interface interfaces fields =>
      obtain ⟨all, hall, rfl⟩ := Option.map_eq_some_iff.1 hshape
      rw [TypeDef.fields, TypeDef.fields?, TypeDef.interfaces, ← Option.some.inj hmade]
      exact ⟨hfields hall, rfl⟩
  | union members =>
      obtain rfl := Option.some.inj hshape
      rw [TypeDef.fields, TypeDef.fields?, TypeDef.interfaces, ← Option.some.inj hmade]
      exact ⟨rfl, rfl⟩
  | input fields =>
      obtain ⟨all, -, rfl⟩ := Option.map_eq_some_iff.1 hshape
      contradiction
  | _ =>
      obtain ⟨all, -, rfl⟩ := Option.map_eq_some_iff.1 hshape
      rw [TypeDef.fields, TypeDef.fields?, TypeDef.interfaces, ← Option.some.inj hmade]
      exact ⟨rfl, rfl⟩

theorem says_of_builtIn (htype : type ∈ schema.toGraph.types)
    (hname : type.name ∈ Sdl.BuiltIn.typeNames) : type.fields = [] ∧ type.interfaces = [] := by
  have hall : ∀ named ∈ BuiltIn.types, ∀ made, named.toGraph? = some made →
      made.fields = [] ∧ made.interfaces = [] := by decide
  obtain ⟨named, hnamed, hgraph⟩ := mem_types_toGraph_iff.1 htype
  obtain ⟨-, _, -, heq⟩ := NamedType.toGraph?_eq_some_iff.1 hgraph
  rcases type?_cases (mem_orderedTypes_iff.1 hnamed).2 with ⟨hbuilt, -⟩ | ⟨hother, -, -⟩
  · exact hall named (BuiltIn.mem_of_type? hbuilt).1 type hgraph
  · rw [heq] at hname
    exact absurd hname hother

/-- A type has the fields and the interfaces that the document declares for its name. -/
theorem IsOf.says_of_mem [Runtime] (hof : schema.IsOf document)
    (htype : type ∈ schema.toGraph.types) :
    type.fields = (Sdl.fieldsOf document type.name).map Sdl.FieldDefinition.toGraph ∧
      type.interfaces = Sdl.interfacesOf document type.name := by
  by_cases hname : type.name ∈ Sdl.BuiltIn.typeNames
  · rw [Sdl.fieldsOf, Sdl.interfacesOf, if_pos hname, if_pos hname]
    exact says_of_builtIn htype hname
  · obtain ⟨about, node, named, hnode, hsame, hfound, hgraph⟩ :=
      hof.exists_definition_of_mem htype hname
    obtain ⟨-, made, hmade, heq⟩ := NamedType.toGraph?_eq_some_iff.1 hgraph
    rw [Sdl.fieldsOf, Sdl.interfacesOf, if_neg hname, if_neg hname, ← hsame, Sdl.partsOf,
      Sdl.definition?_of_mem hof.isValid hnode]
    rw [← hsame] at hname
    simp only [namedType?, BuiltIn.type?_eq_none_iff.2 hname] at hfound
    obtain ⟨shape, hshape, rfl⟩ := Option.map_eq_some_iff.1 hfound
    rw [mergedBody_of_isValid hof.isValid hnode] at hshape
    have hkinds : ∀ body ∈ (extensionsOf document node.name).map (·.body),
        body.kind = node.body.kind := fun _ => kind_of_mem_bodies hof.isValid hnode
    have hown : type.shape = made := by rw [heq]
    obtain ⟨hfields, hinterfaces⟩ := says_of_shape? hshape hmade hown
    rw [hfields, hinterfaces, Sdl.TypeBody.fields_followedBy_eq hkinds,
      Sdl.TypeBody.interfaces_followedBy_eq hkinds]
    simp only [List.flatMap_cons, List.flatMap_map, Option.toList_some, List.cons_append,
      List.nil_append, and_self]

end Schema

end ConfigSchema
