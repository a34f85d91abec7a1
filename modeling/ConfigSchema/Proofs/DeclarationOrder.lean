import ConfigSchema.Proofs.DocumentSchemas
import ConfigSchema.Proofs.LoadedGraphs
import ConfigSchema.Proofs.Merging
import ConfigSchema.Proofs.PatternMatches

/-!
# Declaration order

The object types of a graph are those that the definitions of its sources introduce, in the order
of their first definitions; each has the parts of its definition and then those of its extensions.
The built-in types that a schema lists in between are no object types of a graph, so they change
neither the order nor what a document defines.
-/

namespace ConfigSchema

/-- A field as graphs hold it. -/
def Sdl.FieldDefinition.toGraph (field : Sdl.FieldDefinition) : Field :=
  { name := field.name, type := field.type, description := Schema.textOf field.description
    directives := field.directives.map (·.name) }

namespace Schema

variable {schema : Schema} {document : Sdl.Document} {name : String}

/-! ## Searches and walks -/

theorem mem_of_mem_gather {references : String → List String} {remaining pending : List String}
    (hmem : name ∈ gather references remaining pending) : name ∈ remaining := by
  fun_induction gather references remaining pending with
  | case1 => contradiction
  | case2 remaining pending first hfirst ih =>
      rcases List.mem_cons.1 hmem with rfl | hrest
      · exact List.contains_iff_mem.1 (List.find?_some hfirst)
      · exact List.mem_of_mem_erase (ih hrest)

theorem nodup_gather {references : String → List String} {remaining pending : List String}
    (hnodup : remaining.Nodup) : (gather references remaining pending).Nodup := by
  fun_induction gather references remaining pending with
  | case1 => exact List.nodup_nil
  | case2 remaining pending first hfirst ih =>
      refine List.nodup_cons.2 ⟨?_, ih (hnodup.erase first)⟩
      intro hmem
      exact hnodup.not_mem_erase (mem_of_mem_gather hmem)

/-- A walk that leaves out what it finds on the way names its own starting points in order. -/
theorem filterMap_walk {β : Type} {references : String → List String} {remaining : List String}
    {f : String → Option β} (hnone : ∀ name ∈ remaining, f name = none)
    (starts : List (Option String × List String)) :
    (walk references remaining starts).filterMap f =
      (starts.filterMap (·.1)).filterMap f := by
  induction starts generalizing remaining with
  | nil => rfl
  | cons start rest ih =>
      obtain ⟨own, pending⟩ := start
      have hfound : (gather references remaining pending).filterMap f = [] := by
        rw [List.filterMap_eq_nil_iff]
        intro name hname
        exact hnone name (mem_of_mem_gather hname)
      rw [walk, List.filterMap_append, List.filterMap_append, hfound, List.append_nil,
        ih fun name hname => hnone name (List.mem_of_mem_filter hname)]
      cases own with
      | none => rfl
      | some own =>
          rw [← List.filterMap_append]
          rfl

theorem mem_of_mem_walk {references : String → List String} {remaining : List String}
    {starts : List (Option String × List String)} (hmem : name ∈ walk references remaining starts) :
    name ∈ starts.filterMap (·.1) ∨ name ∈ remaining := by
  induction starts generalizing remaining with
  | nil => contradiction
  | cons start rest ih =>
      obtain ⟨own, pending⟩ := start
      rw [walk, List.mem_append, List.mem_append] at hmem
      rcases hmem with (hown | hfound) | hrest
      · cases own with
        | none => contradiction
        | some own =>
            rw [Option.toList_some, List.mem_singleton] at hown
            subst hown
            exact .inl List.mem_cons_self
      · exact .inr (mem_of_mem_gather hfound)
      · rcases ih hrest with hstart | hremains
        · refine .inl ?_
          cases own with
          | none => exact hstart
          | some own => exact List.mem_cons_of_mem _ hstart
        · exact .inr (List.mem_of_mem_filter hremains)

theorem nodup_walk {references : String → List String} {remaining : List String}
    (hremaining : remaining.Nodup) {starts : List (Option String × List String)}
    (hstarts : (starts.filterMap (·.1)).Nodup)
    (hapart : ∀ name ∈ starts.filterMap (·.1), name ∉ remaining) :
    (walk references remaining starts).Nodup := by
  induction starts generalizing remaining with
  | nil => exact List.nodup_nil
  | cons start rest ih =>
      obtain ⟨own, pending⟩ := start
      have hlater :
          ∀ name ∈ rest.filterMap (·.1), name ∈ ((own, pending) :: rest).filterMap (·.1) := by
        intro name hname
        cases own with
        | none => exact hname
        | some own => exact List.mem_cons_of_mem _ hname
      have hrest := ih (hremaining.filter fun name =>
          !(gather references remaining pending).contains name)
        (hstarts.sublist ((List.sublist_cons_self _ _).filterMap _))
        fun name hname hremains => hapart name (hlater name hname) (List.mem_of_mem_filter hremains)
      have hfound : (gather references remaining pending).Nodup := nodup_gather hremaining
      have hbehind : ∀ name ∈ gather references remaining pending,
          name ∉ walk references
            (remaining.filter fun name => !(gather references remaining pending).contains name)
            rest := by
        intro name hname hwalk
        rcases mem_of_mem_walk hwalk with hstart | hremains
        · exact hapart name (hlater name hstart) (mem_of_mem_gather hname)
        · simp [hname] at hremains
      have hboth := List.nodup_append.2 ⟨hfound, hrest,
        fun one hone other hother heq => hbehind one hone (heq ▸ hother)⟩
      rw [walk, List.append_assoc]
      cases own with
      | none => exact hboth
      | some own =>
          change (own :: (gather references remaining pending ++ _)).Nodup
          refine List.nodup_cons.2 ⟨?_, hboth⟩
          have hown : own ∈ ((some own, pending) :: rest).filterMap (·.1) := List.mem_cons_self
          intro hmem
          rcases List.mem_append.1 hmem with hgathered | hwalk
          · exact hapart own hown (mem_of_mem_gather hgathered)
          · rcases mem_of_mem_walk hwalk with hstart | hremains
            · exact (List.nodup_cons.1 hstarts).1 hstart
            · exact hapart own hown (List.mem_of_mem_filter hremains)

/-- Where the walk over a schema sets out. -/
def starts (schema : Schema) : List (Option String × List String) :=
  (schema.types.map (·.name)).map (fun name => (some name, schema.referencesOf name)) ++
    [(none, schema.roots.names),
      (none, schema.directives.flatMap fun d => d.arguments.map (·.type.base)),
      (none, ["__Schema"])]

theorem orderedNames_eq_walk (schema : Schema) :
    schema.orderedNames = walk schema.referencesOf
      (Sdl.BuiltIn.typeNames.filter fun name => !(schema.types.map (·.name)).contains name)
      schema.starts :=
  rfl

theorem filterMap_starts (schema : Schema) :
    schema.starts.filterMap (·.1) = schema.types.map (·.name) := by
  rw [starts, List.filterMap_append, List.filterMap_map]
  simp

theorem nodup_orderedNames (hnodup : (schema.types.map (·.name)).Nodup) :
    schema.orderedNames.Nodup := by
  rw [orderedNames_eq_walk]
  refine nodup_walk ?_ ?_ ?_
  · exact (show Sdl.BuiltIn.typeNames.Nodup by decide).filter _
  · rw [filterMap_starts]
    exact hnodup
  · intro name hname
    rw [filterMap_starts, ← List.contains_iff_mem] at hname
    rw [List.mem_filter, hname]
    simp

theorem nodup_names_toGraph (hnodup : (schema.types.map (·.name)).Nodup) :
    (schema.toGraph.types.map (·.name)).Nodup := by
  have hnames : schema.toGraph.types.map (·.name) = schema.orderedNames.filterMap fun name =>
      ((schema.type? name).bind NamedType.toGraph?).map (·.name) := by
    have htypes : schema.toGraph.types =
        (schema.orderedNames.filterMap schema.type?).filterMap NamedType.toGraph? := rfl
    rw [htypes, List.filterMap_filterMap, List.map_filterMap]
  have hself : ∀ name found, found ∈ ((schema.type? name).bind NamedType.toGraph?).map (·.name) →
      found = name := by
    intro name found hfound
    obtain ⟨type, htype, rfl⟩ := Option.map_eq_some_iff.1 hfound
    obtain ⟨named, hnamed, hgraph⟩ := Option.bind_eq_some_iff.1 htype
    obtain ⟨-, _, -, rfl⟩ := NamedType.toGraph?_eq_some_iff.1 hgraph
    exact name_of_type? hnamed
  rw [hnames]
  apply (nodup_orderedNames hnodup).filterMap
  intro one other found hone hother
  rw [← hself one found hone, ← hself other found hother]

/-! ## Object types -/

/-- The object type that a definition introduces, with what the extensions of its name add. -/
def objectOf? (document : Sdl.Document) (about : Option Sdl.Literal) (node : Sdl.TypeNode) :
    Option TypeDef :=
  if node.name ∈ Sdl.BuiltIn.typeNames then none
  else
    match node.body with
    | .object .. =>
        let parts := node :: extensionsOf document node.name
        some {
          name := node.name, description := textOf about
          directives := (parts.flatMap (·.directives)).map (·.name)
          shape := .object ((parts.flatMap (·.body.fields)).map Sdl.FieldDefinition.toGraph)
            (parts.flatMap (·.body.interfaces)) }
    | _ => none

theorem toGraph_of_field? {field : Sdl.FieldDefinition} {made : Field}
    (hmade : field? field = some made) : made.toGraph = field.toGraph := by
  unfold field? at hmade
  simp only [Option.bind_eq_bind, Option.bind_eq_some_iff, pure, Option.some.injEq] at hmade
  obtain ⟨arguments, -, deprecation, -, rfl⟩ := hmade
  rfl

/-- An object type of the graph, if a name stands for one. -/
def objectNamed? (schema : Schema) (name : String) : Option TypeDef :=
  ((schema.type? name).bind NamedType.toGraph?).filter (·.isObject)

theorem objectNamed?_of_builtIn (hname : name ∈ Sdl.BuiltIn.typeNames) :
    schema.objectNamed? name = none := by
  have hall : ∀ type ∈ BuiltIn.types, type.toGraph?.filter (·.isObject) = none := by decide
  have hfound : (BuiltIn.type? name).isSome = true := by
    rw [← not_not (a := (BuiltIn.type? name).isSome = true), Option.not_isSome_iff_eq_none,
      BuiltIn.type?_eq_none_iff, not_not]
    exact hname
  obtain ⟨type, htype⟩ := Option.isSome_iff_exists.1 hfound
  rw [objectNamed?, type?, htype, Option.some_or]
  exact hall type (BuiltIn.mem_of_type? htype).1

theorem objects_toGraph_eq_filterMap (schema : Schema) :
    schema.toGraph.objects = (schema.types.map (·.name)).filterMap schema.objectNamed? := by
  have hnames : schema.toGraph.objects = schema.orderedNames.filterMap schema.objectNamed? := by
    have htypes : schema.toGraph.types =
        (schema.orderedNames.filterMap schema.type?).filterMap NamedType.toGraph? := rfl
    rw [TypeGraph.objects, htypes, List.filterMap_filterMap, List.filter_filterMap]
    rfl
  have hnone : ∀ name ∈ Sdl.BuiltIn.typeNames.filter fun name =>
      !(schema.types.map (·.name)).contains name, schema.objectNamed? name = none :=
    fun name hname => objectNamed?_of_builtIn (List.mem_of_mem_filter hname)
  rw [hnames, orderedNames_eq_walk, filterMap_walk hnone, filterMap_starts]

theorem kind_of_shape? {directives : List Sdl.Directive} {body : Sdl.TypeBody} {shape : Shape}
    (hshape : shape? directives body = some shape) : shape.kind = body.kind := by
  cases body with
  | union members =>
      cases hshape
      rfl
  | _ =>
      obtain ⟨_, -, rfl⟩ := Option.map_eq_some_iff.1 hshape
      rfl

theorem filter_isObject_eq_none {type : NamedType} (hkind : type.shape.kind ≠ .object) :
    type.toGraph?.filter (·.isObject) = none := by
  cases hgraph : type.toGraph? with
  | none => rfl
  | some made =>
      obtain ⟨-, shape, hshape, rfl⟩ := NamedType.toGraph?_eq_some_iff.1 hgraph
      cases hown : type.shape with
      | object interfaces fields => simp [hown, Shape.kind] at hkind
      | input fields isOneOf => simp [hown, Shape.toGraph?] at hshape
      | _ =>
          rw [hown] at hshape
          cases hshape
          rfl

theorem objectOf?_of_namedType? (hvalid : document.isValid = true) {about : Option Sdl.Literal}
    {node : Sdl.TypeNode} (hnode : .type about node ∈ document) {type : NamedType}
    (htype : namedType? document about node = some type) :
    type.toGraph?.filter (·.isObject) = objectOf? document about node := by
  unfold namedType? at htype
  split at htype
  · next found hbuilt =>
      cases htype
      obtain ⟨hmem, hname⟩ := BuiltIn.mem_of_type? hbuilt
      have hall : ∀ type ∈ BuiltIn.types, type.toGraph?.filter (·.isObject) = none := by decide
      have hnames : node.name ∈ Sdl.BuiltIn.typeNames := by
        rw [← BuiltIn.names_types, ← hname]
        exact List.mem_map_of_mem hmem
      rw [hall type hmem, objectOf?, if_pos hnames]
  · next hbuilt =>
      have hname := BuiltIn.type?_eq_none_iff.1 hbuilt
      have hintrospection : node.name ∉ Sdl.BuiltIn.introspectionNames :=
        fun hmem => hname (List.mem_append_right _ hmem)
      have hmerged : mergedBody node.body ((extensionsOf document node.name).map (·.body)) =
          node.body.followedBy ((extensionsOf document node.name).map (·.body)) := by
        apply mergedBody_eq_followedBy
        intro body hbody
        obtain ⟨extension, hextension, rfl⟩ := List.mem_map.1 hbody
        exact Sdl.kind_of_mem_extensionsOf hvalid hnode hextension
      obtain ⟨shape, hshape, rfl⟩ := Option.map_eq_some_iff.1 htype
      rw [hmerged] at hshape
      rw [objectOf?, if_neg hname]
      by_cases hkind : node.body.kind = .object
      · obtain ⟨interfaces, fields, hbody⟩ := Sdl.TypeBody.kind_eq_object_iff.1 hkind
        rw [hbody, Sdl.TypeBody.followedBy, shape?, Option.map_eq_some_iff] at hshape
        obtain ⟨made, hmade, rfl⟩ := hshape
        have hfields := Results.map_eq_of_mapM hmade
          fun field _ result hresult => toGraph_of_field? hresult
        rw [NamedType.toGraph?, if_neg (by simpa using hintrospection)]
        simp [Option.filter, Shape.toGraph?, TypeDef.isObject, hbody, hfields, Sdl.TypeBody.fields,
          Sdl.TypeBody.interfaces, List.flatMap_map]
      · have hshapeKind := kind_of_shape? hshape
        rw [Sdl.TypeBody.kind_followedBy] at hshapeKind
        rw [filter_isObject_eq_none (by rw [hshapeKind]; exact hkind)]
        cases hbody : node.body with
        | object interfaces fields => simp [hbody, Sdl.TypeBody.kind] at hkind
        | _ => rfl

/-- The object types of a graph are those that the definitions of the document introduce. -/
theorem IsOf.objects_toGraph [Runtime] (hof : schema.IsOf document) :
    schema.toGraph.objects =
      (Sdl.typeDefinitions document).filterMap fun (about, node) =>
        objectOf? document about node := by
  have htypes := hof.types
  rw [typesOf?_eq] at htypes
  have hown : schema.types.filterMap (fun type => type.toGraph?.filter (·.isObject)) =
      (schema.types.map (·.name)).filterMap schema.objectNamed? := by
    rw [List.filterMap_map]
    apply List.filterMap_congr
    intro type htype
    rw [Function.comp_apply, objectNamed?, hof.type?_of_mem htype]
    rfl
  rw [objects_toGraph_eq_filterMap, ← hown]
  apply Results.filterMap_eq_of_mapM htypes
  rintro ⟨about, node⟩ hnode type htype
  exact objectOf?_of_namedType? hof.isValid (Sdl.mem_typeDefinitions_iff.1 hnode) htype

/-- An object type of a graph has all parts of what the document says about its name. -/
theorem IsOf.parts_of_mem_objects [Runtime] (hof : schema.IsOf document) {type : TypeDef}
    (htype : type ∈ schema.toGraph.objects) :
    let parts := Sdl.partsOf document type.name
    type.fields = (parts.flatMap (·.body.fields)).map Sdl.FieldDefinition.toGraph ∧
      type.interfaces = parts.flatMap (·.body.interfaces) ∧
      type.directives = (parts.flatMap (·.directives)).map (·.name) := by
  rw [hof.objects_toGraph, List.mem_filterMap] at htype
  obtain ⟨⟨about, node⟩, hnode, hobject⟩ := htype
  have hdefinition := Sdl.definition?_of_mem hof.isValid (Sdl.mem_typeDefinitions_iff.1 hnode)
  simp only [objectOf?] at hobject
  split at hobject
  · contradiction
  · split at hobject
    · rw [Option.some.injEq] at hobject
      subst hobject
      simp only [Sdl.partsOf, hdefinition]
      exact ⟨rfl, rfl, rfl⟩
    · contradiction

end Schema

/-- The name of an object type that a definition introduces. -/
def Sdl.Definition.object? : Sdl.Definition → Option String
  | .type _ node => if node.body.kind = .object then some node.name else none
  | _ => none

theorem Sdl.Definition.object?_eq_some_iff {definition : Sdl.Definition} {name : String} :
    definition.object? = some name ↔
      ∃ about node,
        definition = .type about node ∧ node.body.kind = .object ∧ node.name = name := by
  cases definition <;> simp [object?]

namespace Schema

variable {schema : Schema} {document : Sdl.Document}

theorem IsOf.names_objects [Runtime] (hof : schema.IsOf document) :
    schema.toGraph.objects.map (·.name) =
      (document.filterMap Sdl.Definition.object?).filter (· ∉ Sdl.BuiltIn.typeNames) := by
  rw [hof.objects_toGraph, Sdl.typeDefinitions, List.filterMap_filterMap, List.map_filterMap,
    List.filter_filterMap]
  apply List.filterMap_congr
  intro definition _
  cases definition with
  | type about node =>
      simp only [Option.bind_some, Sdl.Definition.object?, objectOf?]
      by_cases hname : node.name ∈ Sdl.BuiltIn.typeNames
      · cases hbody : node.body <;> simp [hname, Option.filter, Sdl.TypeBody.kind]
      · cases hbody : node.body <;> simp [hname, Option.filter, Sdl.TypeBody.kind]
  | _ => rfl

end Schema

namespace Sdl

variable {document : Document}

/-! ## What a merge leaves as it is -/

theorem extensionsOf_firsts (document : Document) (name : String) :
    Schema.extensionsOf (firsts document) name = Schema.extensionsOf document name := by
  apply filterMap_firsts
  intro one other hsame
  cases one with
  | typeExtension node => contradiction
  | _ => rfl

theorem definition?_firsts (document : Document) (name : String) :
    definition? (firsts document) name = definition? document name := by
  apply findSome?_firsts
  intro one other hsame
  cases one <;> cases other <;> simp only [haveSameTitle, decide_eq_true_eq] at hsame ⊢ <;>
    first | contradiction | rfl | skip
  rw [hsame]
  split <;> rfl

theorem partsOf_firsts (document : Document) (name : String) :
    partsOf (firsts document) name = partsOf document name := by
  rw [partsOf, definition?_firsts, extensionsOf_firsts]
  rfl

theorem Agrees.filterMap_object?_firsts (hagrees : Agrees Sources.written document) :
    (firsts document).filterMap Definition.object? =
      (document.filterMap Definition.object?).eraseDups := by
  apply filterMap_firsts_eq_eraseDups
  · intro one hone other hother hsame
    cases one <;> cases other <;> simp only [haveSameTitle, decide_eq_true_eq] at hsame <;>
      first | contradiction | rfl | skip
    next about node another found =>
      have hkind := hagrees.kind_eq hone hother hsame
      simp only [Definition.object?, hkind, hsame]
  · intro one other hsame hsome
    obtain ⟨name, hone⟩ := Option.isSome_iff_exists.1 hsome
    obtain ⟨about, node, rfl, -, hname⟩ := Definition.object?_eq_some_iff.1 hone
    rw [hsame] at hone
    obtain ⟨another, found, rfl, -, hfound⟩ := Definition.object?_eq_some_iff.1 hone
    simp [haveSameTitle, hname, hfound]

end Sdl

/-! ## Patterns -/

/-- The files of a pattern come in the order of their names. -/
theorem Files.exists_sorted_of_pathsOf [Runtime] {files : FileSystem} {pattern : String}
    {paths : List Path} (hpaths : pathsOf files pattern = .ok paths) :
    ∃ texts : List String, texts.Pairwise (fun one other => Text.precedes one other = true) ∧
      paths = texts.map Path.ofText :=
  ⟨matchesOf files pattern, sorted_matchesOf files pattern, pathsOf_eq_of_ok hpaths⟩

namespace Sources

variable {around : Surroundings} {sources : List String} {schema : Schema}

/-- A pattern that loads stands for its files in the order of their names. -/
theorem documents_of_pattern [Runtime] {source : String} {found : List Sdl.Document}
    (hfound : (documents around source).result = .ok found) (hurl : isUrl source = false)
    (hpattern : Files.Glyph.isPattern source = true) (hbrace : hasBrace source = false) :
    ∃ texts : List String, texts.Pairwise (fun one other => Text.precedes one other = true) ∧
      Files.pathsOf around.files source = .ok (texts.map Path.ofText) ∧
      (texts.mapM fun text => documentOf around (.file (Path.ofText text))) = .ok found := by
  rw [result_documents, Results.bind_eq_ok_iff] at hfound
  obtain ⟨origins, horigins, hdocuments⟩ := hfound
  simp only [originsOf, hurl, hpattern, hbrace, Bool.false_eq_true, if_false, Bool.not_false,
    Bool.and_self, if_true] at horigins
  split at horigins
  · contradiction
  · contradiction
  · next paths _ hpaths =>
      obtain ⟨texts, hsorted, rfl⟩ := Files.exists_sorted_of_pathsOf hpaths
      refine ⟨texts, hsorted, hpaths, ?_⟩
      rw [Except.ok.injEq] at horigins
      subst horigins
      rw [List.map_map, List.mapM_map] at hdocuments
      exact hdocuments

theorem exists_documents_of_definitions [Runtime] {document : Sdl.Document}
    (hdefinitions : definitions around sources = .ok document) {source : String}
    (hsource : source ∈ sources) : ∃ found, (documents around source).result = .ok found := by
  obtain ⟨found, hfound, -⟩ := Results.map_eq_ok_iff.1 hdefinitions
  rw [Results.mapM_eq_ok_iff] at hfound
  obtain ⟨documents, -, hdocuments⟩ := Results.exists_right_of_forall₂ hfound hsource
  exact ⟨documents, hdocuments⟩

/-- Object types come in the order in which the sources first define them, with the parts of
their definition and then those of their extensions; so do the definitions of every document. -/
theorem load_keeps_declaration_order [Runtime] (hload : (load around sources).result = .ok schema) :
    ∃ document, definitions around sources = .ok document ∧
      let graph := schema.toGraph
      graph.objects.map (·.name) =
          ((document.filterMap Sdl.Definition.object?).eraseDups).filter
            (· ∉ Sdl.BuiltIn.typeNames) ∧
        (∀ type ∈ graph.objects,
          type.fields = ((Sdl.partsOf document type.name).flatMap (·.body.fields)).map
            Sdl.FieldDefinition.toGraph) ∧
        (∀ interface, graph.implementors interface =
          (graph.objects.map (·.name)).filter fun name =>
            ((Sdl.partsOf document name).flatMap (·.body.interfaces)).contains interface) ∧
        (∀ settings asked made, graph.document settings asked = .ok made →
          made.definitions.names = (graph.objects.map (·.name)).filter fun name =>
            !(TypeGraph.rootFor asked settings).isName name) ∧
        (∀ settings asked,
          ((∃ made, graph.document settings asked = .ok made) ↔
            graph.document settings asked ≠ .error (.graph .tooDeep) ∧
              (∀ type ∈ graph.objects, ∀ field ∈ type.fields,
                ¬ schema.MeetsIntrospection field.type.base) ∧
              (graph.hasRoot (TypeGraph.rootFor asked settings) = true ∨
                settings.allowMissingRoot.isTruthy = true)) ∧
          (graph.document settings asked = .error (.graph .tooDeep) →
            ¬ Runtime.HasRoomFor 7)) ∧
        ∀ source ∈ sources, isUrl source = false → Files.Glyph.isPattern source = true →
          hasBrace source = false →
          ∃ texts : List String, texts.Pairwise (fun one other => Text.precedes one other = true) ∧
            Files.pathsOf around.files source = .ok (texts.map Path.ofText) ∧
            (documents around source).result =
              texts.mapM fun text => documentOf around (.file (Path.ofText text)) := by
  obtain ⟨document, hdefinitions, hagrees, hschema⟩ := load_eq_ok_iff.1 hload
  have hof := Schema.ofDocument?_eq_some_iff.1 hschema
  have hparts : ∀ name, Sdl.partsOf (Sdl.firsts (marks ++ document)) name =
      Sdl.partsOf document name := Sdl.partsOf_firsts (marks ++ document)
  refine ⟨document, hdefinitions, ?_, ?_, ?_, ?_, ?_, ?_⟩
  · have hnames := (agrees_marks_append_iff.2 hagrees).filterMap_object?_firsts
    rw [hof.names_objects, hnames]
    rfl
  · intro type htype
    rw [← hparts]
    exact (hof.parts_of_mem_objects htype).1
  · intro interface
    rw [TypeGraph.implementors, List.filter_map]
    congr 1
    apply List.filter_congr
    intro type htype
    rw [Function.comp_apply, ← hparts, (hof.parts_of_mem_objects htype).2.1]
  · intro settings asked made hmade
    have hnodup : (schema.toGraph.objects.map (·.name)).Nodup :=
      (Schema.nodup_names_toGraph hof.nodup_names_types).sublist (List.filter_sublist.map _)
    exact TypeGraph.names_definitions_of_document hnodup hmade
  · intro settings asked
    rw [TypeGraph.exists_document_iff, ne_eq, TypeGraph.document_eq_graph_error_iff]
    rcases Schema.objectProperties_outcome hof.isWellKinded settings.describeVariants.isTruthy with
      ⟨⟨built, hbuilt⟩, hfree⟩ | ⟨hdeep, hfull⟩ |
        ⟨⟨type, htype, field, hfield, hmeets⟩, other, -, herror⟩
    · rw [hbuilt]
      simp only [Except.ok.injEq, exists_eq', true_and, reduceCtorEq, not_false_iff,
        false_implies, and_true]
      exact ⟨fun hroot => ⟨hfree, hroot⟩, fun hall => hall.2⟩
    · rw [hdeep]
      simp [hfull]
    · have hmet : ¬ ∀ type ∈ schema.toGraph.objects, ∀ field ∈ type.fields,
          ¬ schema.MeetsIntrospection field.type.base :=
        fun hfree => hfree type htype field hfield hmeets
      rw [herror]
      simp [hmet]
  · intro source hsource hurl hpattern hbrace
    obtain ⟨found, hfound⟩ := exists_documents_of_definitions hdefinitions hsource
    obtain ⟨texts, hsorted, hpaths, hdocuments⟩ :=
      documents_of_pattern hfound hurl hpattern hbrace
    exact ⟨texts, hsorted, hpaths, hfound.trans hdocuments.symm⟩

/-- A type that is extended in front of its definition, and one that is defined twice. -/
def scatteredSources : List String :=
  ["extend type Shelf \x7b size: Int \x7d type Query \x7b shelf: Shelf \x7d",
    "type Shelf implements Item \x7b name: ID \x7d interface Item \x7b name: ID \x7d " ++
      "type Query \x7b shelf: Shelf \x7d"]

section Usual

attribute [local instance] Runtime.usual

theorem scatteredSources_keep_order :
    ∃ schema, (load bareSurroundings scatteredSources).result = .ok schema ∧
      schema.toGraph.objects.map (·.name) = ["Query", "Shelf"] ∧
      (∀ type ∈ schema.toGraph.objects, type.name = "Shelf" →
        type.fields.map (·.name) = ["name", "size"]) ∧
      schema.toGraph.implementors "Item" = ["Shelf"] ∧
      ∃ made, schema.toGraph.document {} (.str "Query") = .ok made ∧
        made.definitions.names = ["Shelf"] := by
  have hloaded : ((load bareSurroundings scatteredSources).result.toOption.any fun schema =>
      schema.toGraph.types.all (fun type => type.label != "one of") &&
        schema.toGraph.objects.all fun type => type.fields.all fun field =>
          !Sdl.BuiltIn.introspectionNames.contains field.type.base) = true := by decide +kernel
  have hdefined : ((definitions bareSurroundings scatteredSources).toOption.any fun document =>
      document.filterMap Sdl.Definition.object? == ["Query", "Shelf", "Query"] &&
        (((Sdl.partsOf document "Shelf").flatMap (·.body.fields)).map (·.name) ==
          ["name", "size"]) &&
        (["Query", "Shelf"].map fun name =>
          (Sdl.partsOf document name).flatMap (·.body.interfaces)) == [[], ["Item"]]) = true := by
    decide +kernel
  cases hload : (load bareSurroundings scatteredSources).result with
  | error e =>
      rw [hload] at hloaded
      contradiction
  | ok schema =>
      obtain ⟨document, hdefinitions, hnames, hfields, himplementors, hkeys, hmakes, -⟩ :=
        load_keeps_declaration_order hload
      simp only [hload, Except.toOption, Option.any_some, Bool.and_eq_true,
        List.all_eq_true] at hloaded
      simp only [hdefinitions, Except.toOption, Option.any_some, Bool.and_eq_true, beq_iff_eq,
        List.map_cons, List.map_nil, List.cons.injEq, and_true] at hdefined
      obtain ⟨⟨hobjects, hshelf⟩, hquery, hitem⟩ := hdefined
      rw [hobjects] at hnames
      have hordered : schema.toGraph.objects.map (·.name) = ["Query", "Shelf"] := hnames
      refine ⟨schema, rfl, hordered, ?_, ?_, ?_⟩
      · intro type htype hname
        rw [hfields type htype, hname, List.map_map, ← hshelf]
        rfl
      · rw [himplementors, hordered, List.filter_cons_of_neg (by simp only [hquery]; decide),
          List.filter_cons_of_pos (by simp only [hitem]; decide), List.filter_nil]
      · have hmake : ∃ made, schema.toGraph.document {} (.str "Query") = .ok made := by
          refine (hmakes _ _).1.2 ⟨?_, ?_, .inl ?_⟩
          · exact fun hdeep => (hmakes _ _).2 hdeep (Runtime.hasRoomFor_usual (by decide))
          · rintro type htype field hfield ⟨other, hother, rfl | hlists⟩
            · have hplain := hloaded.2 type htype field hfield
              rw [Bool.not_eq_true', ← Bool.not_eq_true, List.contains_iff_mem] at hplain
              exact hplain hother
            · obtain ⟨union, members, hunion, hshape, -⟩ := hlists
              have hplain := hloaded.1 union (Schema.mem_types_of_get? hunion)
              simp [TypeDef.label, hshape] at hplain
          · have hroot : "Query" ∈ schema.toGraph.objects.map (·.name) := by
              rw [hordered]
              exact List.mem_cons_self
            obtain ⟨type, htype, hname⟩ := List.mem_map.1 hroot
            exact List.any_eq_true.2 ⟨type, htype, TypeGraph.isName_str_iff.2 hname⟩
        obtain ⟨made, hmade⟩ := hmake
        refine ⟨made, hmade, ?_⟩
        rw [hkeys _ _ _ hmade, hordered]
        rfl

end Usual

end Sources

end ConfigSchema
