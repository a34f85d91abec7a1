import ConfigSchema.Proofs.DocumentKeys
import ConfigSchema.Proofs.OutlineDepth
import ConfigSchema.Proofs.Markings
import ConfigSchema.Proofs.RepeatedSources

/-!
# Marked types

A mark counts wherever it is applied to a type: at its definition or at any extension.  Marks may
be applied without being defined, and what a source defines in their names has no effect, for
their own definitions come first.
-/

namespace ConfigSchema

namespace TypeGraph

theorem isObject_of_mem_documented {graph : TypeGraph} {type : TypeDef}
    (htype : type ∈ graph.documented) : type.isObject = true :=
  (mem_objects_iff.1 (List.mem_of_mem_filter htype)).2

section

variable [Runtime] {graph : TypeGraph} {type : TypeDef} {settings : Settings}

/-! ## Fragments -/

theorem fragmentOf_cases (hkind : type.isObject = true) (under : List Call) :
    ¬ graph.LacksRoom (.renderType :: under) [type.name] type ∧
        (∃ text, graph.fragmentOf type under = .ok text) ∨
      graph.LacksRoom (.renderType :: under) [type.name] type ∧
        graph.fragmentOf type under = .error .tooDeep ∨
      ∃ name, graph.fragmentOf type under = .error (.unknownType name) := by
  unfold fragmentOf
  rcases fieldLines_cases (TypeDef.fields?_of_isObject hkind) [type.name] 0
    (.renderType :: under) with ⟨hroom, hok, -⟩ | ⟨hlacks, herror⟩ | ⟨_, _, part, -, -, herror⟩
  · exact .inl ⟨hroom, _, by rw [hok]; rfl⟩
  · exact .inr (.inl ⟨hlacks, by rw [herror]; rfl⟩)
  · exact .inr (.inr ⟨part.target, by rw [herror]; rfl⟩)

/-- There is one fragment for each documented type, in order. -/
theorem names_fragments {fragments : List Fragment}
    (hok : graph.fragments settings = .ok fragments) :
    fragments.map (·.typeName) = graph.documented.map (·.name) := by
  have hall := Results.mapM_eq_ok_iff.1 (inRoom_eq_ok_iff.1 hok).2
  generalize graph.documented = types at hall
  clear hok
  induction hall with
  | nil => rfl
  | @cons type fragment rest others hfirst _ ih =>
      obtain ⟨content, -, rfl⟩ := Results.map_eq_ok_iff.1 hfirst
      rw [List.map_cons, List.map_cons, ih]

theorem fragmentOf_of_fragments {fragments : List Fragment}
    (hok : graph.fragments settings = .ok fragments) (htype : type ∈ graph.documented) :
    ∃ text, graph.fragmentOf type [.render] = .ok text := by
  have hall := Results.mapM_eq_ok_iff.1 (inRoom_eq_ok_iff.1 hok).2
  obtain ⟨fragment, -, hfragment⟩ := Results.exists_right_of_forall₂ hall htype
  obtain ⟨text, htext, -⟩ := Results.map_eq_ok_iff.1 hfragment
  exact ⟨text, htext⟩

theorem not_fragmentsLackRoom {fragments : List Fragment}
    (hok : graph.fragments settings = .ok fragments) : ¬ graph.FragmentsLackRoom := by
  rintro (hfull | ⟨type, htype, hlacks⟩)
  · rw [(inRoom_eq_ok_iff.1 hok).1] at hfull
    contradiction
  · obtain ⟨text, htext⟩ := fragmentOf_of_fragments hok htype
    rcases fragmentOf_cases (isObject_of_mem_documented htype) [.render] with
      ⟨hroom, -⟩ | ⟨-, herror⟩ | ⟨name, herror⟩
    · exact hroom hlacks
    · rw [htext] at herror
      contradiction
    · rw [htext] at herror
      contradiction

theorem fragmentsLackRoom_of_tooDeep (hdeep : graph.fragments settings = .error .tooDeep) :
    graph.FragmentsLackRoom := by
  rcases inRoom_eq_error_iff.1 hdeep with ⟨hfull, -⟩ | ⟨-, herror⟩
  · exact .inl hfull
  · obtain ⟨type, htype, hfragment⟩ := Results.exists_error_of_mapM herror
    rw [Results.map_eq_error_iff] at hfragment
    rcases fragmentOf_cases (isObject_of_mem_documented htype) [.render] with
      ⟨-, text, hok⟩ | ⟨hlacks, -⟩ | ⟨name, hunknown⟩
    · rw [hfragment] at hok
      contradiction
    · exact .inr ⟨type, htype, hlacks⟩
    · rw [hfragment] at hunknown
      cases hunknown

/-! ## Documents -/

/-- An object type has a definition under every root but its own; it is open if it is marked. -/
theorem definition_of_document (hindexed : graph.IsIndexed)
    (hnames : (graph.types.map (·.name)).Nodup) {asked : Json} {document : SchemaDocument}
    (hok : graph.document settings asked = .ok document) (htype : type ∈ graph.objects) :
    if (rootFor asked settings).isName type.name then
      document.definitions.get? type.name = none
    else
      ∃ properties, document.definitions.get? type.name = some (definitionOf type properties) := by
  split
  · next hroot =>
      have hnodup : (graph.objects.map (·.name)).Nodup :=
        hnames.sublist (List.filter_sublist.map _)
      rw [Entries.get?_eq_none_iff, names_definitions_of_document hnodup hok, List.mem_filter]
      simp [hroot]
  · next hother =>
      obtain ⟨properties, -, hshows⟩ := exists_properties_of_document hindexed hnames hok htype
      rw [ShowsProperties, if_neg hother] at hshows
      exact ⟨properties, hshows⟩

end

end TypeGraph

/-- A definition of a directive that has one of some names. -/
def Sdl.Definition.declares (names : List String) : Sdl.Definition → Bool
  | .directive d => names.contains d.name
  | _ => false

namespace Schema

variable {schema : Schema} {document other : Sdl.Document}

theorem IsOf.exists_definition_of_mem_objects [Runtime] (hof : schema.IsOf document)
    {type : TypeDef} (htype : type ∈ schema.toGraph.objects) :
    ∃ about node, Sdl.Definition.type about node ∈ document ∧ node.name = type.name ∧
      node.body.kind = .object := by
  rw [hof.objects_toGraph, List.mem_filterMap] at htype
  obtain ⟨⟨about, node⟩, hnode, hobject⟩ := htype
  refine ⟨about, node, Sdl.mem_typeDefinitions_iff.1 hnode, ?_⟩
  simp only [objectOf?] at hobject
  split at hobject
  · contradiction
  · split at hobject
    · next interfaces fields hbody =>
        rw [Option.some.injEq] at hobject
        rw [← hobject, hbody]
        exact ⟨rfl, rfl⟩
    · contradiction

theorem names_objects_relisted [Runtime] (hof : schema.IsOf document)
    (hrelists : Sdl.Relists document other) :
    (schema.relisted other).toGraph.objects.map (·.name) =
      schema.toGraph.objects.map (·.name) := by
  have hsame : ∀ type : TypeDef, (type.relisted other).name = type.name ∧
      (type.relisted other).isObject = type.isObject := by
    intro type
    unfold TypeDef.relisted
    split
    · exact ⟨rfl, rfl⟩
    · refine ⟨rfl, ?_⟩
      cases hshape : type.shape <;> simp [TypeDef.isObject, TypeShape.relisted, hshape]
  rw [TypeGraph.objects, TypeGraph.objects, toGraph_relisted hof hrelists, List.filter_map,
    List.map_map]
  have hobject : (fun type : TypeDef => type.isObject) ∘ TypeDef.relisted other =
      fun type : TypeDef => type.isObject := by
    funext type
    exact (hsame type).2
  rw [hobject]
  exact List.map_congr_left fun type _ => (hsame type).1

end Schema

namespace Sources

variable {around : Surroundings} {sources : List String} {schema : Schema}

/-- The names of the marks. -/
def markNames : List String :=
  [docsDirective, openDirective]

/-- What defines a mark is dropped. -/
theorem firsts_marks_append (document : Sdl.Document) :
    Sdl.firsts (marks ++ document) =
      Sdl.firsts (marks ++ document.filter fun d => !d.declares markNames) := by
  have hnew : ∀ d, marks.any (Sdl.haveSameTitle d) = Sdl.Definition.declares markNames d := by
    intro d
    cases d with
    | directive definition =>
        simp [marks, markNames, Sdl.haveSameTitle, Sdl.Definition.declares]
    | _ => rfl
  rw [Sdl.firsts_append, Sdl.firsts_append, List.filter_filter]
  simp only [hnew, Bool.and_self]

theorem agrees_filter_iff {document : Sdl.Document} :
    Sdl.Agrees written (document.filter fun d => !d.declares markNames) ↔
      Sdl.Agrees written document := by
  have hwritten : (document.filter fun d => !d.declares markNames).filterMap
      (Sdl.Definition.written? written) = document.filterMap (Sdl.Definition.written? written) := by
    rw [List.filterMap_filter]
    apply List.filterMap_congr
    intro d _
    cases d with
    | directive definition => simp [Sdl.Definition.written?]
    | _ => rfl
  unfold Sdl.Agrees
  rw [hwritten]

/-- Sources that differ in what defines the marks load alike. -/
theorem load_eq_ok_of_filter_eq [Runtime] {others : List String} {document found : Sdl.Document}
    (hload : (load around sources).result = .ok schema)
    (hdocument : definitions around sources = .ok document)
    (hfound : definitions around others = .ok found)
    (hsame : found.filter (fun d => !d.declares markNames) =
      document.filter fun d => !d.declares markNames) :
    (load around others).result = .ok schema := by
  obtain ⟨loaded, hdefinitions, hagrees, hschema⟩ := load_eq_ok_iff.1 hload
  rw [hdocument, Except.ok.injEq] at hdefinitions
  subst hdefinitions
  rw [← agrees_filter_iff, ← hsame, agrees_filter_iff] at hagrees
  rw [firsts_marks_append, ← hsame, ← firsts_marks_append] at hschema
  exact load_eq_ok_iff.2 ⟨found, hfound, hagrees, hschema⟩

theorem isMark_of_mem {mark : String} (hmark : mark ∈ markNames) (document : Sdl.Document) :
    Sdl.IsMark (Sdl.firsts (marks ++ document)) mark := by
  have hfirsts : ∃ rest, Sdl.firsts (marks ++ document) = marks ++ rest :=
    ⟨_, Sdl.firsts_append marks document⟩
  obtain ⟨rest, hrest⟩ := hfirsts
  have hdirective : ∃ d, Sdl.Document.directive? (marks ++ rest) mark = some d ∧
      d.locations = [.object] ∧ d.arguments = [] ∧ d.isRepeatable = false := by
    simp only [markNames, List.mem_cons, List.not_mem_nil, or_false] at hmark
    rcases hmark with rfl | rfl
    · exact ⟨_, rfl, rfl, rfl, rfl⟩
    · exact ⟨_, rfl, rfl, rfl, rfl⟩
  obtain ⟨d, hfound, hlocations, harguments, hsingle⟩ := hdirective
  rw [hrest]
  refine ⟨?_, d, hfound, ?_, harguments⟩
  · rw [Sdl.Document.isSingle, hfound]
    simp [hsingle]
  · rw [hlocations]
    exact List.mem_singleton_self _

/-- The directives of an object type are those that the sources apply to it. -/
theorem directives_of_mem_objects [Runtime] {document : Sdl.Document}
    (hschema : Schema.ofDocument? (Sdl.firsts (marks ++ document)) = some schema) {type : TypeDef}
    (htype : type ∈ schema.toGraph.objects) :
    type.directives = Sdl.appliedBy document type.name := by
  have hof := Schema.ofDocument?_eq_some_iff.1 hschema
  have hparts : Sdl.partsOf (Sdl.firsts (marks ++ document)) type.name =
      Sdl.partsOf document type.name := Sdl.partsOf_firsts (marks ++ document) type.name
  rw [Sdl.appliedBy, ← hparts]
  exact (hof.parts_of_mem_objects htype).2.2

/-- An object type may be marked by a source that is put anywhere. -/
theorem load_with_marking [Runtime] {before after more : List String} {document : Sdl.Document}
    (hload : (load around (before ++ after)).result = .ok schema)
    (hdocument : definitions around (before ++ after) = .ok document) {type : TypeDef}
    (htype : type ∈ schema.toGraph.objects) {mark : String} (hmark : mark ∈ markNames)
    (hnew : mark ∉ type.directives)
    (hmore : definitions around more = .ok [Sdl.marking type.name mark]) :
    ∃ marked, (load around (before ++ more ++ after)).result = .ok marked ∧
      marked.toGraph.objects.map (·.name) = schema.toGraph.objects.map (·.name) ∧
      ∀ other ∈ marked.toGraph.objects, ∀ applied, applied ∈ other.directives ↔
        applied ∈ Sdl.appliedBy document other.name ∨ other.name = type.name ∧ applied = mark := by
  obtain ⟨loaded, hdefinitions, hagrees, hschema⟩ := load_eq_ok_iff.1 hload
  rw [hdocument, Except.ok.injEq] at hdefinitions
  subst hdefinitions
  obtain ⟨hfound, rfl⟩ := definitions_eq_ok_iff.1 hdocument
  obtain ⟨hfoundMore, hmarking⟩ := definitions_eq_ok_iff.1 hmore
  have hwhole : definitions around (before ++ more ++ after) =
      .ok (before.flatMap (brought around) ++
        Sdl.marking type.name mark :: after.flatMap (brought around)) := by
    refine definitions_eq_ok_iff.2 ⟨?_, ?_⟩
    · intro source hsource
      simp only [List.mem_append] at hsource hfound
      rcases hsource with (hbefore | hbetween) | hafter
      · exact hfound source (.inl hbefore)
      · exact hfoundMore source hbetween
      · exact hfound source (.inr hafter)
    · rw [List.flatMap_append, List.flatMap_append, ← hmarking, List.append_assoc]
      rfl
  rw [List.flatMap_append] at hagrees hschema hdocument ⊢
  generalize before.flatMap (brought around) = first at *
  generalize after.flatMap (brought around) = last at *
  have hof := Schema.ofDocument?_eq_some_iff.1 hschema
  have happlied := directives_of_mem_objects hschema htype
  have hkept : Sdl.firsts (marks ++ (first ++ last)) = Sdl.firsts (marks ++ first) ++
      Sdl.firsts (last.filter fun d => !(marks ++ first).any (Sdl.haveSameTitle d)) := by
    rw [← List.append_assoc, Sdl.firsts_append]
  have hinserted : Sdl.firsts (marks ++ (first ++ Sdl.marking type.name mark :: last)) =
      Sdl.firsts (marks ++ first) ++ Sdl.marking type.name mark ::
        Sdl.firsts (last.filter fun d => !(marks ++ first).any (Sdl.haveSameTitle d)) := by
    rw [← List.append_assoc, Sdl.firsts_insert rfl]
  have hrelists : Sdl.Relists (Sdl.firsts (marks ++ (first ++ last)))
      (Sdl.firsts (marks ++ (first ++ Sdl.marking type.name mark :: last))) := by
    have hisMark := isMark_of_mem hmark (first ++ last)
    have hvalid := hof.isValid
    have hdefined := hof.exists_definition_of_mem_objects htype
    have hparts : Sdl.appliedBy (Sdl.firsts (marks ++ (first ++ last))) type.name =
        Sdl.appliedBy (first ++ last) type.name := by
      rw [Sdl.appliedBy, Sdl.partsOf_firsts]
      rfl
    rw [← happlied] at hparts
    rw [← hparts] at hnew
    rw [hkept] at hisMark hvalid hdefined hnew ⊢
    rw [hinserted]
    exact Sdl.relists_marking hvalid hisMark hdefined hnew
  have hmarked := Schema.ofDocument?_relisted hrelists
  rw [hschema, Option.map_some] at hmarked
  have hagreesWhole : Sdl.Agrees written (first ++ Sdl.marking type.name mark :: last) := by
    unfold Sdl.Agrees
    rw [Sdl.filterMap_marking first last type.name mark rfl]
    exact hagrees
  refine ⟨_, load_eq_ok_iff.2 ⟨_, hwhole, hagreesWhole, hmarked⟩, ?_, ?_⟩
  · exact Schema.names_objects_relisted hof hrelists
  · intro other hother applied
    rw [directives_of_mem_objects hmarked hother, Sdl.mem_appliedBy_marking]

/-- A mark counts wherever it is applied to an object type, for its fragment and for its
definition.  It may be applied anywhere without being defined, and what sources define in its name
has no effect. -/
theorem load_counts_marks [Runtime] (hload : (load around sources).result = .ok schema) :
    ∃ document, definitions around sources = .ok document ∧
      let graph := schema.toGraph
      (∀ type ∈ graph.objects, type.directives = Sdl.appliedBy document type.name) ∧
        (∀ settings fragments, graph.fragments settings = .ok fragments →
          fragments.map (·.typeName) = (graph.objects.map (·.name)).filter fun name =>
            (Sdl.appliedBy document name).contains docsDirective) ∧
        (∀ settings,
          (∀ type ∈ graph.documented, ∀ name ∈ Sdl.BuiltIn.introspectionNames,
            ¬ graph.LeadsTo type name) →
          ((∃ fragments, graph.fragments settings = .ok fragments) ↔
              ¬ graph.FragmentsLackRoom) ∧
            (graph.fragments settings = .error .tooDeep ↔ graph.FragmentsLackRoom)) ∧
        (∀ settings asked made, graph.document settings asked = .ok made →
          made.toJson.get? "additionalProperties" = some (.bool false) ∧
            ∀ type ∈ graph.objects,
              if (TypeGraph.rootFor asked settings).isName type.name then
                made.definitions.get? type.name = none
              else
                ∃ definition, made.definitions.get? type.name = some definition ∧
                  definition.toJson.get? "additionalProperties" =
                    some (.bool ((Sdl.appliedBy document type.name).contains openDirective))) ∧
        (∀ type ∈ graph.objects, ∀ mark ∈ markNames, mark ∉ type.directives →
          ∀ before after more, sources = before ++ after →
            definitions around more = .ok [Sdl.marking type.name mark] →
            ∃ marked, (load around (before ++ more ++ after)).result = .ok marked ∧
              marked.toGraph.objects.map (·.name) = graph.objects.map (·.name) ∧
              ∀ other ∈ marked.toGraph.objects, ∀ applied, applied ∈ other.directives ↔
                applied ∈ Sdl.appliedBy document other.name ∨
                  other.name = type.name ∧ applied = mark) ∧
        ∀ others found, definitions around others = .ok found →
          found.filter (fun d => !d.declares markNames) =
            document.filter (fun d => !d.declares markNames) →
          (load around others).result = .ok schema := by
  obtain ⟨document, hdefinitions, hagrees, hschema⟩ := load_eq_ok_iff.1 hload
  have hof := Schema.ofDocument?_eq_some_iff.1 hschema
  have happlied : ∀ type ∈ schema.toGraph.objects,
      type.directives = Sdl.appliedBy document type.name :=
    fun type htype => directives_of_mem_objects hschema htype
  refine ⟨document, hdefinitions, happlied, ?_, ?_, ?_, ?_, ?_⟩
  · intro settings fragments hfragments
    rw [TypeGraph.names_fragments hfragments, TypeGraph.documented, List.filter_map]
    congr 1
    apply List.filter_congr
    intro type htype
    rw [Function.comp_apply, happlied type htype]
  · intro settings hfree
    rcases Schema.fragments_outcome hof.isWellKinded settings with
      ⟨⟨fragments, hok⟩, -⟩ | hdeep | ⟨type, htype, name, hname, hleads, -⟩
    · have hroom := TypeGraph.not_fragmentsLackRoom hok
      rw [hok]
      simp [hroom]
    · have hlacks := TypeGraph.fragmentsLackRoom_of_tooDeep hdeep
      rw [hdeep]
      simp [hlacks]
    · exact absurd hleads (hfree type htype name hname)
  · intro settings asked made hmade
    refine ⟨?_, ?_⟩
    · rw [made.get?_toJson (by decide) (by decide) (by decide),
        Properties.get?_toJson _ _ _ (by simp)]
      rfl
    · intro type htype
      have hdefinition := TypeGraph.definition_of_document (Schema.isIndexed_toGraph schema)
        (Schema.nodup_names_toGraph hof.nodup_names_types) hmade htype
      split at hdefinition
      · next hroot =>
          rw [if_pos hroot]
          exact hdefinition
      · next hother =>
          obtain ⟨properties, hget⟩ := hdefinition
          rw [if_neg hother]
          refine ⟨_, hget, ?_⟩
          rw [Definition.get?_toJson _ (by decide), Properties.get?_toJson _ _ _ (by simp),
            ← happlied type htype]
          rfl
  · rintro type htype mark hmark hnew before after more rfl hmore
    exact load_with_marking hload hdefinitions htype hmark hnew hmore
  · intro others found hfound hsame
    exact load_eq_ok_of_filter_eq hload hdefinitions hfound hsame

/-- A type that is marked in front of its definition, and a definition in the name of the mark. -/
def markedSources : List String :=
  ["extend type Shelf @md type Query \x7b shelf: Shelf \x7d",
    "type Shelf \x7b size: Int \x7d directive @md on FIELD"]

section Usual

attribute [local instance] Runtime.usual

theorem markedSources_count :
    ∃ schema, (load bareSurroundings markedSources).result = .ok schema ∧
      schema.toGraph.objects.map (fun type => (type.name, type.directives)) =
        [("Query", []), ("Shelf", ["md"])] := by
  have hloaded : ((load bareSurroundings markedSources).result matches .ok _) = true := by
    decide +kernel
  have hdefined : (match definitions bareSurroundings markedSources with
      | .ok document =>
          document.filterMap Sdl.Definition.object? == ["Query", "Shelf"] &&
            ["Query", "Shelf"].map (Sdl.appliedBy document) == [[], ["md"]]
      | .error _ => false) = true := by decide +kernel
  cases hload : (load bareSurroundings markedSources).result with
  | error e =>
      rw [hload] at hloaded
      contradiction
  | ok schema =>
      obtain ⟨document, hdefinitions, happlied, -⟩ := load_counts_marks hload
      obtain ⟨loaded, hsame, hagrees, hschema⟩ := load_eq_ok_iff.1 hload
      rw [hdefinitions, Except.ok.injEq] at hsame
      subst hsame
      simp only [hdefinitions, Bool.and_eq_true, beq_iff_eq, List.map_cons, List.map_nil,
        List.cons.injEq, and_true] at hdefined
      obtain ⟨hobjects, hquery, hshelf⟩ := hdefined
      have hnames : schema.toGraph.objects.map (·.name) = ["Query", "Shelf"] := by
        have hintroduced : (marks ++ document).filterMap Sdl.Definition.object? =
            document.filterMap Sdl.Definition.object? := rfl
        rw [(Schema.ofDocument?_eq_some_iff.1 hschema).names_objects,
          (agrees_marks_append_iff.2 hagrees).filterMap_object?_firsts, hintroduced, hobjects]
        decide
      refine ⟨schema, rfl, ?_⟩
      have hpairs : schema.toGraph.objects.map (fun type => (type.name, type.directives)) =
          (schema.toGraph.objects.map (·.name)).map fun name =>
            (name, Sdl.appliedBy document name) := by
        rw [List.map_map]
        apply List.map_congr_left
        intro type htype
        rw [Function.comp_apply, happlied type htype]
      rw [hpairs, hnames, List.map_cons, List.map_cons, List.map_nil, hquery, hshelf]

end Usual

end Sources

end ConfigSchema
