import ConfigSchema.Proofs.DocumentEmission
import ConfigSchema.Proofs.ExpansionLimits
import ConfigSchema.Proofs.LoadedGraphs
import ConfigSchema.Proofs.References

/-!
# Expansions of loaded schemas

The members of a loaded union are object types, and so are the variants of an interface.  So an
expansion ends after one step, however the object types lead back to each other, and whatever
alternatives a document offers are references.
-/

namespace ConfigSchema

/-- All alternatives that stand in a node refer to types of the list. -/
def Node.ChoosesFrom (types : List TypeDef) (node : Node) : Prop :=
  ∀ note variants, node.Contains (.anyOf note variants) →
    ∀ variant ∈ variants, ∃ type ∈ types, variant = .ref none type.name

theorem Node.ChoosesFrom.withNote {types : List TypeDef} {node : Node}
    (hchooses : node.ChoosesFrom types) (note : Option String) :
    (node.withNote note).ChoosesFrom types := by
  intro other variants hcontains
  cases node with
  | anyOf own alternatives =>
      cases hcontains with
      | self => exact hchooses own variants (.self _)
      | variant hmem hbelow => exact hchooses other variants (.variant hmem hbelow)
  | array own items =>
      cases hcontains with
      | items hbelow => exact hchooses other variants (.items hbelow)
  | primitive own kind => cases hcontains
  | anyObject own => cases hcontains
  | enum own values => cases hcontains
  | ref own type => cases hcontains

theorem Node.ChoosesFrom.array {types : List TypeDef} {items : Node}
    (hchooses : items.ChoosesFrom types) (note : Option String) :
    (Node.array note items).ChoosesFrom types := by
  intro other variants hcontains
  cases hcontains with
  | items hbelow => exact hchooses other variants hbelow

namespace TypeGraph

variable {graph : TypeGraph} {describe : Bool}

theorem choosesFrom_leafNode (types : List TypeDef) (type : TypeDef) :
    (leafNode describe type).ChoosesFrom types := by
  intro note variants hcontains
  generalize hleaf : leafNode describe type = node at hcontains
  cases hcontains with
  | self => exact absurd hleaf leafNode_ne_anyOf
  | items _ => exact absurd hleaf leafNode_ne_array
  | variant _ _ => exact absurd hleaf leafNode_ne_anyOf

theorem exists_fieldNode_of_isProperty [Runtime] {settings : Settings} {asked : Json}
    {document : SchemaDocument} (hok : graph.document settings asked = .ok document)
    {node : Node} (hproperty : document.IsProperty node) :
    ∃ field, graph.fieldNode settings.describeVariants.isTruthy field = .ok node := by
  have horigin := origin_of_document hok
  rcases hproperty with ⟨name, hnode⟩ | ⟨key, definition, name, hdefinition, hnode⟩
  · rcases horigin.1 with hnone | ⟨type, -, -, hproperties⟩
    · rw [hnone] at hnode
      contradiction
    · rcases (mem_nodes_iff hproperties).1 hnode with ⟨field, -, hfield⟩
      exact ⟨field, hfield⟩
  · rcases horigin.2 key definition hdefinition with ⟨type, -, -, hproperties⟩
    rcases (mem_nodes_iff hproperties).1 hnode with ⟨field, -, hfield⟩
    exact ⟨field, hfield⟩

end TypeGraph

namespace Schema

variable [Runtime] {schema : Schema} {describe : Bool} {under : List Call} {name : String}
  {node : Node}

theorem node_eq_ref_of_expands (hwell : schema.isWellKinded = true) {variant : String}
    (hstep : schema.toGraph.Expands name variant)
    (hok : schema.toGraph.node describe variant under = .ok node) :
    ∃ type ∈ schema.toGraph.objects, node = .ref none type.name := by
  obtain ⟨type, hget, hleaf | ⟨variants, nodes, hvariants, -, -⟩⟩ :=
    TypeGraph.exists_type_of_node (isIndexed_toGraph schema).isNamed hok
  · have hobject : type.isObject = true := isObject_of_expands hwell hstep hget
    refine ⟨type, TypeGraph.mem_objects_iff.2 ⟨mem_types_of_get? hget, hobject⟩, ?_⟩
    rw [hleaf.2]
    exact TypeGraph.leafNode_eq_ref_iff.2 ⟨hobject, rfl, rfl⟩
  · have hobject : type.isObject = true := isObject_of_expands hwell hstep hget
    rw [TypeGraph.variants?_eq_none_of_isObject hobject] at hvariants
    contradiction

theorem choosesFrom_node (hwell : schema.isWellKinded = true)
    (hok : schema.toGraph.node describe name under = .ok node) :
    node.ChoosesFrom schema.toGraph.objects := by
  obtain ⟨type, hget, ⟨-, hleaf⟩ | ⟨variants, nodes, hvariants, hall, hany⟩⟩ :=
    TypeGraph.exists_type_of_node (isIndexed_toGraph schema).isNamed hok
  · rw [hleaf]
    exact TypeGraph.choosesFrom_leafNode _ type
  · have hrefs : ∀ sub ∈ nodes, ∃ type ∈ schema.toGraph.objects, sub = .ref none type.name := by
      intro sub hsub
      obtain ⟨variant, hvariant, hnode⟩ := Results.exists_left_of_forall₂ hall hsub
      exact node_eq_ref_of_expands hwell ⟨type, variants, hget, hvariants, hvariant⟩ hnode
    rw [hany]
    intro note others hcontains
    cases hcontains with
    | self => exact hrefs
    | variant hmem hbelow =>
        obtain ⟨type, -, rfl⟩ := hrefs _ hmem
        cases hbelow

theorem choosesFrom_fieldNode (hwell : schema.isWellKinded = true) {field : ConfigSchema.Field}
    (hok : schema.toGraph.fieldNode describe field = .ok node) :
    node.ChoosesFrom schema.toGraph.objects := by
  obtain ⟨base, hbase, hnode⟩ := TypeGraph.exists_base_of_fieldNode hok
  have hchooses := choosesFrom_node hwell hbase
  rw [hnode]
  split
  · exact hchooses.array _
  · exact hchooses.withNote _

/-- Expansions of a schema are cut off only where there is not even room for a few calls, and
whatever alternatives come out of them are references to object types. -/
structure ExpandsToReferences (schema : Schema) : Prop where
  node_error : ∀ describe under name e, schema.toGraph.node describe name under = .error e →
    e.IsCutOff → e = .tooDeep ∧ ¬ Runtime.HasRoomFor (4 + under.length)
  document_error : ∀ settings asked cause,
    schema.toGraph.document settings asked = .error (.graph cause) →
    cause.IsCutOff → cause = .tooDeep ∧ ¬ Runtime.HasRoomFor 7
  node_choosesFrom : ∀ describe under name node,
    schema.toGraph.node describe name under = .ok node → node.ChoosesFrom schema.toGraph.objects
  document_choosesFrom : ∀ settings asked document,
    schema.toGraph.document settings asked = .ok document →
    ∀ sub alternatives, document.toJson.Subschema sub →
      sub.get? "anyOf" = some (.arr alternatives) →
      ∀ alternative ∈ alternatives, ∃ type ∈ schema.toGraph.objects,
        alternative = .obj [("$ref", .str (Node.refTarget type.name))]

theorem not_hasRoomFor_of_node (hwell : schema.isWellKinded = true) {e : GraphError}
    (herror : schema.toGraph.node describe name under = .error e) (hcut : e.IsCutOff) :
    e = .tooDeep ∧ ¬ Runtime.HasRoomFor (4 + under.length) := by
  have houtcome := TypeGraph.node_outcome (isExpandable_toGraph hwell) describe name under
  rw [herror] at houtcome
  cases houtcome with
  | unknown last calls hpath hunknown => exact hcut.elim
  | tooDeep hfar => exact ⟨rfl, not_hasRoomFor_of_leadsTooFar hwell hfar⟩

theorem alternatives_of_document (hwell : schema.isWellKinded = true) {settings : Settings}
    {asked : Json} {document : SchemaDocument}
    (hok : schema.toGraph.document settings asked = .ok document) {sub : Json}
    {alternatives : List Json} (hsub : document.toJson.Subschema sub)
    (hkey : sub.get? "anyOf" = some (.arr alternatives)) :
    ∀ alternative ∈ alternatives, ∃ type ∈ schema.toGraph.objects,
      alternative = .obj [("$ref", .str (Node.refTarget type.name))] := by
  cases SchemaDocument.part_of_subschema hsub with
  | whole =>
      rw [document.get?_eq_none (by simp)] at hkey
      contradiction
  | definition hmem =>
      rw [Definition.get?_eq_none _ (by simp)] at hkey
      contradiction
  | node hproperty hcontains =>
      obtain ⟨field, hfield⟩ := TypeGraph.exists_fieldNode_of_isProperty hok hproperty
      have hchooses := choosesFrom_fieldNode hwell hfield
      obtain ⟨note, variants, rfl, halternatives⟩ := Node.get?_anyOf_eq_some_iff.1 hkey
      rw [Json.arr.injEq] at halternatives
      intro alternative hmem
      rw [halternatives] at hmem
      obtain ⟨variant, hvariant, rfl⟩ := List.mem_map.1 hmem
      obtain ⟨type, htype, rfl⟩ := hchooses note variants hcontains variant hvariant
      exact ⟨type, htype, rfl⟩

theorem expandsToReferences (hwell : schema.isWellKinded = true) :
    schema.ExpandsToReferences where
  node_error := fun _ _ _ _ herror hcut => not_hasRoomFor_of_node hwell herror hcut
  document_error := by
    intro settings asked cause herror hcut
    rw [TypeGraph.document_eq_graph_error_iff] at herror
    rcases TypeGraph.cause_of_objectProperties_eq_error herror with
      ⟨hdeep, rfl⟩ | ⟨type, -, field, -, hnode⟩
    · exact ⟨rfl, not_hasRoomFor_of_isTooDeep hwell hdeep⟩
    · exact not_hasRoomFor_of_node hwell hnode hcut
  node_choosesFrom := fun _ _ _ _ hok => choosesFrom_node hwell hok
  document_choosesFrom := fun _ _ _ hok _ _ hsub hkey =>
    alternatives_of_document hwell hok hsub hkey

end Schema

namespace TypeGraph

section Endings

variable [Runtime] {graph : TypeGraph}

/-- When the expansion of a name ends, at any depth that may be allowed and in the room that there
is below the calls that are active. -/
structure EndsUnlessCyclic (graph : TypeGraph) (describe : Bool) (under : List Call)
    (name : String) : Prop where
  ends_iff : (∃ levels, graph.nodeWithin describe levels name ≠ .error .tooDeep) ↔
    ¬ graph.ReachesCycle name
  depth_le : ¬ graph.ReachesCycle name →
    ∃ node, ∀ levels, graph.index.names.dedup.length ≤ levels →
      graph.nodeWithin describe levels name = .ok node
  node_eq : ∀ node, graph.node describe name under = .ok node ↔
    ¬ graph.LeadsTooFar under name ∧ ∃ levels, graph.nodeWithin describe levels name = .ok node
  node_iff : (∃ node, graph.node describe name under = .ok node) ↔
    ¬ graph.ReachesCycle name ∧ ¬ graph.LeadsTooFar under name
  node_error : ∀ e, graph.node describe name under = .error e → e.IsCutOff

theorem IsComplete.endsUnlessCyclic (hgraph : graph.IsComplete) (describe : Bool)
    (under : List Call) {name : String} (hmem : name ∈ graph.index.names) :
    graph.EndsUnlessCyclic describe under name where
  ends_iff := by
    constructor
    · rintro ⟨levels, hends⟩ hcycle
      exact hends (nodeWithin_of_reachesCycle hgraph hmem hcycle levels)
    · intro hfree
      obtain ⟨node, hok⟩ := exists_nodeWithin_of_not_reachesCycle hgraph describe hmem hfree
      refine ⟨graph.index.names.dedup.length, ?_⟩
      rw [hok _ (Nat.le_refl _)]
      simp
  depth_le := exists_nodeWithin_of_not_reachesCycle hgraph describe hmem
  node_eq := fun _ => node_eq_ok_iff hgraph.isNamed
  node_iff := exists_node_iff hgraph hmem
  node_error := fun _ herror => isCutOff_of_nodeBelow hgraph hmem herror

/-- An expansion ends unless it reaches a cycle or leads too far for the room that there is; a
document fails exactly if a field of an object type has such an expansion, or if there is no room
to begin with it.  No loaded schema has one that goes on for more than a few calls. -/
theorem expansion_ends_unless_cyclic (hgraph : graph.IsComplete) :
    (∀ describe under, ∀ name ∈ graph.index.names,
        graph.EndsUnlessCyclic describe under name) ∧
      (∀ settings asked,
        ((∃ cause, graph.document settings asked = .error (.graph cause)) ↔
          graph.IsTooDeep ∨
            ∃ type ∈ graph.objects, ∃ field ∈ type.fields, graph.ReachesCycle field.type.base) ∧
        ∀ cause, graph.document settings asked = .error (.graph cause) → cause.IsCutOff) ∧
      ∀ around sources schema, (Sources.load around sources).result = .ok schema →
        schema.ExpandsToReferences := by
  refine ⟨?_, ?_, ?_⟩
  · intro describe under name hmem
    exact hgraph.endsUnlessCyclic describe under hmem
  · intro settings asked
    refine ⟨document_fails_iff hgraph settings asked, ?_⟩
    intro cause herror
    exact isCutOff_of_document hgraph herror
  · intro around sources schema hload
    obtain ⟨document, hdocument⟩ := Sources.exists_document_of_load hload
    exact Schema.expandsToReferences (Schema.isWellKinded_of_ofDocument? hdocument)

end Endings

/-- A small graph with a union that lists itself. -/
def ringTypes : List TypeDef :=
  { name := "Ring", shape := .union ["Book", "Ring"] } :: shelfTypes

/-- A schema in which an object type leads back to itself through a union and an interface. -/
def choiceSource : String :=
  "type Query implements Named \x7b name: String found: [Thing!] next: Named \x7d " ++
    "interface Named \x7b name: String \x7d union Thing = Query"

section Usual

attribute [local instance] Runtime.usual

theorem ringTypes_expansion_ends :
    (ofTypes ringTypes).IsComplete ∧
      (∃ node, (ofTypes ringTypes).node true "Thing" = .ok node) ∧
      (∀ levels, (ofTypes ringTypes).nodeWithin true levels "Ring" = .error .tooDeep) ∧
      ∃ schema, (Sources.load Sources.bareSurroundings [choiceSource]).result = .ok schema ∧
        schema.ExpandsToReferences := by
  have hindexed : (ofTypes ringTypes).IsIndexed := isIndexed_ofTypes [] (by decide)
  have hclosed : (ofTypes ringTypes).IsClosed := by decide
  have hgraph := hclosed.isComplete hindexed
  obtain ⟨hends, -, hloaded⟩ := expansion_ends_unless_cyclic hgraph
  have hring := hends true [] "Ring" (by decide)
  refine ⟨hgraph, ?_, ?_, ?_⟩
  · have hwithin : ∃ node, (ofTypes ringTypes).nodeWithin true 2 "Thing" = .ok node := ⟨_, rfl⟩
    obtain ⟨node, hok⟩ := hwithin
    exact ⟨node, node_of_nodeWithin hgraph.isNamed (Runtime.hasRoomFor_usual (by decide)) hok⟩
  · have hstep : (ofTypes ringTypes).Expands "Ring" "Ring" :=
      ⟨{ name := "Ring", shape := .union ["Book", "Ring"] }, ["Book", "Ring"], by decide, rfl,
        by decide⟩
    have hcycle : (ofTypes ringTypes).ReachesCycle "Ring" := .of_self (.single hstep)
    intro levels
    by_contra hnot
    exact hring.ends_iff.1 ⟨levels, hnot⟩ hcycle
  · have hchecked :
        (Sources.load Sources.bareSurroundings [choiceSource]).result.isOk = true := by
      decide +kernel
    cases hload : (Sources.load Sources.bareSurroundings [choiceSource]).result with
    | error e =>
        rw [hload] at hchecked
        contradiction
    | ok schema => exact ⟨schema, rfl, hloaded _ _ schema hload⟩

/-- The expansions in a tower of 401 unions reach no cycle, and still they are cut off. -/
theorem tower_is_cut_off_without_cycle :
    (ofTypes (tower 400)).IsComplete ∧
      (∀ name, ¬ (ofTypes (tower 400)).ReachesCycle name) ∧
      floorName 400 ∈ (ofTypes (tower 400)).index.names ∧
      (∀ node, (ofTypes (tower 400)).node false (floorName 400) ≠ .ok node) ∧
      (ofTypes (tower 400)).document {} (.str "Settings") = .error (.graph .tooDeep) := by
  have hindexed := isIndexed_tower 400
  have hgraph := (isClosed_tower 400).isComplete hindexed
  have hfinite := (hindexed.isExpandable (hasFiniteUnions_tower 400)).finite
  have hmem : floorName 400 ∈ (ofTypes (tower 400)).index.names :=
    Entries.mem_names_of_get? (get?_floorName (Nat.le_refl _))
  refine ⟨hgraph, ?_, hmem, ?_, ?_⟩
  · rintro name ⟨other, -, hloop⟩
    exact hfinite other hloop
  · intro node hok
    obtain ⟨calls, hreach, hlength⟩ :=
      (expandsIn_tower (Nat.le_refl 400)).exists_calls
    have hfar : (ofTypes (tower 400)).LeadsTooFar [] (floorName 400) := by
      refine ⟨floorName 0, calls, hreach, ?_⟩
      rw [Runtime.hasRoom_usual_eq_false_iff, List.append_nil, hlength]
      decide
    exact ((exists_node_iff hgraph hmem).1 ⟨node, hok⟩).2 hfar
  · have hdeep : (ofTypes (tower 400)).IsTooDeep := isTooDeep_tower_usual (by decide)
    rcases document_outcome hindexed (isClosed_tower 400) (hasFiniteUnions_tower 400) {}
        (by decide : "Settings" ≠ "") with ⟨-, herror⟩ | ⟨hshallow, -⟩ | ⟨hshallow, -⟩
    · exact herror
    · exact absurd hdeep hshallow
    · exact absurd hdeep hshallow

end Usual

end TypeGraph

end ConfigSchema
