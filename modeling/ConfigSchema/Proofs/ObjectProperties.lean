import ConfigSchema.JsonSchema.Document
import ConfigSchema.Proofs.ExpansionOutcome

/-!
# Properties of object types

What the properties of a list of fields and of all object types come to.  In a closed graph whose
unions are finite nothing can fail but an expansion that goes too deep, and then the properties
of the graph fail as a whole.
-/

namespace ConfigSchema

/-- The names of the required fields, in order. -/
def requiredNames (fields : List Field) : List String :=
  (fields.filter (·.type.isRequired)).map (·.name)

theorem nodup_requiredNames {fields : List Field} (hnodup : (fields.map (·.name)).Nodup) :
    (requiredNames fields).Nodup :=
  hnodup.sublist (List.filter_sublist.map _)

/-- The field of a name; of several fields with the name the last one counts. -/
def fieldNamed? (fields : List Field) (name : String) : Option Field :=
  fields.reverse.find? (·.name = name)

theorem mem_of_fieldNamed? {fields : List Field} {name : String} {field : Field}
    (hfield : fieldNamed? fields name = some field) : field ∈ fields ∧ field.name = name := by
  have hname := List.find?_some hfield
  exact ⟨List.mem_reverse.1 (List.mem_of_find?_eq_some hfield), of_decide_eq_true hname⟩

theorem fieldNamed?_of_mem {fields : List Field} (hnodup : (fields.map (·.name)).Nodup)
    {field : Field} (hfield : field ∈ fields) : fieldNamed? fields field.name = some field := by
  have hsome : (fieldNamed? fields field.name).isSome := by
    rw [fieldNamed?, List.find?_isSome]
    exact ⟨field, List.mem_reverse.2 hfield, by simp⟩
  obtain ⟨other, hother⟩ := Option.isSome_iff_exists.1 hsome
  obtain ⟨hmem, hname⟩ := mem_of_fieldNamed? hother
  rw [hother, List.inj_on_of_nodup_map hnodup hmem hfield hname]

namespace TypeGraph

variable {graph : TypeGraph} {describe : Bool} {under : List Call}

/-- The calls that are active when the type of a field is resolved. -/
def whileResolving : List Call := .resolveField :: whileBuilding

section

variable [Runtime]

/-- There is no room for the calls that compile a graph: the first one, those that build the
properties of an object type, or those by which the type of a field leads to some name. -/
inductive IsTooDeep (graph : TypeGraph) : Prop
  | compile (hfull : Runtime.hasRoom [.compile] = false) : IsTooDeep graph
  | object {type : TypeDef} (htype : type ∈ graph.objects)
      (hfull : Runtime.hasRoom whileBuilding = false) : IsTooDeep graph
  | field {type : TypeDef} {field : Field} (htype : type ∈ graph.objects)
      (hfield : field ∈ type.fields)
      (hfar : graph.LeadsTooFar whileResolving field.type.base) : IsTooDeep graph

/-! ## Fields -/

theorem fieldNode_eq_ok_iff {field : Field} {node : Node} :
    graph.fieldNode describe field under = .ok node ↔
      ∃ base, graph.node describe field.type.base (.resolveField :: under) = .ok base ∧
        node =
          if field.type.isList then .array (mergedNote field.description base.note) base
          else base.withNote (mergedNote field.description base.note) := by
  rw [fieldNode, Results.map_eq_ok_iff]
  simp only [eq_comm]

theorem fieldNode_eq_error_iff {field : Field} {e : GraphError} :
    graph.fieldNode describe field under = .error e ↔
      graph.node describe field.type.base (.resolveField :: under) = .error e := by
  rw [fieldNode, Results.map_eq_error_iff]

theorem fieldNode_mono {fewer : List Call} (hcalls : fewer.Sublist under) {field : Field}
    {node : Node} (hok : graph.fieldNode describe field under = .ok node) :
    graph.fieldNode describe field fewer = .ok node := by
  rw [fieldNode_eq_ok_iff] at hok ⊢
  obtain ⟨base, hbase, hnode⟩ := hok
  exact ⟨base, node_mono (hcalls.cons_cons _) hbase, hnode⟩

/-- The node of a field is made of the one that its base type has by itself. -/
theorem exists_base_of_fieldNode {field : Field} {node : Node}
    (hok : graph.fieldNode describe field under = .ok node) :
    ∃ base, graph.node describe field.type.base = .ok base ∧
      node =
        if field.type.isList then .array (mergedNote field.description base.note) base
        else base.withNote (mergedNote field.description base.note) := by
  obtain ⟨base, hbase, hnode⟩ := fieldNode_eq_ok_iff.1 hok
  exact ⟨base, node_mono (List.nil_sublist _) hbase, hnode⟩

/-! ## The properties of fields -/

private theorem exists_pairs_of_properties {fields : List Field} {properties : Properties}
    (hok : graph.properties describe fields = .ok properties) :
    ∃ pairs : Entries Node, List.Forall₂
        (fun (field : Field) (pair : String × Node) =>
          graph.fieldNode describe field whileBuilding = .ok pair.2 ∧ pair.1 = field.name)
          fields pairs ∧
      properties.nodes = Entries.ofList pairs ∧ properties.required = requiredNames fields := by
  rw [TypeGraph.properties, inRoom_eq_ok_iff, Results.map_eq_ok_iff] at hok
  obtain ⟨-, pairs, hpairs, rfl⟩ := hok
  refine ⟨pairs, ?_, rfl, rfl⟩
  refine (Results.mapM_eq_ok_iff.1 hpairs).imp fun field pair hpair => ?_
  obtain ⟨node, hnode, rfl⟩ := Results.map_eq_ok_iff.1 hpair
  exact ⟨hnode, rfl⟩

/-- The nodes of properties are those that fields have by themselves. -/
private theorem exists_freePairs_of_properties {fields : List Field} {properties : Properties}
    (hok : graph.properties describe fields = .ok properties) :
    ∃ pairs : Entries Node, List.Forall₂
        (fun (field : Field) (pair : String × Node) =>
          graph.fieldNode describe field = .ok pair.2 ∧ pair.1 = field.name) fields pairs ∧
      properties.nodes = Entries.ofList pairs ∧ properties.required = requiredNames fields := by
  obtain ⟨pairs, hpairs, hnodes, hrequired⟩ := exists_pairs_of_properties hok
  refine ⟨pairs, hpairs.imp fun field pair hpair => ?_, hnodes, hrequired⟩
  exact ⟨fieldNode_mono (List.nil_sublist _) hpair.1, hpair.2⟩

private theorem names_of_pairs {fields : List Field} {pairs : Entries Node}
    (hpairs : List.Forall₂
      (fun (field : Field) (pair : String × Node) =>
        graph.fieldNode describe field = .ok pair.2 ∧ pair.1 = field.name) fields pairs) :
    pairs.names = fields.map (·.name) := by
  induction hpairs with
  | nil => rfl
  | cons hpair _ ih =>
      rw [Entries.names_cons, List.map_cons, ih, hpair.2]

theorem required_of_properties {fields : List Field} {properties : Properties}
    (hok : graph.properties describe fields = .ok properties) :
    properties.required = requiredNames fields := by
  obtain ⟨pairs, -, -, hrequired⟩ := exists_freePairs_of_properties hok
  exact hrequired

theorem names_of_properties {fields : List Field} {properties : Properties}
    (hok : graph.properties describe fields = .ok properties)
    (hnodup : (fields.map (·.name)).Nodup) :
    properties.nodes.names = fields.map (·.name) := by
  obtain ⟨pairs, hpairs, hnodes, -⟩ := exists_freePairs_of_properties hok
  have hnames := names_of_pairs hpairs
  rw [hnodes, Entries.ofList_eq_self (by rw [hnames]; exact hnodup), hnames]

theorem mem_names_of_properties {fields : List Field} {properties : Properties}
    (hok : graph.properties describe fields = .ok properties) {name : String} :
    name ∈ properties.nodes.names ↔ name ∈ fields.map (·.name) := by
  obtain ⟨pairs, hpairs, hnodes, -⟩ := exists_freePairs_of_properties hok
  rw [hnodes, Entries.mem_names_ofList_iff, names_of_pairs hpairs]

/-- Fields with different names have one property each, in their order. -/
theorem forall₂_of_properties {fields : List Field} {properties : Properties}
    (hok : graph.properties describe fields = .ok properties)
    (hnodup : (fields.map (·.name)).Nodup) :
    List.Forall₂
      (fun (field : Field) (pair : String × Node) =>
        graph.fieldNode describe field = .ok pair.2 ∧ pair.1 = field.name) fields
      properties.nodes := by
  obtain ⟨pairs, hpairs, hnodes, -⟩ := exists_freePairs_of_properties hok
  have hnames := names_of_pairs hpairs
  rw [hnodes, Entries.ofList_eq_self (by rw [hnames]; exact hnodup)]
  exact hpairs

private theorem get?_eq_some_iff_of_forall₂ {fields : List Field} {pairs : Entries Node}
    (hpairs : List.Forall₂
      (fun (field : Field) (pair : String × Node) =>
        graph.fieldNode describe field = .ok pair.2 ∧ pair.1 = field.name) fields pairs)
    {name : String} {node : Node} :
    pairs.get? name = some node ↔
      ∃ field, fields.find? (·.name = name) = some field ∧
        graph.fieldNode describe field = .ok node := by
  induction hpairs with
  | nil => simp [Entries.get?]
  | @cons field pair rest others hpair _ ih =>
      obtain ⟨hnode, hname⟩ := hpair
      rw [List.find?_cons, Entries.get?, ← hname]
      by_cases hfirst : pair.1 = name
      · simp only [hfirst, if_true, decide_true, Option.some.injEq, exists_eq_left']
        rw [hnode, Except.ok.injEq]
      · simp only [hfirst, if_false, decide_false]
        exact ih

theorem mem_nodes_iff {fields : List Field} {properties : Properties}
    (hok : graph.properties describe fields = .ok properties) {name : String} {node : Node} :
    (name, node) ∈ properties.nodes ↔
      ∃ field, fieldNamed? fields name = some field ∧
        graph.fieldNode describe field = .ok node := by
  obtain ⟨pairs, hpairs, hnodes, -⟩ := exists_freePairs_of_properties hok
  rw [hnodes, Entries.mem_ofList_iff]
  exact get?_eq_some_iff_of_forall₂ (List.forall₂_reverse_iff.2 hpairs)

theorem nodup_names_of_properties {fields : List Field} {properties : Properties}
    (hok : graph.properties describe fields = .ok properties) :
    properties.nodes.names.Nodup := by
  obtain ⟨pairs, -, hnodes, -⟩ := exists_freePairs_of_properties hok
  rw [hnodes]
  exact Entries.nodup_names_ofList pairs

/-- Properties fail where there is no room for them or a field has no node. -/
theorem cause_of_properties_eq_error {fields : List Field} {e : GraphError}
    (herror : graph.properties describe fields = .error e) :
    Runtime.hasRoom whileBuilding = false ∧ e = .tooDeep ∨
      ∃ field ∈ fields, graph.node describe field.type.base whileResolving = .error e := by
  rw [TypeGraph.properties, inRoom_eq_error_iff, Results.map_eq_error_iff] at herror
  refine herror.imp_right ?_
  rintro ⟨-, herror⟩
  obtain ⟨field, hfield, hnode⟩ := Results.exists_error_of_mapM herror
  rw [Results.map_eq_error_iff, fieldNode_eq_error_iff] at hnode
  exact ⟨field, hfield, hnode⟩

theorem exists_fieldNode_of_properties {fields : List Field} {properties : Properties}
    (hok : graph.properties describe fields = .ok properties) {field : Field}
    (hfield : field ∈ fields) : ∃ node, graph.fieldNode describe field = .ok node := by
  obtain ⟨pairs, hpairs, -, -⟩ := exists_freePairs_of_properties hok
  obtain ⟨pair, -, hnode, -⟩ := Results.exists_right_of_forall₂ hpairs hfield
  exact ⟨pair.2, hnode⟩

theorem exists_node_of_properties {fields : List Field} {properties : Properties}
    (hok : graph.properties describe fields = .ok properties) {field : Field}
    (hfield : field ∈ fields) :
    ∃ node, graph.node describe field.type.base whileResolving = .ok node := by
  obtain ⟨pairs, hpairs, -, -⟩ := exists_pairs_of_properties hok
  obtain ⟨pair, -, hnode, -⟩ := Results.exists_right_of_forall₂ hpairs hfield
  obtain ⟨base, hbase, -⟩ := fieldNode_eq_ok_iff.1 hnode
  exact ⟨base, hbase⟩

/-! ## The properties of all object types -/

theorem forall₂_of_objectProperties {built : List (TypeDef × Properties)}
    (hok : graph.objectProperties describe = .ok built) :
    List.Forall₂
      (fun (type : TypeDef) (pair : TypeDef × Properties) =>
        pair.1 = type ∧ graph.properties describe type.fields = .ok pair.2)
      graph.objects built := by
  rw [objectProperties, inRoom_eq_ok_iff] at hok
  refine (Results.mapM_eq_ok_iff.1 hok.2).imp fun type pair hpair => ?_
  obtain ⟨properties, hproperties, rfl⟩ := Results.map_eq_ok_iff.1 hpair
  exact ⟨rfl, hproperties⟩

theorem mem_built_iff {built : List (TypeDef × Properties)}
    (hok : graph.objectProperties describe = .ok built) {type : TypeDef}
    {properties : Properties} :
    (type, properties) ∈ built ↔
      type ∈ graph.objects ∧ graph.properties describe type.fields = .ok properties := by
  have hbuilt := forall₂_of_objectProperties hok
  constructor
  · intro hmem
    obtain ⟨other, hother, hname, hproperties⟩ := Results.exists_left_of_forall₂ hbuilt hmem
    simp only at hname hproperties
    subst other
    exact ⟨hother, hproperties⟩
  · rintro ⟨htype, hproperties⟩
    obtain ⟨⟨other, found⟩, hmem, hname, hfound⟩ := Results.exists_right_of_forall₂ hbuilt htype
    simp only at hname hfound
    subst other
    rw [hproperties, Except.ok.injEq] at hfound
    subst found
    exact hmem

theorem map_fst_built {built : List (TypeDef × Properties)}
    (hok : graph.objectProperties describe = .ok built) : built.map (·.1) = graph.objects := by
  have hfirst : List.Forall₂ (fun type pair => pair.1 = type) graph.objects built :=
    (forall₂_of_objectProperties hok).imp fun _ _ hpair => hpair.1
  clear hok
  generalize graph.objects = types at hfirst
  induction hfirst with
  | nil => rfl
  | cons hpair _ ih => rw [List.map_cons, ih, hpair]

/-- The properties of a graph fail where there is no room for them or a field has no node. -/
theorem cause_of_objectProperties_eq_error {e : GraphError}
    (herror : graph.objectProperties describe = .error e) :
    graph.IsTooDeep ∧ e = .tooDeep ∨
      ∃ type ∈ graph.objects, ∃ field ∈ type.fields,
        graph.node describe field.type.base whileResolving = .error e := by
  rw [objectProperties, inRoom_eq_error_iff] at herror
  rcases herror with ⟨hfull, rfl⟩ | ⟨-, herror⟩
  · exact .inl ⟨.compile hfull, rfl⟩
  · obtain ⟨type, htype, hproperties⟩ := Results.exists_error_of_mapM herror
    rw [Results.map_eq_error_iff] at hproperties
    rcases cause_of_properties_eq_error hproperties with ⟨hfull, rfl⟩ | ⟨field, hfield, hnode⟩
    · exact .inl ⟨.object htype hfull, rfl⟩
    · exact .inr ⟨type, htype, field, hfield, hnode⟩

theorem exists_node_of_objectProperties {built : List (TypeDef × Properties)}
    (hok : graph.objectProperties describe = .ok built) {type : TypeDef}
    (htype : type ∈ graph.objects) {field : Field} (hfield : field ∈ type.fields) :
    ∃ node, graph.node describe field.type.base whileResolving = .ok node := by
  obtain ⟨⟨other, properties⟩, -, -, hproperties⟩ :=
    Results.exists_right_of_forall₂ (forall₂_of_objectProperties hok) htype
  exact exists_node_of_properties hproperties hfield

/-- Where there are properties, nothing but a field can have been too deep. -/
theorem IsTooDeep.exists_field {built : List (TypeDef × Properties)} (hdeep : graph.IsTooDeep)
    (hok : graph.objectProperties describe = .ok built) :
    ∃ type ∈ graph.objects, ∃ field ∈ type.fields,
      graph.LeadsTooFar whileResolving field.type.base := by
  cases hdeep with
  | compile hfull =>
      rw [(inRoom_eq_ok_iff.1 hok).1] at hfull
      contradiction
  | object htype hfull =>
      obtain ⟨pair, -, -, hproperties⟩ :=
        Results.exists_right_of_forall₂ (forall₂_of_objectProperties hok) htype
      rw [(inRoom_eq_ok_iff.1 hproperties).1] at hfull
      contradiction
  | field htype hfield hfar => exact ⟨_, htype, _, hfield, hfar⟩

theorem objectProperties_outcome (hindexed : graph.IsIndexed) (hclosed : graph.IsClosed)
    (hunions : graph.HasFiniteUnions) (describe : Bool) :
    (∃ built, graph.objectProperties describe = .ok built) ∧ ¬ graph.IsTooDeep ∨
      graph.objectProperties describe = .error .tooDeep ∧ graph.IsTooDeep := by
  have hgraph := hindexed.isExpandable hunions
  cases hbuilt : graph.objectProperties describe with
  | ok built =>
      refine .inl ⟨⟨built, rfl⟩, ?_⟩
      intro hdeep
      obtain ⟨type, htype, field, hfield, hfar⟩ := hdeep.exists_field hbuilt
      obtain ⟨node, hnode⟩ := exists_node_of_objectProperties hbuilt htype hfield
      have houtcome := node_outcome hgraph describe field.type.base whileResolving
      rw [hnode] at houtcome
      cases houtcome with
      | finished _ hknown hnear => exact hnear hfar
  | error e =>
      rcases cause_of_objectProperties_eq_error hbuilt with
        ⟨hdeep, rfl⟩ | ⟨type, htype, field, hfield, hnode⟩
      · exact .inr ⟨rfl, hdeep⟩
      · have houtcome := node_outcome hgraph describe field.type.base whileResolving
        rw [hnode] at houtcome
        cases houtcome with
        | tooDeep hfar => exact .inr ⟨rfl, .field htype hfield hfar⟩
        | unknown last calls hpath hunknown =>
            have hmem := (mem_objects_iff.1 htype).1
            have hbase := hclosed type hmem _ (TypeDef.base_mem_references hfield)
            exact absurd (hclosed.mem_names_of_reachesBy hindexed hbase hpath) hunknown

end

/-! ## Enough room -/

section Usual

attribute [local instance] Runtime.usual

/-- What is not too many steps away is in the room that there usually is. -/
theorem not_isTooDeep_of_steps_le
    (hlow : ∀ name steps last, graph.ExpandsIn steps name last → 3 * steps ≤ 989) :
    ¬ graph.IsTooDeep := by
  intro hdeep
  cases hdeep with
  | compile hfull => contradiction
  | object htype hfull => contradiction
  | field htype hfield hfar =>
      obtain ⟨last, calls, hpath, hfull⟩ := hfar
      obtain ⟨steps, hsteps, hlength⟩ := hpath.exists_expandsIn
      have hle := hlow _ steps _ hsteps
      rw [Runtime.hasRoom_usual_eq_false_iff, List.length_append, hlength] at hfull
      simp only [whileResolving, whileBuilding, List.length_cons, List.length_nil] at hfull
      omega

theorem RanksVariants.not_isTooDeep {rank : String → Nat} (hrank : graph.RanksVariants rank)
    (hlow : ∀ name, 3 * rank name ≤ 989) : ¬ graph.IsTooDeep := by
  refine not_isTooDeep_of_steps_le fun name steps last hpath => ?_
  have hsteps := hrank.steps_le hpath
  have hbound := hlow name
  omega

/-- Where nothing is expanded nothing is too deep. -/
theorem not_isTooDeep_of_not_expands (hnone : ∀ first second, ¬ graph.Expands first second) :
    ¬ graph.IsTooDeep := by
  refine not_isTooDeep_of_steps_le fun name steps last hpath => ?_
  cases steps with
  | zero => omega
  | succ steps =>
      obtain ⟨next, hstep, -⟩ := hpath
      exact absurd hstep (hnone _ _)

theorem not_isTooDeep_shelfTypes : ¬ (ofTypes shelfTypes).IsTooDeep := by
  refine ranksVariants_shelfTypes.not_isTooDeep fun name => ?_
  unfold shelfRank
  split <;> omega

end Usual

end TypeGraph

end ConfigSchema
