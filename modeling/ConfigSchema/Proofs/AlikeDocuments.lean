import ConfigSchema.Proofs.DocumentParts
import ConfigSchema.Proofs.MatchingGraphs

/-!
# Documents of matching graphs

The documents of two matching graphs are compared node by node.  A comparison that holds of the
nodes of types without variants, and that carries over from the variants of a type to its node,
holds of the nodes of every name; if corresponding fields keep it, it holds of the documents of
every root.  Where one of the two is missing, so is the other, for the same cause.
-/

namespace ConfigSchema

/-! ## Comparing documents -/

/-- Properties of the same names, with corresponding nodes, of which the same are required. -/
structure Properties.Corresponds (R : Node → Node → Prop) (one other : Properties) : Prop where
  nodes : Entries.Corresponds R one.nodes other.nodes
  required : one.required = other.required

structure Definition.Corresponds (R : Node → Node → Prop) (one other : Definition) : Prop where
  title : one.title = other.title
  properties : one.properties.Corresponds R other.properties
  isOpen : one.isOpen = other.isOpen

/-- Documents that differ in nodes at most, and there in corresponding ones. -/
structure SchemaDocument.Corresponds (R : Node → Node → Prop) (one other : SchemaDocument) :
    Prop where
  schemaUri : one.schemaUri = other.schemaUri
  title : one.title = other.title
  root : one.root.Corresponds R other.root
  definitions : Entries.Corresponds (Definition.Corresponds R) one.definitions other.definitions

theorem Entries.eq_of_corresponds {α : Type} {pairs others : Entries α}
    (hpairs : Entries.Corresponds Eq pairs others) : pairs = others := by
  rw [← List.forall₂_eq_eq_eq]
  exact List.Forall₂.imp (fun _ _ hpair => Prod.ext hpair.1 hpair.2) hpairs

theorem Properties.eq_of_corresponds {one other : Properties} (h : one.Corresponds Eq other) :
    one = other := by
  rcases one with ⟨nodes, required⟩
  rcases other with ⟨others, required'⟩
  obtain rfl : nodes = others := Entries.eq_of_corresponds h.nodes
  obtain rfl : required = required' := h.required
  rfl

theorem Definition.eq_of_corresponds {one other : Definition} (h : one.Corresponds Eq other) :
    one = other := by
  rcases one with ⟨title, properties, isOpen⟩
  rcases other with ⟨title', properties', isOpen'⟩
  obtain rfl : title = title' := h.title
  obtain rfl : properties = properties' := Properties.eq_of_corresponds h.properties
  obtain rfl : isOpen = isOpen' := h.isOpen
  rfl

theorem SchemaDocument.eq_of_corresponds {one other : SchemaDocument}
    (h : one.Corresponds Eq other) : one = other := by
  rcases one with ⟨schemaUri, title, root, definitions⟩
  rcases other with ⟨schemaUri', title', root', definitions'⟩
  obtain rfl : schemaUri = schemaUri' := h.schemaUri
  obtain rfl : title = title' := h.title
  obtain rfl : root = root' := Properties.eq_of_corresponds h.root
  have hdefinitions : Entries.Corresponds Eq definitions definitions' :=
    h.definitions.imp fun _ _ hpair => ⟨hpair.1, Definition.eq_of_corresponds hpair.2⟩
  obtain rfl : definitions = definitions' := Entries.eq_of_corresponds hdefinitions
  rfl

namespace TypeGraph

/-- The node of a field whose type has the given one. -/
def nodeUnder (field : Field) (base : Node) : Node :=
  let description := mergedNote field.description base.note
  if field.type.isList then .array description base else base.withNote description

theorem fieldNode_eq_map [Runtime] (graph : TypeGraph) (describe : Bool) (field : Field)
    (under : List Call) :
    graph.fieldNode describe field under =
      (graph.node describe field.type.base (.resolveField :: under)).map (nodeUnder field) := rfl

/-- A comparison of nodes that expansions keep, noting variants in one way or the other. -/
structure ComparesNodes (R : Node → Node → Prop) (describe describe' : Bool) : Prop where
  leaf : ∀ type, R (leafNode describe type) (leafNode describe' type)
  anyOf : ∀ names nodes others, List.Forall₂ R nodes others →
    R (.anyOf (variantNote describe "Any of: " names) nodes)
      (.anyOf (variantNote describe' "Any of: " names) others)

theorem comparesNodes_eq (describe : Bool) : ComparesNodes Eq describe describe where
  leaf := fun _ => rfl
  anyOf := by
    intro names nodes others hall
    rw [List.forall₂_eq_eq_eq] at hall
    rw [hall]

/-- Fields that make corresponding properties of corresponding nodes. -/
structure ComparesFields (R : Node → Node → Prop) (field another : Field) : Prop where
  name : field.name = another.name
  base : field.type.base = another.type.base
  isRequired : field.type.isRequired = another.type.isRequired
  nodeUnder : ∀ node node', R node node' → R (nodeUnder field node) (nodeUnder another node')

/-- Types that match, with corresponding properties. -/
def BuiltAlike (F : Field → Field → Prop) (R : Node → Node → Prop)
    (pair another : TypeDef × Properties) : Prop :=
  pair.1.Matches F another.1 ∧ pair.2.Corresponds R another.2

/-! ## Nodes -/

variable {F : Field → Field → Prop} {R : Node → Node → Prop} {one other : TypeGraph}
  {describe describe' : Bool} {excused : GraphError → Prop}

section

variable [Runtime]

theorem nodeBelow_of_mem {graph : TypeGraph} {under : List Call} {chain : List String}
    {name : String} (hold : name ∈ chain) :
    graph.nodeBelow describe under chain name = .error (.endless name) := by
  rw [nodeBelow, dif_pos hold]

theorem nodeBelow_agree (halike : one.ExpandAlike other)
    (hcompare : ComparesNodes R describe describe') (under : List Call) (chain : List String)
    (name : String) :
    Results.Agree excused R (one.nodeBelow describe under chain name)
      (other.nodeBelow describe' under chain name) := by
  induction hfree : Chain.room one.index.names chain using Nat.strongRecOn
    generalizing under chain name with
  | ind free ih =>
      by_cases hold : name ∈ chain
      · rw [nodeBelow_of_mem hold, nodeBelow_of_mem hold]
        exact .error _
      by_cases hroom : Runtime.hasRoom (.resolveType name :: under) = true
      swap
      · rw [Bool.not_eq_true] at hroom
        rw [nodeBelow_of_full hold hroom, nodeBelow_of_full hold hroom]
        exact .error _
      rcases halike name with
        ⟨hnone, hnone'⟩ | ⟨type, another, hget, hget', halternatives, hleaf⟩
      · rw [nodeBelow_of_get?_eq_none hold hroom hnone,
          nodeBelow_of_get?_eq_none hold hroom hnone']
        exact .error _
      · rw [nodeBelow_of_get? hold hroom hget, nodeBelow_of_get? hold hroom hget',
          ← halternatives, ← hleaf]
        rcases one.alternatives type with e | _ | variants
        · exact .error e
        · exact .ok (hcompare.leaf type)
        · refine Results.Agree.map (Results.Agree.mapM ?_) (hcompare.anyOf variants)
          refine List.forall₂_same.2 fun variant _ => ih _ ?_ _ (name :: chain) variant rfl
          rw [← hfree]
          exact Chain.room_cons_lt (Entries.mem_names_of_get? hget) hold

theorem node_agree (halike : one.ExpandAlike other)
    (hcompare : ComparesNodes R describe describe') (name : String) (under : List Call) :
    Results.Agree excused R (one.node describe name under) (other.node describe' name under) :=
  nodeBelow_agree halike hcompare under [] name

theorem ExpandAlike.node_eq (halike : one.ExpandAlike other) (describe : Bool) (name : String)
    (under : List Call := []) : one.node describe name under = other.node describe name under := by
  have hagree : Results.Agree (fun _ => False) Eq (one.node describe name under)
      (other.node describe name under) := node_agree halike (comparesNodes_eq describe) name under
  exact hagree.eq_of_never

/-- The nodes of matching graphs are the same. -/
theorem Matches.node_eq (hgraph : one.Matches F other) (describe : Bool) (name : String)
    (under : List Call := []) : one.node describe name under = other.node describe name under :=
  hgraph.expandAlike.node_eq describe name under

/-! ## Properties -/

theorem inRoom_agree {α β : Type} {S : α → β → Prop} (calls : List Call)
    {result : Except GraphError α} {another : Except GraphError β}
    (hagree : Results.Agree excused S result another) :
    Results.Agree excused S (inRoom calls result) (inRoom calls another) := by
  unfold inRoom
  split
  · exact hagree
  · exact .error _

theorem properties_agree (halike : one.ExpandAlike other)
    (hcompare : ComparesNodes R describe describe') {fields others : List Field}
    (hfields : List.Forall₂ (ComparesFields R) fields others) :
    Results.Agree excused (Properties.Corresponds R) (one.properties describe fields)
      (other.properties describe' others) := by
  have hrequired : requiredNames fields = requiredNames others := by
    have hfiltered : List.Forall₂ (ComparesFields R) (fields.filter (·.type.isRequired))
        (others.filter (·.type.isRequired)) := by
      refine List.rel_filter ?_ hfields
      intro field another hfield
      simp only [hfield.isRequired]
    exact map_eq_map_of_forall₂ (hfiltered.imp fun _ _ hfield => hfield.name)
  have hnodes : Results.Agree excused (Entries.Corresponds R)
      (fields.mapM fun field => (one.fieldNode describe field whileBuilding).map (field.name, ·))
      (others.mapM fun field =>
        (other.fieldNode describe' field whileBuilding).map (field.name, ·)) := by
    refine Results.Agree.mapM (hfields.imp fun field another hfield => ?_)
    have hbase : Results.Agree excused R (one.node describe field.type.base whileResolving)
        (other.node describe' field.type.base whileResolving) :=
      node_agree halike hcompare field.type.base whileResolving
    rw [fieldNode_eq_map, fieldNode_eq_map, ← hfield.base]
    refine (hbase.map hfield.nodeUnder).map fun node node' hnode => ?_
    exact ⟨hfield.name, hnode⟩
  refine inRoom_agree _ (hnodes.map fun pairs pairs' hpairs => ?_)
  exact ⟨hpairs.ofList, hrequired⟩

theorem objectProperties_agree (hgraph : one.Matches F other)
    (hcompare : ComparesNodes R describe describe')
    (hfields : ∀ field another, F field another → ComparesFields R field another) :
    Results.Agree excused (List.Forall₂ (BuiltAlike F R)) (one.objectProperties describe)
      (other.objectProperties describe') := by
  refine inRoom_agree _ (Results.Agree.mapM (hgraph.objects.imp fun type another hmatch => ?_))
  have hproperties : Results.Agree excused (Properties.Corresponds R)
      (one.properties describe type.fields) (other.properties describe' another.fields) :=
    properties_agree hgraph.expandAlike hcompare (hmatch.fields.imp hfields)
  exact hproperties.map fun properties others hall => ⟨hmatch, hall⟩

end

/-! ## Documents -/

section FromBuilt

variable {P : TypeDef × Properties → TypeDef × Properties → Prop} {D : String → Definition →
  Definition → Prop}

/-- What belongs together under every root once the properties of all object types do. -/
structure ComparesBuilt (P : TypeDef × Properties → TypeDef × Properties → Prop)
    (R : Node → Node → Prop) (D : String → Definition → Definition → Prop) : Prop where
  name : ∀ pair another, P pair another → pair.1.name = another.1.name
  properties : ∀ pair another, P pair another → pair.2.Corresponds R another.2
  definition : ∀ pair another, P pair another →
    D pair.1.name (definitionOf pair.1 pair.2) (definitionOf another.1 another.2)

/-- Documents with corresponding properties at the top and related definitions. -/
structure SharesParts (R : Node → Node → Prop) (D : String → Definition → Definition → Prop)
    (one other : SchemaDocument) : Prop where
  schemaUri : one.schemaUri = other.schemaUri
  title : one.title = other.title
  root : one.root.Corresponds R other.root
  definitions : Entries.Related D one.definitions other.definitions

theorem rootProperties_correspond (hcompare : ComparesBuilt P R D)
    {roots others : List (TypeDef × Properties)} (hroots : List.Forall₂ P roots others) :
    Properties.Corresponds R (((roots.getLast?).map (·.2)).getD {})
      (((others.getLast?).map (·.2)).getD {}) := by
  rw [List.getLast?_eq_head?_reverse, List.getLast?_eq_head?_reverse]
  have hreversed := List.forall₂_reverse_iff.2 hroots
  generalize roots.reverse = firsts at hreversed ⊢
  generalize others.reverse = seconds at hreversed ⊢
  cases hreversed with
  | nil => exact ⟨.nil, rfl⟩
  | cons hfirst _ => exact hcompare.properties _ _ hfirst

/-- Documents agree as the properties of all object types do. -/
theorem document_agree_of_built [Runtime] (hcompare : ComparesBuilt P R D) {settings : Settings}
    {noted noted' : Json}
    (hbuilt : Results.Agree (fun _ => False) (List.Forall₂ P)
      (one.objectProperties noted.isTruthy) (other.objectProperties noted'.isTruthy))
    (asked : Json) :
    Results.Agree (fun _ => False) (SharesParts R D)
      (one.document { settings with describeVariants := noted } asked)
      (other.document { settings with describeVariants := noted' } asked) := by
  unfold document
  simp only [rootFor]
  generalize one.objectProperties noted.isTruthy = built at hbuilt ⊢
  generalize other.objectProperties noted'.isTruthy = others at hbuilt ⊢
  generalize (if asked.isTruthy = true then asked else settings.rootType) = root
  cases hbuilt with
  | error e => exact .error _
  | left h _ => exact h.elim
  | right h _ => exact h.elim
  | @ok built others hall =>
      have hpart : ∀ keep : String → Bool, List.Forall₂ P
          (built.filter fun pair => keep pair.1.name)
          (others.filter fun pair => keep pair.1.name) := by
        intro keep
        refine List.rel_filter ?_ hall
        intro pair another hpair
        simp only [hcompare.name _ _ hpair]
      have hroots := hpart root.isName
      have hothers := hpart fun name => !root.isName name
      have hempty : (built.filter fun pair => root.isName pair.1.name).isEmpty =
          (others.filter fun pair => root.isName pair.1.name).isEmpty := by
        rw [Bool.eq_iff_iff, List.isEmpty_iff_length_eq_zero, List.isEmpty_iff_length_eq_zero,
          hroots.length_eq]
      have hdefinitions : Entries.Related D
          ((built.filter fun pair => !root.isName pair.1.name).map fun pair =>
            (pair.1.name, definitionOf pair.1 pair.2))
          ((others.filter fun pair => !root.isName pair.1.name).map fun pair =>
            (pair.1.name, definitionOf pair.1 pair.2)) := by
        unfold Entries.Related
        rw [List.forall₂_map_left_iff, List.forall₂_map_right_iff]
        refine hothers.imp fun pair another hpair => ?_
        exact ⟨hcompare.name _ _ hpair, hcompare.definition _ _ hpair⟩
      dsimp only
      rw [hempty]
      split
      · exact .error _
      · exact .ok ⟨rfl, rfl, rootProperties_correspond hcompare hroots, hdefinitions.ofList⟩

end FromBuilt

theorem comparesBuilt_builtAlike :
    ComparesBuilt (BuiltAlike F R) R fun _ => Definition.Corresponds R where
  name _ _ hpair := hpair.1.name
  properties _ _ hpair := hpair.2
  definition := by
    intro pair another hpair
    have hopen : pair.1.directives.contains openDirective =
        another.1.directives.contains openDirective := by rw [hpair.1.directives]
    exact ⟨hpair.1.name, hpair.2, hopen⟩

/-- The documents of matching graphs under settings that may differ in how variants are noted. -/
theorem document_agree [Runtime] (hgraph : one.Matches F other) {settings : Settings}
    {noted noted' : Json} (hcompare : ComparesNodes R noted.isTruthy noted'.isTruthy)
    (hfields : ∀ field another, F field another → ComparesFields R field another) (asked : Json) :
    Results.Agree (fun _ => False) (SchemaDocument.Corresponds R)
      (one.document { settings with describeVariants := noted } asked)
      (other.document { settings with describeVariants := noted' } asked) := by
  have hbuilt : Results.Agree (fun _ => False) (List.Forall₂ (BuiltAlike F R))
      (one.objectProperties noted.isTruthy) (other.objectProperties noted'.isTruthy) :=
    objectProperties_agree hgraph hcompare hfields
  refine (document_agree_of_built comparesBuilt_builtAlike hbuilt asked).imp ?_
  intro document another hparts
  exact ⟨hparts.schemaUri, hparts.title, hparts.root, hparts.definitions⟩

/-- Where corresponding fields make the same properties, documents are the same. -/
theorem document_eq_of_matches [Runtime] (hgraph : one.Matches F other)
    (hfields : ∀ field another, F field another → ComparesFields Eq field another)
    (settings : Settings) (asked : Json) :
    one.document settings asked = other.document settings asked := by
  have hcompare := comparesNodes_eq settings.describeVariants.isTruthy
  have hagree : Results.Agree (fun _ => False) (SchemaDocument.Corresponds Eq)
      (one.document settings asked) (other.document settings asked) :=
    document_agree hgraph hcompare hfields asked
  exact (hagree.imp fun _ _ h => SchemaDocument.eq_of_corresponds h).eq_of_never

end TypeGraph

end ConfigSchema
