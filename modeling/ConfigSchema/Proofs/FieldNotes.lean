import ConfigSchema.Proofs.AlikeDocuments
import ConfigSchema.Proofs.ExpansionLimits
import ConfigSchema.Proofs.References

/-!
# Descriptions of fields and notes of types

The node of a field joins the description of the field with the note of its type.  A list keeps
the node of its type as its items, note and all, and whatever stands below the node of a field is
the node of some name as it is.  So every note is told where it belongs, and a property is
described by the field that it stands for and by no other.
-/

namespace ConfigSchema

/-- Fields that differ in their descriptions at most. -/
structure Field.Redescribed (field another : Field) : Prop where
  name : field.name = another.name
  type : field.type = another.type
  directives : field.directives = another.directives

/-! ## Nodes inside nodes -/

namespace Node

/-- The nodes directly below a node. -/
def children : Node → List Node
  | .anyOf _ variants => variants
  | .array _ items => [items]
  | _ => []

/-- A node stands in another one, and is not that node. -/
def Encloses (node sub : Node) : Prop :=
  ∃ child ∈ node.children, child.Contains sub

theorem contains_iff_encloses {node sub : Node} :
    node.Contains sub ↔ sub = node ∨ node.Encloses sub := by
  constructor
  · intro hcontains
    cases hcontains with
    | self => exact .inl rfl
    | items h => exact .inr ⟨_, List.mem_singleton_self _, h⟩
    | variant hmem h => exact .inr ⟨_, hmem, h⟩
  · intro hcases
    rcases hcases with rfl | ⟨child, hchild, hcontains⟩
    · exact .self sub
    · cases node with
      | anyOf note variants => exact .variant hchild hcontains
      | array note items =>
          rw [List.mem_singleton.1 hchild] at hcontains
          exact .items hcontains
      | _ => simp [children] at hchild

theorem children_withNote (note : Option String) (node : Node) :
    (node.withNote note).children = node.children := by
  cases node <;> rfl

end Node

namespace TypeGraph

variable {graph : TypeGraph} {describe : Bool} {name : String} {node sub : Node}

/-- What stands in the node of a name is the node of a name. -/
theorem exists_name_of_contains [Runtime] (hok : graph.node describe name = .ok node)
    (hcontains : node.Contains sub) : ∃ inner, graph.node describe inner = .ok sub := by
  induction hcontains generalizing name with
  | self node => exact ⟨name, hok⟩
  | items _ _ =>
      rcases exists_alternatives_of_node hok with ⟨type, -, ⟨-, hleaf⟩ | ⟨_, _, -, -, hany⟩⟩
      · exact absurd hleaf.symm leafNode_ne_array
      · contradiction
  | variant hmem _ ih =>
      rcases exists_alternatives_of_node hok with ⟨type, -, ⟨-, hleaf⟩ | ⟨_, _, -, hall, hany⟩⟩
      · exact absurd hleaf.symm leafNode_ne_anyOf
      · rcases Node.anyOf.inj hany with ⟨-, rfl⟩
        rcases Results.exists_left_of_forall₂ hall hmem with ⟨inner, -, hinner⟩
        exact ih hinner

/-- The variants of a node are the nodes of the names that some type has as its variants. -/
def OffersVariants [Runtime] (graph : TypeGraph) (describe : Bool) (names : List String)
    (variants : List Node) : Prop :=
  (∃ name type, graph.index.get? name = some type ∧ graph.alternatives type = .ok (some names)) ∧
    List.Forall₂ (fun name variant => graph.node describe name = .ok variant) names variants

theorem offersVariants_of_node [Runtime] {note : Option String} {variants : List Node}
    (hok : graph.node describe name = .ok (.anyOf note variants)) :
    ∃ names, graph.OffersVariants describe names variants ∧
      note = variantNote describe "Any of: " names := by
  rcases exists_alternatives_of_node hok with
    ⟨type, hget, ⟨-, hleaf⟩ | ⟨names, nodes, halternatives, hall, hany⟩⟩
  · exact absurd hleaf.symm leafNode_ne_anyOf
  · rcases Node.anyOf.inj hany with ⟨hnote, rfl⟩
    exact ⟨names, ⟨⟨name, type, hget, halternatives⟩, hall⟩, hnote⟩

theorem note_ne_empty_of_node [Runtime] (hok : graph.node describe name = .ok node) :
    node.note ≠ some "" := by
  have hvariants : ∀ label names, label ≠ "" → variantNote describe label names ≠ some "" := by
    intro label names hlabel
    unfold variantNote
    split
    · simp [hlabel]
    · simp
  rcases exists_alternatives_of_node hok with ⟨type, -, ⟨-, hleaf⟩ | ⟨_, _, -, -, hany⟩⟩
  · rw [hleaf]
    rcases type with ⟨own, description, directives, shape⟩
    cases shape with
    | scalar =>
        simp only [leafNode, Node.ofScalar?]
        cases Node.scalarKinds.get? own with
        | none => simp [Node.note, Node.unknownObject]
        | some kind =>
            by_cases hkind : kind = "object" <;> simp [hkind, Node.note]
    | enum values => exact hvariants _ _ (by decide)
    | _ => simp [leafNode, Node.note, Node.unknownObject]
  · rw [hany]
    exact hvariants _ _ (by decide)

/-! ## The node of a field -/

/-- A schema whose description is its first key, if it has one. -/
def DescribedFirst (schema : Json) : Prop :=
  ∃ rest : Entries Json, "description" ∉ rest.names ∧
    (schema = .obj rest ∨ ∃ text, schema = .obj (("description", .str text) :: rest))

/-- How a field adds its own description to the node of its type. -/
structure JoinsNotes (field : Field) (base node : Node) : Prop where
  both : ∀ own note, field.description = some own → own ≠ "" → base.note = some note →
    node.note = some (own ++ " (" ++ note ++ ")")
  own_alone : ∀ own, field.description = some own → own ≠ "" → base.note = none →
    node.note = some own
  note_alone : field.description = none ∨ field.description = some "" → node.note = base.note
  plain : field.type.isList = false →
    node = base.withNote node.note ∧
      ∃ rest : Entries Json, "description" ∉ rest.names ∧
        base.toJson = Node.keys base.note rest ∧ node.toJson = Node.keys node.note rest
  list : field.type.isList = true →
    node = .array node.note base ∧
      node.toJson = Node.keys node.note [("type", .str "array"), ("items", base.toJson)]

/-- Where the notes are that are told in the node of a field. -/
structure TellsNotes [Runtime] (graph : TypeGraph) (describe : Bool) (field : Field) (node : Node) :
    Prop where
  joins : ∃ base, graph.node describe field.type.base = .ok base ∧ JoinsNotes field base node
  inner : ∀ sub, node.Encloses sub → ∃ name, graph.node describe name = .ok sub
  variants : ∀ note variants, node.Contains (.anyOf note variants) →
    ∃ names, graph.OffersVariants describe names variants
  first : ∀ sub, node.Contains sub → DescribedFirst sub.toJson

theorem describedFirst_toJson (node : Node) : DescribedFirst node.toJson := by
  refine ⟨node.laterKeys, node.description_notMem_laterKeys, ?_⟩
  rw [Node.toJson_eq_keys]
  cases node.note with
  | none => exact .inl rfl
  | some text => exact .inr ⟨text, rfl⟩

theorem note_nodeUnder (field : Field) (base : Node) :
    (nodeUnder field base).note = mergedNote field.description base.note := by
  unfold nodeUnder
  split
  · rfl
  · exact Node.note_withNote _ _

theorem children_nodeUnder (field : Field) (base : Node) :
    (nodeUnder field base).children = if field.type.isList then [base] else base.children := by
  unfold nodeUnder
  split
  · rfl
  · exact Node.children_withNote _ _

theorem contains_of_encloses_nodeUnder {field : Field} {base sub : Node}
    (hencloses : (nodeUnder field base).Encloses sub) : base.Contains sub := by
  rcases hencloses with ⟨child, hchild, hcontains⟩
  rw [children_nodeUnder] at hchild
  split at hchild
  · rwa [List.mem_singleton.1 hchild] at hcontains
  · exact Node.contains_iff_encloses.2 (.inr ⟨child, hchild, hcontains⟩)

theorem joinsNotes_nodeUnder {field : Field} {base : Node} (hnote : base.note ≠ some "") :
    JoinsNotes field base (nodeUnder field base) := by
  have hmerged := note_nodeUnder field base
  refine ⟨?_, ?_, ?_, ?_, ?_⟩
  · intro own note hown hne hbase
    rw [hbase, ne_eq, Option.some.injEq] at hnote
    rw [hmerged, hown, hbase, mergedNote, if_neg hne, if_neg hnote]
  · intro own hown hne hbase
    rw [hmerged, hown, hbase, mergedNote, if_neg hne]
  · intro hnone
    rw [hmerged]
    rcases hnone with hnone | hempty
    · rw [hnone]
      rfl
    · rw [hempty]
      cases base.note <;> simp [mergedNote]
  · intro hplain
    have hnode : nodeUnder field base = base.withNote (nodeUnder field base).note := by
      rw [hmerged, nodeUnder, hplain]
      rfl
    refine ⟨hnode, base.laterKeys, base.description_notMem_laterKeys, base.toJson_eq_keys, ?_⟩
    rw [Node.toJson_eq_keys, hnode, Node.laterKeys_withNote, Node.note_withNote]
  · intro hlist
    have hnode : nodeUnder field base = .array (nodeUnder field base).note base := by
      rw [hmerged, nodeUnder, hlist]
      rfl
    refine ⟨hnode, ?_⟩
    rw [Node.toJson_eq_keys, hnode]
    rfl

/-- The alternatives in the node of a field are those of a type. -/
theorem exists_anyOf_of_contains [Runtime] {field : Field} {base : Node}
    (hbase : graph.node describe name = .ok base) {note : Option String} {variants : List Node}
    (hcontains : (nodeUnder field base).Contains (.anyOf note variants)) :
    ∃ inner own, graph.node describe inner = .ok (.anyOf own variants) := by
  rcases Node.contains_iff_encloses.1 hcontains with heq | hencloses
  · unfold nodeUnder at heq
    split at heq
    · contradiction
    · cases base with
      | anyOf own others =>
          rcases Node.anyOf.inj heq with ⟨-, rfl⟩
          exact ⟨name, own, hbase⟩
      | _ => contradiction
  · rcases exists_name_of_contains hbase (contains_of_encloses_nodeUnder hencloses) with
      ⟨inner, hinner⟩
    exact ⟨inner, note, hinner⟩

theorem tellsNotes_of_fieldNode [Runtime] {under : List Call} {field : Field}
    (hok : graph.fieldNode describe field under = .ok node) :
    graph.TellsNotes describe field node := by
  rcases exists_base_of_fieldNode hok with ⟨base, hbase, hnode⟩
  obtain rfl : node = nodeUnder field base := hnode
  refine ⟨⟨base, hbase, joinsNotes_nodeUnder (note_ne_empty_of_node hbase)⟩, ?_, ?_, ?_⟩
  · intro sub hencloses
    exact exists_name_of_contains hbase (contains_of_encloses_nodeUnder hencloses)
  · intro note variants hcontains
    rcases exists_anyOf_of_contains hbase hcontains with ⟨inner, own, hinner⟩
    rcases offersVariants_of_node hinner with ⟨names, hoffers, -⟩
    exact ⟨names, hoffers⟩
  · intro sub _
    exact describedFirst_toJson sub

/-! ## Other descriptions -/

theorem redescribed_of_fieldNamed? {fields others : List Field}
    (hfields : List.Forall₂ Field.Redescribed fields others) {field another : Field}
    (hfield : fieldNamed? fields name = some field)
    (hanother : fieldNamed? others name = some another) : field.Redescribed another := by
  have hreversed := List.forall₂_reverse_iff.2 hfields
  unfold fieldNamed? at hfield hanother
  generalize fields.reverse = firsts at hreversed hfield
  generalize others.reverse = seconds at hreversed hanother
  induction hreversed with
  | nil => contradiction
  | @cons first second firsts seconds hpair _ ih =>
      rw [List.find?_cons] at hfield hanother
      rw [← hpair.name] at hanother
      by_cases hname : first.name = name
      · simp only [hname, decide_true, Option.some.injEq] at hfield hanother
        rwa [← hfield, ← hanother]
      · simp only [hname, decide_false] at hfield hanother
        exact ih hfield hanother

/-- Properties of the same names that are the same wherever the last fields of a name have the same
description. -/
structure SameButDescriptions (fields others : List Field) (properties found : Properties) :
    Prop where
  names : properties.nodes.names = found.nodes.names
  required : properties.required = found.required
  get?_eq : ∀ name field another, fieldNamed? fields name = some field →
    fieldNamed? others name = some another → field.description = another.description →
    properties.nodes.get? name = found.nodes.get? name

theorem properties_of_redescribed [Runtime] {other : TypeGraph}
    (hgraph : graph.Matches Field.Redescribed other)
    {fields others : List Field} (hfields : List.Forall₂ Field.Redescribed fields others)
    {properties : Properties} (hok : graph.properties describe fields = .ok properties) :
    ∃ found, other.properties describe others = .ok found ∧
      SameButDescriptions fields others properties found := by
  have hcompare : ComparesNodes (fun _ _ => True) describe describe := ⟨by simp, by simp⟩
  have hcompared : List.Forall₂ (ComparesFields fun _ _ => True) fields others := by
    refine hfields.imp fun field another hfield => ?_
    exact ⟨hfield.name, by rw [hfield.type], by rw [hfield.type], by simp⟩
  have hagree : Results.Agree (fun _ => False) (Properties.Corresponds fun _ _ => True)
      (graph.properties describe fields) (other.properties describe others) :=
    properties_agree hgraph.expandAlike hcompare hcompared
  rcases hagree.exists_of_ok hok with ⟨found, hfound, hcorrespond⟩
  refine ⟨found, hfound, hcorrespond.nodes.names_eq, hcorrespond.required, ?_⟩
  intro name field another hfield hanother hdescription
  rcases exists_fieldNode_of_properties hok (mem_of_fieldNamed? hfield).1 with ⟨node, hnode⟩
  have hsame : other.fieldNode describe another = .ok node := by
    have htype := (redescribed_of_fieldNamed? hfields hfield hanother).type
    rw [← hnode, fieldNode_eq_map, fieldNode_eq_map, ← hgraph.node_eq describe _ _, ← htype]
    unfold nodeUnder
    rw [← htype, ← hdescription]
  have hget : properties.nodes.get? name = some node :=
    Entries.get?_eq_some_of_mem (nodup_names_of_properties hok)
      ((mem_nodes_iff hok).2 ⟨field, hfield, hnode⟩)
  have hget' : found.nodes.get? name = some node :=
    Entries.get?_eq_some_of_mem (nodup_names_of_properties hfound)
      ((mem_nodes_iff hfound).2 ⟨another, hanother, hsame⟩)
  rw [hget, hget']

/-- The node of a field tells its description and every note where it belongs, and what a property
says depends on no description of a field but that of the last field of its name. -/
theorem notes_are_kept_apart [Runtime] (graph : TypeGraph) (describe : Bool) :
    (∀ under field node, graph.fieldNode describe field under = .ok node →
        graph.TellsNotes describe field node) ∧
      ∀ other, graph.Matches Field.Redescribed other → ∀ fields others,
        List.Forall₂ Field.Redescribed fields others → ∀ properties,
        graph.properties describe fields = .ok properties →
        ∃ found, other.properties describe others = .ok found ∧
          SameButDescriptions fields others properties found := by
  constructor
  · intro under field node hok
    exact tellsNotes_of_fieldNode hok
  · intro other hgraph fields others hfields properties hok
    exact properties_of_redescribed hgraph hfields hok

/-! ## A choice with a description -/

/-- A field of a type that offers a choice. -/
def choiceField : Field :=
  { name := "one", type := .named "Thing", description := some "any" }

def choiceFields (description : Option String) : List Field :=
  [choiceField, { name := "all", type := .list (.named "Thing"), description }]

section Usual

attribute [local instance] Runtime.usual

theorem node_shelfTypes_thing {under : List Call} (hunder : under.length ≤ 3) :
    (ofTypes shelfTypes).node true "Thing" under =
      .ok (.anyOf (some "Any of: Shelf, Book") [.ref none "Shelf", .ref none "Book"]) := by
  have hindexed : (ofTypes shelfTypes).IsIndexed := isIndexed_ofTypes [] nodup_names_shelfTypes
  have hroom : Runtime.HasRoomFor (3 * 2 + under.length) := Runtime.hasRoomFor_usual (by omega)
  exact node_of_nodeWithin hindexed.isNamed hroom rfl

theorem exists_properties_choiceFields (description : Option String) :
    ∃ properties, (ofTypes shelfTypes).properties true (choiceFields description) =
      .ok properties := by
  cases hproperties : (ofTypes shelfTypes).properties true (choiceFields description) with
  | ok properties => exact ⟨properties, rfl⟩
  | error e =>
      rcases cause_of_properties_eq_error hproperties with ⟨hfull, -⟩ | ⟨field, hfield, herror⟩
      · contradiction
      have hbase : field.type.base = "Thing" := by
        simp only [choiceFields, List.mem_cons, List.not_mem_nil, or_false] at hfield
        rcases hfield with rfl | rfl
        · rfl
        · rfl
      rw [hbase, node_shelfTypes_thing (by decide)] at herror
      contradiction

theorem choiceFields_notes_are_kept_apart :
    (∃ node, (ofTypes shelfTypes).fieldNode true choiceField = .ok node ∧
        (ofTypes shelfTypes).TellsNotes true choiceField node ∧
        node.note = some "any (Any of: Shelf, Book)") ∧
      ∃ properties found,
        (ofTypes shelfTypes).properties true (choiceFields (some "here")) = .ok properties ∧
          (ofTypes shelfTypes).properties true (choiceFields none) = .ok found ∧
          properties.nodes.get? "one" = found.nodes.get? "one" := by
  rcases notes_are_kept_apart (ofTypes shelfTypes) true with ⟨htells, happart⟩
  constructor
  · have hfield : (ofTypes shelfTypes).fieldNode true choiceField =
        .ok (nodeUnder choiceField
          (.anyOf (some "Any of: Shelf, Book") [.ref none "Shelf", .ref none "Book"])) := by
      rw [fieldNode_eq_map]
      exact congrArg (Except.map (nodeUnder choiceField)) (node_shelfTypes_thing (by decide))
    exact ⟨_, hfield, htells _ _ _ hfield, rfl⟩
  · have hgraph : (ofTypes shelfTypes).Matches Field.Redescribed (ofTypes shelfTypes) :=
      .refl (fun _ => ⟨rfl, rfl, rfl⟩) _
    have hfields : List.Forall₂ Field.Redescribed (choiceFields (some "here"))
        (choiceFields none) := .cons ⟨rfl, rfl, rfl⟩ (.cons ⟨rfl, rfl, rfl⟩ .nil)
    rcases exists_properties_choiceFields (some "here") with ⟨properties, hok⟩
    rcases happart _ hgraph _ _ hfields properties hok with ⟨found, hfound, hsame⟩
    exact ⟨properties, found, hok, hfound, hsame.get?_eq "one" _ _ rfl rfl rfl⟩

end Usual

/-- An object with two fields of one name. -/
def twiceNamedObject (second : String) : TypeDef :=
  { name := "Query"
    shape := .object [{ name := "a", type := .named "String", description := some "x" },
      { name := "a", type := .named "String", description := some second }] [] }

def twiceNamed (second : String) : List TypeDef :=
  [twiceNamedObject second, { name := "String", shape := .scalar }]

section Usual

attribute [local instance] Runtime.usual

theorem document_twiceNamed (second : String) :
    ∃ document, (ofTypes (twiceNamed second)).document {} (.str "Query") = .ok document ∧
      document.root.nodes.get? "a" =
        some (.primitive (mergedNote (some second) none) "string") := by
  have hnames : ["Query", "String"].Nodup := by decide
  have hindexed : (ofTypes (twiceNamed second)).IsIndexed := isIndexed_ofTypes [] hnames
  have hnode : (ofTypes (twiceNamed second)).node false "String" whileResolving =
      .ok (.primitive none "string") :=
    node_of_nodeWithin hindexed.isNamed
      (Runtime.hasRoomFor_usual (by decide : 3 * 1 + whileResolving.length ≤ 993)) rfl
  have hfield : ∀ description, (ofTypes (twiceNamed second)).fieldNode false
      { name := "a", type := .named "String", description } whileBuilding =
        .ok (.primitive (mergedNote description none) "string") := by
    intro description
    rw [fieldNode_eq_map]
    exact congrArg (Except.map (nodeUnder _)) hnode
  have hproperties : (ofTypes (twiceNamed second)).properties false
      (twiceNamedObject second).fields = .ok
        { nodes := [("a", .primitive (mergedNote (some second) none) "string")] } := by
    refine inRoom_eq_ok_iff.2 ⟨by decide, ?_⟩
    refine Results.map_eq_ok_iff.2 ⟨[("a", .primitive (mergedNote (some "x") none) "string"),
      ("a", .primitive (mergedNote (some second) none) "string")], ?_, rfl⟩
    refine Results.mapM_eq_ok_iff.2 (.cons ?_ (.cons ?_ .nil))
    · exact congrArg (Except.map (Prod.mk "a")) (hfield (some "x"))
    · exact congrArg (Except.map (Prod.mk "a")) (hfield (some second))
  have hbuilt : (ofTypes (twiceNamed second)).objectProperties false = .ok
      [(twiceNamedObject second,
        { nodes := [("a", .primitive (mergedNote (some second) none) "string")] })] := by
    refine inRoom_eq_ok_iff.2 ⟨by decide, ?_⟩
    exact Results.mapM_eq_ok_iff.2
      (.cons (congrArg (Except.map (Prod.mk (twiceNamedObject second))) hproperties) .nil)
  have hdescribe : ({} : Settings).describeVariants.isTruthy = false := rfl
  rw [document_str _ _ (by decide), hdescribe, hbuilt]
  exact ⟨_, rfl, rfl⟩

/-- The property that one field names says what a later field of that name says. -/
theorem later_field_describes_property :
    ∃ one other : SchemaDocument,
      (twiceNamedObject "y").fields.head? = (twiceNamedObject "z").fields.head? ∧
        (ofTypes (twiceNamed "y")).document {} (.str "Query") = .ok one ∧
        (ofTypes (twiceNamed "z")).document {} (.str "Query") = .ok other ∧
        one.root.nodes.get? "a" = some (.primitive (some "y") "string") ∧
        other.root.nodes.get? "a" = some (.primitive (some "z") "string") := by
  rcases document_twiceNamed "y" with ⟨one, hone, hproperty⟩
  rcases document_twiceNamed "z" with ⟨other, hother, hproperty'⟩
  exact ⟨one, other, rfl, hone, hother, hproperty, hproperty'⟩

end Usual

end TypeGraph

end ConfigSchema
