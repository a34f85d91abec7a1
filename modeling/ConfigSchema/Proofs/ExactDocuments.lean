import ConfigSchema.Proofs.DocumentParts
import ConfigSchema.Proofs.ExpansionLimits
import ConfigSchema.Proofs.JsonRoundTrip

/-!
# Documents that come back from their texts

Whether a document comes back from its text is up to its depth and to the settings that are copied
into it.  What the graph adds has no numbers, and it is nested no deeper than expansions are, which
take each name of the graph once at most.
-/

namespace ConfigSchema

/-! ## Values that come back -/

namespace Json

/-- A value that a reader with this much room takes from its text. -/
structure IsExact [Runtime] (room : Nat) (v : Json) : Prop where
  plain : v.IsPlain
  fits : Fits room v

namespace IsExact

variable {room : Nat}

theorem mono [Runtime] {more : Nat} (hle : room ≤ more) {v : Json} (hexact : v.IsExact room) :
    v.IsExact more :=
  ⟨hexact.plain, hexact.fits.mono hle⟩

theorem bool [Runtime] (b : Bool) : (Json.bool b).IsExact room := ⟨.bool b, .bool b⟩

theorem str [Runtime] {s : String} (hjoined : Text.IsJoined s) : (Json.str s).IsExact room :=
  ⟨.str hjoined, .str s⟩

theorem ascii [Runtime] {s : String} (hlow : Text.IsAscii s) : (Json.str s).IsExact room :=
  str (Text.isJoined_of_ascii hlow)

theorem arr [Runtime] {items : List Json} (hitems : ∀ item ∈ items, item.IsExact room) :
    (Json.arr items).IsExact (room + 1) :=
  ⟨.arr fun item hitem => (hitems item hitem).plain,
    .arr fun item hitem => (hitems item hitem).fits⟩

theorem obj [Runtime] {entries : Entries Json} (hnodup : entries.names.Nodup)
    (hentries : ∀ entry ∈ entries, Text.IsJoined entry.1 ∧ entry.2.IsExact room) :
    (Json.obj entries).IsExact (room + 1) :=
  ⟨.obj hnodup (fun entry hentry => (hentries entry hentry).1)
      fun entry hentry => (hentries entry hentry).2.plain,
    .obj fun entry hentry => (hentries entry hentry).2.fits⟩

theorem texts [Runtime] {values : List String} (hvalues : ∀ text ∈ values, Text.IsJoined text) :
    (Json.texts values).IsExact (room + 1) := by
  apply arr
  intro item hitem
  rcases List.mem_map.1 hitem with ⟨text, htext, rfl⟩
  exact str (hvalues text htext)

end IsExact

end Json

/-! ## Nodes -/

namespace Node

/-- A node that comes back whatever note it gets. -/
structure IsExact [Runtime] (room : Nat) (node : Node) : Prop where
  note : ∀ text ∈ node.note, Text.IsJoined text
  withNote : ∀ note : Option String, (∀ text ∈ note, Text.IsJoined text) →
    (node.withNote note).toJson.IsExact room

variable {room : Nat} {note : Option String}

theorem IsExact.toJson [Runtime] {node : Node} (hexact : node.IsExact room) :
    node.toJson.IsExact room := by
  have hown := hexact.withNote node.note hexact.note
  rwa [withNote_note] at hown

theorem IsExact.mono [Runtime] {more : Nat} (hle : room ≤ more) {node : Node}
    (hexact : node.IsExact room) : node.IsExact more :=
  ⟨hexact.note, fun note hnote => (hexact.withNote note hnote).mono hle⟩

theorem isExact_keys [Runtime] (hnote : ∀ text ∈ note, Text.IsJoined text) {rest : Entries Json}
    (hnames : ("description" :: rest.names).Nodup)
    (hrest : ∀ entry ∈ rest, Text.IsAscii entry.1 ∧ entry.2.IsExact room) :
    (keys note rest).IsExact (room + 1) := by
  have hrest : ∀ entry ∈ rest, Text.IsJoined entry.1 ∧ entry.2.IsExact room :=
    fun entry hentry => (hrest entry hentry).imp_left Text.isJoined_of_ascii
  cases note with
  | none => exact .obj (List.nodup_cons.1 hnames).2 hrest
  | some text =>
      have hnodup : (Entries.names (("description", .str text) :: rest)).Nodup := hnames
      apply Json.IsExact.obj hnodup
      intro entry hentry
      rcases List.mem_cons.1 hentry with rfl | hentry
      · have hkey : Text.IsJoined "description" := Text.isJoined_of_ascii (by decide)
        exact ⟨hkey, .str (hnote text rfl)⟩
      · exact hrest entry hentry

theorem isExact_primitive [Runtime] (hnote : ∀ text ∈ note, Text.IsJoined text) {kind : String}
    (hkind : Text.IsJoined kind) : (Node.primitive note kind).IsExact (room + 1) where
  note := hnote
  withNote other hother := by
    apply isExact_keys hother (by simp)
    simp only [List.mem_singleton, forall_eq]
    exact ⟨by decide, .str hkind⟩

theorem isExact_anyObject [Runtime] (hnote : ∀ text ∈ note, Text.IsJoined text) :
    (Node.anyObject note).IsExact (room + 2) where
  note := hnote
  withNote other hother := by
    apply isExact_keys hother (by simp)
    simp only [List.mem_cons, List.not_mem_nil, or_false, forall_eq_or_imp, forall_eq]
    exact ⟨⟨by decide, .ascii (by decide)⟩, by decide, .obj (by decide) (by simp)⟩

theorem isExact_enum [Runtime] (hnote : ∀ text ∈ note, Text.IsJoined text) {values : List String}
    (hvalues : ∀ text ∈ values, Text.IsJoined text) :
    (Node.enum note values).IsExact (room + 2) where
  note := hnote
  withNote other hother := by
    apply isExact_keys hother (by simp)
    simp only [List.mem_cons, List.not_mem_nil, or_false, forall_eq_or_imp, forall_eq]
    exact ⟨⟨by decide, .ascii (by decide)⟩, by decide, .texts hvalues⟩

theorem isExact_ref [Runtime] (hnote : ∀ text ∈ note, Text.IsJoined text) {type : String}
    (htype : Text.IsJoined type) : (Node.ref note type).IsExact (room + 1) where
  note := hnote
  withNote other hother := by
    apply isExact_keys hother (by simp)
    simp only [List.mem_singleton, forall_eq]
    have htarget := Text.isJoined_after
      (Text.hasSurrogate_of_ascii (by decide) : Text.hasSurrogate "#/definitions/" = false)
      (by decide) htype
    exact ⟨by decide, .str htarget⟩

theorem isExact_anyOf [Runtime] (hnote : ∀ text ∈ note, Text.IsJoined text) {variants : List Node}
    (hvariants : ∀ variant ∈ variants, variant.IsExact room) :
    (Node.anyOf note variants).IsExact (room + 2) where
  note := hnote
  withNote other hother := by
    apply isExact_keys hother (by simp)
    simp only [List.mem_singleton, forall_eq, toJsons_eq_map]
    refine ⟨by decide, .arr ?_⟩
    intro item hitem
    rcases List.mem_map.1 hitem with ⟨variant, hvariant, rfl⟩
    exact (hvariants variant hvariant).toJson

theorem isExact_array [Runtime] (hnote : ∀ text ∈ note, Text.IsJoined text) {items : Node}
    (hitems : items.IsExact room) : (Node.array note items).IsExact (room + 1) where
  note := hnote
  withNote other hother := by
    apply isExact_keys hother (by simp)
    simp only [List.mem_cons, List.not_mem_nil, or_false, forall_eq_or_imp, forall_eq]
    exact ⟨⟨by decide, .ascii (by decide)⟩, by decide, hitems.toJson⟩

theorem isExact_unknownObject [Runtime] : unknownObject.IsExact (room + 2) := by
  apply isExact_anyObject
  intro text htext
  obtain rfl := Option.some.inj htext
  exact Text.isJoined_of_ascii (by decide)

theorem isExact_ofScalar? [Runtime] {name : String} {node : Node}
    (hnode : ofScalar? name = some node) : node.IsExact (room + 2) := by
  have hkinds : ∀ entry ∈ scalarKinds, Text.IsAscii entry.2 := by decide
  rcases Option.map_eq_some_iff.1 hnode with ⟨kind, hkind, rfl⟩
  have hjoined := Text.isJoined_of_ascii (hkinds _ (Entries.mem_of_get? hkind))
  split_ifs
  · exact isExact_anyObject (by simp)
  · exact isExact_primitive (by simp) hjoined

end Node

/-! ## What a graph adds -/

/-- The texts of a type that a document can show. -/
def TypeDef.texts (type : TypeDef) : List String :=
  type.name :: (type.fields.flatMap fun field => field.name :: field.description.toList) ++
    match type.shape with
    | .enum values => values
    | .union members => members
    | _ => []

namespace TypeGraph

/-- The texts of all types are joined, as those of characters only are. -/
def HasJoinedTexts [Runtime] (graph : TypeGraph) : Prop :=
  ∀ type, graph.Holds type → ∀ text ∈ type.texts, Text.IsJoined text

/-- Where no character holds a surrogate, the texts of every graph are joined. -/
theorem hasJoinedTexts_of_beyond [Runtime]
    (hbeyond : 0x110000 ≤ 0xD800 + Runtime.surrogateOffset) (graph : TypeGraph) :
    graph.HasJoinedTexts :=
  fun _ _ text _ => Text.isJoined_of_hasSurrogate (Text.hasSurrogate_of_beyond hbeyond text)

variable {graph : TypeGraph} {describe : Bool} {name : String} {chain : List String}
  {under : List Call}

theorem HasJoinedTexts.type_name [Runtime] (hjoined : graph.HasJoinedTexts) {type : TypeDef}
    (htype : graph.Holds type) : Text.IsJoined type.name :=
  hjoined type htype _ (by simp [TypeDef.texts])

theorem HasJoinedTexts.field [Runtime] (hjoined : graph.HasJoinedTexts) {type : TypeDef}
    (htype : graph.Holds type) {field : Field} (hfield : field ∈ type.fields) :
    Text.IsJoined field.name ∧ ∀ text ∈ field.description, Text.IsJoined text := by
  have htexts := hjoined type htype
  constructor
  · apply htexts
    simp only [TypeDef.texts, List.mem_cons, List.mem_append, List.mem_flatMap]
    exact .inl (.inr ⟨field, hfield, .inl rfl⟩)
  · intro text htext
    apply htexts
    simp only [TypeDef.texts, List.mem_cons, List.mem_append, List.mem_flatMap]
    exact .inl (.inr ⟨field, hfield, .inr (by simpa using htext)⟩)

theorem isJoined_variantNote [Runtime] {label : String} (hlabel : Text.IsAscii label)
    (hne : label ≠ "") {names : List String} (hnames : ∀ name ∈ names, Text.IsJoined name) :
    ∀ text ∈ variantNote describe label names, Text.IsJoined text := by
  intro text htext
  unfold variantNote at htext
  split_ifs at htext
  · obtain rfl := Option.some.inj htext
    exact Text.isJoined_after (Text.hasSurrogate_of_ascii hlabel) hne
      (Text.isJoined_intercalate (Text.hasSurrogate_of_ascii (by decide)) (by decide) hnames)
  · contradiction

theorem isJoined_mergedNote [Runtime] {own note : Option String}
    (hown : ∀ text ∈ own, Text.IsJoined text) (hnote : ∀ text ∈ note, Text.IsJoined text) :
    ∀ text ∈ mergedNote own note, Text.IsJoined text := by
  intro text htext
  cases own with
  | none => exact hnote text (by simpa [mergedNote] using htext)
  | some own =>
      have hownJoined := hown own rfl
      cases note with
      | none =>
          simp only [mergedNote, Option.mem_def, Option.ite_none_left_eq_some,
            Option.some.injEq] at htext
          rw [← htext.2]
          exact hownJoined
      | some note =>
          have hnoteJoined := hnote note rfl
          simp only [mergedNote] at htext
          split_ifs at htext
          · rwa [← Option.some.inj htext]
          · rwa [← Option.some.inj htext]
          · have hopening : Text.hasSurrogate " (" = false := Text.hasSurrogate_of_ascii (by decide)
            have hclosing : Text.hasSurrogate ")" = false := Text.hasSurrogate_of_ascii (by decide)
            have hopen := Text.isJoined_around hownJoined hopening (by decide) hnoteJoined
            have hclose := Text.isJoined_around hopen hclosing (by decide)
              (Text.isJoined_of_hasSurrogate rfl : Text.IsJoined "")
            rw [← Option.some.inj htext]
            simpa using hclose

/-! ## Expansions -/

theorem isExact_leafNode [Runtime] (hjoined : graph.HasJoinedTexts) {type : TypeDef}
    (htype : graph.Holds type) {room : Nat} : (leafNode describe type).IsExact (room + 2) := by
  unfold leafNode
  split
  · cases hscalar : Node.ofScalar? type.name with
    | none => exact Node.isExact_unknownObject
    | some node => exact Node.isExact_ofScalar? hscalar
  · next values hshape =>
      have hvalues : ∀ text ∈ values, Text.IsJoined text := by
        intro text htext
        apply hjoined type htype
        simp [TypeDef.texts, hshape, htext]
      exact Node.isExact_enum (isJoined_variantNote (by decide) (by decide) hvalues) hvalues
  · exact (Node.isExact_ref (by simp) (hjoined.type_name htype)).mono (Nat.le_succ _)
  · exact Node.isExact_unknownObject

theorem HasJoinedTexts.implementors [Runtime] (hjoined : graph.HasJoinedTexts)
    (interface : String) :
    ∀ variant ∈ graph.implementors interface, Text.IsJoined variant := by
  intro variant hvariant
  rcases List.mem_map.1 hvariant with ⟨type, htype, rfl⟩
  exact hjoined.type_name (.inl (mem_objects_iff.1 (List.mem_filter.1 htype).1).1)

theorem HasJoinedTexts.members [Runtime] (hjoined : graph.HasJoinedTexts) {union : String}
    {variants : List String} (hok : graph.members union = .ok variants) :
    ∀ variant ∈ variants, Text.IsJoined variant := by
  intro variant hvariant
  unfold TypeGraph.members at hok
  split at hok
  · next own description directives listed hget =>
      obtain rfl := Except.ok.inj hok
      exact hjoined _ (.inr ⟨union, hget⟩) variant (by simp [TypeDef.texts, hvariant])
  · obtain rfl := Except.ok.inj hok
    simp at hvariant
  · contradiction

/-- What a node is made of: a type without variants, or variants that are nodes themselves. -/
theorem nodeBelow_cases [Runtime] (hjoined : graph.HasJoinedTexts) {node : Node}
    (hok : graph.nodeBelow describe under chain name = .ok node) :
    Chain.room graph.index.names (name :: chain) < Chain.room graph.index.names chain ∧
    ∃ type, graph.Holds type ∧ (node = leafNode describe type ∨
      ∃ variants nodes, (∀ variant ∈ variants, Text.IsJoined variant) ∧
        variants.mapM (graph.nodeBelow describe (intoVariants name under) (name :: chain)) =
            .ok nodes ∧
          node = .anyOf (variantNote describe "Any of: " variants) nodes) := by
  rcases bounds_of_nodeBelow hok with ⟨hnew, hroom⟩
  rw [nodeBelow, dif_neg hnew, inRoom_of_hasRoom hroom] at hok
  split at hok
  · contradiction
  · next type hget =>
      have htype : graph.Holds type := .inr ⟨name, hget⟩
      refine ⟨Chain.room_cons_lt (Entries.mem_names_of_get? hget) hnew, type, htype, ?_⟩
      unfold leafNode
      split at hok
      · next hshape => exact .inl (by rw [hshape, ← Except.ok.inj hok])
      · next values hshape => exact .inl (by rw [hshape, ← Except.ok.inj hok])
      · next fields interfaces hshape => exact .inl (by rw [hshape, ← Except.ok.inj hok])
      · rcases Results.map_eq_ok_iff.1 hok with ⟨nodes, hnodes, hnode⟩
        rw [nodesBelow_eq_mapM] at hnodes
        exact .inr ⟨_, nodes, hjoined.implementors type.name, hnodes, hnode.symm⟩
      · split at hok
        · contradiction
        · next variants hvariants =>
            rcases Results.map_eq_ok_iff.1 hok with ⟨nodes, hnodes, hnode⟩
            rw [nodesBelow_eq_mapM] at hnodes
            exact .inr ⟨variants, nodes, hjoined.members hvariants, hnodes, hnode.symm⟩
      · next hshape => exact .inl (by rw [hshape, ← Except.ok.inj hok])

/-- Every level of an expansion takes an object and an array. -/
theorem isExact_nodeBelow [Runtime] (hjoined : graph.HasJoinedTexts) {levels : Nat}
    (hlevels : Chain.room graph.index.names chain ≤ levels) {node : Node}
    (hok : graph.nodeBelow describe under chain name = .ok node) : node.IsExact (2 * levels) := by
  induction levels generalizing under chain name node with
  | zero =>
      have hless := (nodeBelow_cases hjoined hok).1
      omega
  | succ levels ih =>
      rcases nodeBelow_cases hjoined hok with
        ⟨hless, type, htype, hleaf | ⟨variants, nodes, hvariants, hnodes, hnode⟩⟩
      · rw [hleaf]
        exact isExact_leafNode hjoined htype
      · rw [hnode]
        apply Node.isExact_anyOf (isJoined_variantNote (by decide) (by decide) hvariants)
        intro sub hsub
        rcases Results.exists_left_of_forall₂ (Results.mapM_eq_ok_iff.1 hnodes) hsub with
          ⟨variant, -, hvariant⟩
        -- the variants stand one name further down the chain, so a level less is left for them
        exact ih (by omega) hvariant

/-- How deep expansions can be nested: each takes a name of the graph. -/
def nesting (graph : TypeGraph) : Nat := graph.index.names.length

theorem isExact_fieldNode [Runtime] (hjoined : graph.HasJoinedTexts) {type : TypeDef}
    (htype : graph.Holds type) {field : Field} (hfield : field ∈ type.fields) {node : Node}
    (hok : graph.fieldNode describe field = .ok node) :
    node.IsExact (2 * graph.nesting + 1) := by
  rcases fieldNode_eq_ok_iff.1 hok with ⟨base, hbase, rfl⟩
  have hexact : base.IsExact (2 * graph.nesting) :=
    isExact_nodeBelow hjoined List.countP_le_length hbase
  have hnote := isJoined_mergedNote (hjoined.field htype hfield).2 hexact.note
  split_ifs
  · exact Node.isExact_array hnote hexact
  · exact Node.IsExact.mono (Nat.le_succ _) ⟨by simpa using hnote, by simpa using hexact.withNote⟩

end TypeGraph

/-! ## Objects -/

/-- Properties whose nodes come back, with different names. -/
structure Properties.IsExact [Runtime] (room : Nat) (properties : Properties) : Prop where
  nodup : properties.nodes.names.Nodup
  nodes : ∀ entry ∈ properties.nodes, Text.IsJoined entry.1 ∧ entry.2.toJson.IsExact room
  required : ∀ name ∈ properties.required, Text.IsJoined name

theorem Properties.IsExact.mono [Runtime] {room more : Nat} (hle : room ≤ more)
    {properties : Properties} (hexact : properties.IsExact room) : properties.IsExact more where
  nodup := hexact.nodup
  nodes entry hentry :=
    ⟨(hexact.nodes entry hentry).1, (hexact.nodes entry hentry).2.mono hle⟩
  required := hexact.required

/-- The names of a schema for objects, whether or not some properties are required. -/
theorem Properties.names_toJson_sublist (properties : Properties) (front : Entries Json)
    (isOpen : Bool) :
    (Entries.names (properties.toJson front isOpen)).Sublist
      (front.names ++ ["type", "properties", "required", "additionalProperties"]) := by
  have hrest : (Entries.names (if properties.required.isEmpty then [] else
      [("required", Json.texts properties.required)])).Sublist ["required"] := by
    split_ifs <;> simp [Entries.names]
  have hnames : Entries.names (properties.toJson front isOpen) = front.names ++
      (["type", "properties"] ++ (Entries.names (if properties.required.isEmpty then [] else
        [("required", Json.texts properties.required)]) ++ ["additionalProperties"])) := by
    simp [Properties.toJson, Entries.names]
  rw [hnames]
  exact (List.Sublist.refl _).append ((List.Sublist.refl _).append
    (hrest.append (List.Sublist.refl ["additionalProperties"])))

theorem Properties.nodup_names {properties : Properties} {front back : Entries Json} {isOpen : Bool}
    (hnames : (front.names ++ ["type", "properties", "required", "additionalProperties"] ++
      back.names).Nodup) :
    (Entries.names (properties.toJson front isOpen ++ back)).Nodup := by
  rw [Entries.names, List.map_append]
  exact hnames.sublist
    ((properties.names_toJson_sublist front isOpen).append (List.Sublist.refl _))

/-- What stands between the keys in front and those behind comes back. -/
theorem Properties.IsExact.entry_cases [Runtime] {room : Nat} {properties : Properties}
    (hexact : properties.IsExact room) {front back : Entries Json} {isOpen : Bool}
    {entry : String × Json} (hentry : entry ∈ properties.toJson front isOpen ++ back) :
    entry ∈ front ∨ entry ∈ back ∨ Text.IsJoined entry.1 ∧ entry.2.IsExact (room + 1) := by
  have hnodes : (Json.obj (properties.nodes.map (Prod.map id Node.toJson))).IsExact
      (room + 1) := by
    have hnames : Entries.names (properties.nodes.map (Prod.map id Node.toJson)) =
        Entries.names properties.nodes := Entries.names_map Node.toJson properties.nodes
    apply Json.IsExact.obj
    · rw [hnames]
      exact hexact.nodup
    · intro other hother
      rcases List.mem_map.1 hother with ⟨pair, hpair, rfl⟩
      exact hexact.nodes pair hpair
  simp only [Properties.toJson, List.mem_append, List.mem_cons, List.not_mem_nil, or_false]
    at hentry
  have hkeys : ∀ key ∈ ["type", "properties", "required", "additionalProperties"],
      Text.IsAscii key := by decide
  simp only [List.mem_cons, List.not_mem_nil, or_false, forall_eq_or_imp, forall_eq] at hkeys
  obtain ⟨htype, hproperties, hrequired, hopen⟩ := hkeys
  rcases hentry with (((hentry | rfl | rfl) | hentry) | rfl) | hentry
  · exact .inl hentry
  · exact .inr (.inr ⟨Text.isJoined_of_ascii htype, .ascii (by decide)⟩)
  · exact .inr (.inr ⟨Text.isJoined_of_ascii hproperties, hnodes⟩)
  · split_ifs at hentry
    · simp at hentry
    · obtain rfl := List.mem_singleton.1 hentry
      exact .inr (.inr ⟨Text.isJoined_of_ascii hrequired, .texts hexact.required⟩)
  · exact .inr (.inr ⟨Text.isJoined_of_ascii hopen, .bool isOpen⟩)
  · exact .inr (.inl hentry)

theorem Definition.isExact [Runtime] {room : Nat} {definition : Definition}
    (htitle : Text.IsJoined definition.title) (hexact : definition.properties.IsExact room) :
    definition.toJson.IsExact (room + 2) := by
  have hnodup : (Entries.names (definition.properties.toJson
      [("title", .str definition.title)] definition.isOpen ++ [])).Nodup :=
    Properties.nodup_names (by simp)
  rw [List.append_nil] at hnodup
  apply Json.IsExact.obj hnodup
  intro entry hentry
  rcases hexact.entry_cases (List.mem_append_left [] hentry) with hfront | hback | hkey
  · obtain rfl := List.mem_singleton.1 hfront
    have hkey : Text.IsJoined "title" := Text.isJoined_of_ascii (by decide)
    exact ⟨hkey, .str htitle⟩
  · simp at hback
  · exact hkey

/-! ## Documents -/

namespace SchemaDocument

/-- The keys of a document and what stands under them. -/
def entries (document : SchemaDocument) : Entries Json :=
  document.root.toJson [("$schema", document.schemaUri), ("title", document.title)] false ++
    [("definitions", .obj (document.definitions.map fun (name, definition) =>
      (name, definition.toJson)))]

/-- All of a document comes back but for what the settings add. -/
structure HasExactParts [Runtime] (room : Nat) (document : SchemaDocument) : Prop where
  root : document.root.IsExact room
  nodup_definitions : document.definitions.names.Nodup
  definitions : ∀ entry ∈ document.definitions, Text.IsJoined entry.1 ∧
    Text.IsJoined entry.2.title ∧ entry.2.properties.IsExact room

theorem HasExactParts.isExact_definitions [Runtime] {room : Nat} {document : SchemaDocument}
    (hparts : document.HasExactParts room) :
    (Json.obj (document.definitions.map fun (name, definition) =>
      (name, definition.toJson))).IsExact (room + 3) := by
  apply Json.IsExact.obj
  · rw [Entries.names_map]
    exact hparts.nodup_definitions
  · intro entry hentry
    rcases List.mem_map.1 hentry with ⟨pair, hpair, rfl⟩
    rcases hparts.definitions pair hpair with ⟨hname, htitle, hproperties⟩
    exact ⟨hname, Definition.isExact htitle hproperties⟩

variable {room : Nat} {document : SchemaDocument}

/-- The keys of a document: what the settings add, and what comes back in any case. -/
theorem HasExactParts.entry_cases [Runtime] (hparts : document.HasExactParts room)
    {entry : String × Json} (hentry : entry ∈ document.entries) :
    entry = ("$schema", document.schemaUri) ∨ entry = ("title", document.title) ∨
      Text.IsJoined entry.1 ∧ entry.2.IsExact (room + 3) := by
  rcases hparts.root.entry_cases hentry with hfront | hback | ⟨hname, hvalue⟩
  · simp only [List.mem_cons, List.not_mem_nil, or_false] at hfront
    rcases hfront with heq | heq
    · exact .inl heq
    · exact .inr (.inl heq)
  · obtain rfl := List.mem_singleton.1 hback
    have hkey : Text.IsJoined "definitions" := Text.isJoined_of_ascii (by decide)
    exact .inr (.inr ⟨hkey, hparts.isExact_definitions⟩)
  · exact .inr (.inr ⟨hname, hvalue.mono (by omega)⟩)

theorem HasExactParts.isPlain [Runtime] (hparts : document.HasExactParts room)
    (htitle : document.title.IsPlain) (huri : document.schemaUri.IsPlain) :
    document.toJson.IsPlain := by
  have hnodup : document.entries.names.Nodup := Properties.nodup_names (by simp)
  apply Json.IsPlain.obj hnodup
  · intro entry hentry
    rcases hparts.entry_cases hentry with rfl | rfl | hkey
    · exact (Text.isJoined_of_ascii (by decide) : Text.IsJoined "$schema")
    · exact (Text.isJoined_of_ascii (by decide) : Text.IsJoined "title")
    · exact hkey.1
  · intro entry hentry
    rcases hparts.entry_cases hentry with rfl | rfl | hkey
    · exact huri
    · exact htitle
    · exact hkey.2.plain

/-- A document fits if what the settings add does. -/
theorem HasExactParts.fits_iff [Runtime] (hparts : document.HasExactParts room) {more : Nat}
    (hroom : room + 3 ≤ more) :
    Json.Fits (more + 1) document.toJson ↔
      Json.Fits more document.title ∧ Json.Fits more document.schemaUri := by
  constructor
  · intro hfits
    cases hfits with
    | obj hvalues =>
        exact ⟨hvalues ("title", document.title) (by simp [Properties.toJson]),
          hvalues ("$schema", document.schemaUri) (by simp [Properties.toJson])⟩
  · rintro ⟨htitle, huri⟩
    apply Json.Fits.obj
    intro entry hentry
    rcases hparts.entry_cases hentry with rfl | rfl | hkey
    · exact huri
    · exact htitle
    · exact hkey.2.fits.mono hroom

end SchemaDocument

namespace TypeGraph

variable {graph : TypeGraph} {describe : Bool}

theorem isExact_properties [Runtime] (hjoined : graph.HasJoinedTexts) {type : TypeDef}
    (htype : graph.Holds type) {properties : Properties}
    (hok : graph.properties describe type.fields = .ok properties) :
    properties.IsExact (2 * graph.nesting + 1) where
  nodup := nodup_names_of_properties hok
  nodes := by
    rintro ⟨name, node⟩ hentry
    rcases (mem_nodes_iff hok).1 hentry with ⟨field, hnamed, hnode⟩
    rcases mem_of_fieldNamed? hnamed with ⟨hfield, rfl⟩
    exact ⟨(hjoined.field htype hfield).1, (isExact_fieldNode hjoined htype hfield hnode).toJson⟩
  required := by
    intro name hname
    rw [required_of_properties hok] at hname
    rcases List.mem_map.1 hname with ⟨field, hfield, rfl⟩
    exact (hjoined.field htype (List.mem_filter.1 hfield).1).1

theorem hasExactParts_of_document [Runtime] (hjoined : graph.HasJoinedTexts) {settings : Settings}
    {asked : Json} {document : SchemaDocument}
    (hok : graph.document settings asked = .ok document) :
    document.HasExactParts (2 * graph.nesting + 1) ∧ document.title = settings.title ∧
      document.schemaUri = settings.schemaUri := by
  unfold TypeGraph.document at hok
  split at hok
  · contradiction
  · next built hbuilt =>
      simp only at hok
      split_ifs at hok
      obtain rfl := Except.ok.inj hok
      have hexact : ∀ pair ∈ built, Text.IsJoined pair.1.name ∧
          pair.2.IsExact (2 * graph.nesting + 1) := by
        rintro ⟨type, properties⟩ hpair
        rcases (mem_built_iff hbuilt).1 hpair with ⟨hobject, hproperties⟩
        have htype : graph.Holds type := .inl (mem_objects_iff.1 hobject).1
        exact ⟨hjoined.type_name htype, isExact_properties hjoined htype hproperties⟩
      refine ⟨⟨?_, Entries.nodup_names_ofList _, ?_⟩, rfl, rfl⟩
      · cases hlast : (built.filter fun pair =>
            (rootFor asked settings).isName pair.1.name).getLast? with
        | none => exact ⟨List.nodup_nil, by simp, by simp⟩
        | some pair =>
            exact (hexact pair (List.mem_filter.1 (List.mem_of_getLast? hlast)).1).2
      · intro entry hentry
        obtain ⟨⟨type, properties⟩, hpair, rfl⟩ :=
          List.mem_map.1 (Entries.mem_of_mem_ofList hentry)
        rcases hexact _ (List.mem_filter.1 hpair).1 with ⟨hname, hproperties⟩
        exact ⟨hname, hname, hproperties⟩

end TypeGraph

end ConfigSchema
