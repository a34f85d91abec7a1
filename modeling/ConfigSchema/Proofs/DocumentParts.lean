import ConfigSchema.Proofs.ObjectProperties
import Mathlib.Data.Fintype.EquivFin

/-!
# The parts of a schema document

Where the properties of the object types stand in the document of a root: those of the root at the
top, those of every other object type in the definition of its name.
-/

namespace ConfigSchema

namespace TypeGraph

variable {graph : TypeGraph}

/-- A document has the properties of the root at the top and a definition for each other object
type, in order. -/
structure HasParts [Runtime] (graph : TypeGraph) (describe : Bool) (root : String)
    (document : SchemaDocument) : Prop where
  names_definitions :
    document.definitions.names = (graph.objects.map (·.name)).filter (· ≠ root)
  nodup_definitions : document.definitions.names.Nodup
  root_eq : ∀ type ∈ graph.objects, type.name = root →
    graph.properties describe type.fields = .ok document.root
  root_missing : (∀ type ∈ graph.objects, type.name ≠ root) → document.root = {}
  definition_eq : ∀ type ∈ graph.objects, type.name ≠ root →
    ∃ properties, graph.properties describe type.fields = .ok properties ∧
      document.definitions.get? type.name = some (definitionOf type properties)

/-! ## The properties that are set apart for the root -/

def rootPart (root : String) (built : List (TypeDef × Properties)) :
    List (TypeDef × Properties) :=
  built.filter fun (type, _) => (Json.str root).isName type.name

def otherParts (root : String) (built : List (TypeDef × Properties)) :
    List (TypeDef × Properties) :=
  built.filter fun (type, _) => !(Json.str root).isName type.name

def definitionEntries (parts : List (TypeDef × Properties)) : Entries Definition :=
  parts.map fun (type, properties) => (type.name, definitionOf type properties)

theorem isName_str_iff {root name : String} : (Json.str root).isName name = true ↔ name = root := by
  simp [Json.isName, eq_comm]

theorem mem_rootPart_iff {root : String} {built : List (TypeDef × Properties)}
    {pair : TypeDef × Properties} :
    pair ∈ rootPart root built ↔ pair ∈ built ∧ pair.1.name = root := by
  rw [rootPart, List.mem_filter, isName_str_iff]

theorem mem_otherParts_iff {root : String} {built : List (TypeDef × Properties)}
    {pair : TypeDef × Properties} :
    pair ∈ otherParts root built ↔ pair ∈ built ∧ pair.1.name ≠ root := by
  rw [otherParts, List.mem_filter, Bool.not_eq_true', ← Bool.not_eq_true, isName_str_iff]

theorem names_definitionEntries (root : String) (built : List (TypeDef × Properties)) :
    (definitionEntries (otherParts root built)).names =
      ((built.map (·.1)).map (·.name)).filter (· ≠ root) := by
  rw [definitionEntries, Entries.names, otherParts, List.filter_map, List.filter_map,
    List.map_map, List.map_map]
  have hsame : (fun pair : TypeDef × Properties => !(Json.str root).isName pair.1.name) =
      ((fun name => decide (name ≠ root)) ∘ fun type : TypeDef => type.name) ∘
        fun pair : TypeDef × Properties => pair.1 := by
    funext pair
    simp [Json.isName, eq_comm]
  rw [← hsame]
  rfl

/-- A root picks the object type of a name, and none where no object type has the name. -/
def PicksRoot (graph : TypeGraph) (root : Json) (name : String) : Prop :=
  ∀ type ∈ graph.objects, root.isName type.name = true ↔ type.name = name

theorem picksRoot_str (graph : TypeGraph) (root : String) : graph.PicksRoot (.str root) root :=
  fun _ _ => isName_str_iff

/-- A root that is no text picks nothing, and neither does a name that no type has. -/
theorem exists_picksRoot (graph : TypeGraph) (root : Json) : ∃ name, graph.PicksRoot root name := by
  by_cases htext : ∃ name, root = .str name
  · obtain ⟨name, rfl⟩ := htext
    exact ⟨name, graph.picksRoot_str name⟩
  · obtain ⟨name, hname⟩ :=
      Infinite.exists_notMem_finset (graph.objects.map (·.name)).toFinset
    rw [List.mem_toFinset] at hname
    refine ⟨name, fun type htype => ?_⟩
    have hnone : root.isName type.name = false := by
      unfold Json.isName
      split
      · next text => exact absurd ⟨text, rfl⟩ htext
      · rfl
    have hne : type.name ≠ name := by
      rintro rfl
      exact hname (List.mem_map_of_mem htype)
    simp [hnone, hne]

theorem document_eq_of_picksRoot [Runtime] {settings : Settings} {asked : Json} {root : String}
    (hpicks : graph.PicksRoot (rootFor asked settings) root) :
    graph.document settings asked =
      match graph.objectProperties settings.describeVariants.isTruthy with
      | .error e => .error (.graph e)
      | .ok built =>
          if (rootPart root built).isEmpty && !settings.allowMissingRoot.isTruthy then
            .error (.rootNotFound (rootFor asked settings))
          else
            .ok {
              schemaUri := settings.schemaUri
              title := settings.title
              root := (((rootPart root built).getLast?).map (·.2)).getD {}
              definitions := Entries.ofList (definitionEntries (otherParts root built)) } := by
  unfold document
  cases hbuilt : graph.objectProperties settings.describeVariants.isTruthy with
  | error e => rfl
  | ok built =>
      have hpick : ∀ pair ∈ built,
          (rootFor asked settings).isName pair.1.name = (Json.str root).isName pair.1.name := by
        intro pair hpair
        have hobject : pair.1 ∈ graph.objects := by
          rw [← map_fst_built hbuilt]
          exact List.mem_map_of_mem hpair
        rw [Bool.eq_iff_iff, hpicks pair.1 hobject, isName_str_iff]
      have hroots : (built.filter fun pair => (rootFor asked settings).isName pair.1.name) =
          rootPart root built :=
        List.filter_congr hpick
      have hothers : (built.filter fun pair => !(rootFor asked settings).isName pair.1.name) =
          otherParts root built :=
        List.filter_congr fun pair hpair => by rw [hpick pair hpair]
      dsimp only
      rw [hroots, hothers]
      rfl

theorem document_str [Runtime] (graph : TypeGraph) (settings : Settings) {root : String}
    (hroot : root ≠ "") :
    graph.document settings (.str root) =
      match graph.objectProperties settings.describeVariants.isTruthy with
      | .error e => .error (.graph e)
      | .ok built =>
          if (rootPart root built).isEmpty && !settings.allowMissingRoot.isTruthy then
            .error (.rootNotFound (.str root))
          else
            .ok {
              schemaUri := settings.schemaUri
              title := settings.title
              root := (((rootPart root built).getLast?).map (·.2)).getD {}
              definitions := Entries.ofList (definitionEntries (otherParts root built)) } := by
  have hasked : rootFor (.str root) settings = .str root := by
    simp [rootFor, Json.isTruthy, hroot]
  have hpicks : graph.PicksRoot (rootFor (.str root) settings) root := by
    rw [hasked]
    exact graph.picksRoot_str root
  rw [document_eq_of_picksRoot hpicks, hasked]

theorem document_eq_graph_error_iff [Runtime] {settings : Settings} {asked : Json}
    {e : GraphError} :
    graph.document settings asked = .error (.graph e) ↔
      graph.objectProperties settings.describeVariants.isTruthy = .error e := by
  unfold document
  cases graph.objectProperties settings.describeVariants.isTruthy with
  | error e' => simp
  | ok built =>
      simp only
      split <;> simp

theorem isEmpty_rootPart_iff [Runtime] {describe : Bool} {root : String}
    {built : List (TypeDef × Properties)} (hbuilt : graph.objectProperties describe = .ok built) :
    (rootPart root built).isEmpty = true ↔ ∀ type ∈ graph.objects, type.name ≠ root := by
  rw [List.isEmpty_iff, List.eq_nil_iff_forall_not_mem, ← map_fst_built hbuilt]
  constructor
  · intro hnone type htype hname
    obtain ⟨pair, hpair, rfl⟩ := List.mem_map.1 htype
    exact hnone pair (mem_rootPart_iff.2 ⟨hpair, hname⟩)
  · intro hall pair hpair
    obtain ⟨hmem, hname⟩ := mem_rootPart_iff.1 hpair
    exact hall pair.1 (List.mem_map_of_mem hmem) hname

theorem getLast?_rootPart [Runtime] {describe : Bool} {root : String} (hindexed : graph.IsIndexed)
    {built : List (TypeDef × Properties)} (hbuilt : graph.objectProperties describe = .ok built)
    {type : TypeDef} {properties : Properties} (hmem : (type, properties) ∈ built)
    (hname : type.name = root) :
    (rootPart root built).getLast? = some (type, properties) := by
  have hin : (type, properties) ∈ rootPart root built := mem_rootPart_iff.2 ⟨hmem, hname⟩
  obtain ⟨⟨last, found⟩, hlast⟩ : ∃ pair, (rootPart root built).getLast? = some pair := by
    rw [← Option.isSome_iff_exists, List.getLast?_isSome]
    exact List.ne_nil_of_mem hin
  obtain ⟨hfound, hfoundName⟩ := mem_rootPart_iff.1 (List.mem_of_getLast? hlast)
  obtain ⟨htype, hproperties⟩ := (mem_built_iff hbuilt).1 hmem
  obtain ⟨hlastType, hfoundProperties⟩ := (mem_built_iff hbuilt).1 hfound
  have hsame : last = type :=
    hindexed.eq_of_name_eq (mem_objects_iff.1 hlastType).1 (mem_objects_iff.1 htype).1
      (hfoundName.trans hname.symm)
  subst last
  rw [hproperties, Except.ok.injEq] at hfoundProperties
  rw [hlast, hfoundProperties]

/-! ## The document of a root -/

/-- In any graph the properties that a document shows are those of object types: at the top of one
with the name of the root, if there is one, and in a definition of one with its name. -/
theorem origin_of_document [Runtime] {settings : Settings} {asked : Json}
    {document : SchemaDocument} (hok : graph.document settings asked = .ok document) :
    (document.root = {} ∨ ∃ type ∈ graph.objects,
        (rootFor asked settings).isName type.name = true ∧
          graph.properties settings.describeVariants.isTruthy type.fields = .ok document.root) ∧
      ∀ key definition, (key, definition) ∈ document.definitions →
        ∃ type ∈ graph.objects, type.name = key ∧
          graph.properties settings.describeVariants.isTruthy type.fields =
            .ok definition.properties := by
  unfold TypeGraph.document at hok
  dsimp only at hok
  split at hok
  · contradiction
  · next built hbuilt =>
      split at hok
      · contradiction
      rw [Except.ok.injEq] at hok
      subst document
      constructor
      · dsimp only
        cases hlast : (built.filter fun pair =>
            (rootFor asked settings).isName pair.1.name).getLast? with
        | none => exact .inl rfl
        | some pair =>
            have hfiltered := List.mem_filter.1 (List.mem_of_getLast? hlast)
            have hpair := (mem_built_iff hbuilt).1 hfiltered.1
            exact .inr ⟨pair.1, hpair.1, hfiltered.2, hpair.2⟩
      · intro key definition hmem
        have hentry := Entries.mem_of_mem_ofList hmem
        rcases List.mem_map.1 hentry with ⟨pair, hfiltered, heq⟩
        rcases Prod.mk.inj heq with ⟨rfl, rfl⟩
        have hpair := (mem_built_iff hbuilt).1 (List.mem_of_mem_filter hfiltered)
        exact ⟨pair.1, hpair.1, rfl, hpair.2⟩

theorem settings_of_document [Runtime] {settings : Settings} {asked : Json}
    {document : SchemaDocument} (hok : graph.document settings asked = .ok document) :
    document.schemaUri = settings.schemaUri ∧ document.title = settings.title := by
  obtain ⟨root, hpicks⟩ := graph.exists_picksRoot (rootFor asked settings)
  rw [document_eq_of_picksRoot hpicks] at hok
  split at hok
  · contradiction
  · split at hok
    · contradiction
    · rw [Except.ok.injEq] at hok
      rw [← hok]
      exact ⟨rfl, rfl⟩

theorem hasParts_of_picksRoot [Runtime] (hindexed : graph.IsIndexed)
    (hnames : (graph.types.map (·.name)).Nodup) {settings : Settings} {asked : Json}
    {root : String} (hpicks : graph.PicksRoot (rootFor asked settings) root)
    {document : SchemaDocument} (hok : graph.document settings asked = .ok document) :
    graph.HasParts settings.describeVariants.isTruthy root document := by
  rw [document_eq_of_picksRoot hpicks] at hok
  cases hbuilt : graph.objectProperties settings.describeVariants.isTruthy with
  | error e =>
      rw [hbuilt] at hok
      contradiction
  | ok built =>
      simp only [hbuilt] at hok
      split at hok
      · contradiction
      rw [Except.ok.injEq] at hok
      subst document
      have hentries : (definitionEntries (otherParts root built)).names =
          (graph.objects.map (·.name)).filter (· ≠ root) := by
        rw [names_definitionEntries, map_fst_built hbuilt]
      have hnodup : (definitionEntries (otherParts root built)).names.Nodup := by
        rw [hentries]
        exact (hnames.sublist (List.filter_sublist.map _)).filter _
      have hexists : ∀ type ∈ graph.objects, ∃ properties, (type, properties) ∈ built := by
        intro type htype
        rw [← map_fst_built hbuilt] at htype
        obtain ⟨⟨other, properties⟩, hmem, rfl⟩ := List.mem_map.1 htype
        exact ⟨properties, hmem⟩
      refine ⟨?_, ?_, ?_, ?_, ?_⟩
      · rw [Entries.ofList_eq_self hnodup, hentries]
      · exact Entries.nodup_names_ofList _
      · intro type htype hname
        obtain ⟨properties, hmem⟩ := hexists type htype
        rw [getLast?_rootPart hindexed hbuilt hmem hname]
        exact ((mem_built_iff hbuilt).1 hmem).2
      · intro hmissing
        have hempty := List.isEmpty_iff.1 ((isEmpty_rootPart_iff hbuilt).2 hmissing)
        rw [hempty]
        rfl
      · intro type htype hname
        obtain ⟨properties, hmem⟩ := hexists type htype
        refine ⟨properties, ((mem_built_iff hbuilt).1 hmem).2, ?_⟩
        rw [Entries.ofList_eq_self hnodup]
        refine Entries.get?_eq_some_of_mem hnodup ?_
        exact List.mem_map.2 ⟨(type, properties), mem_otherParts_iff.2 ⟨hmem, hname⟩, rfl⟩

theorem hasParts_of_document [Runtime] (hindexed : graph.IsIndexed)
    (hnames : (graph.types.map (·.name)).Nodup) {settings : Settings} {root : String}
    (hroot : root ≠ "") {document : SchemaDocument}
    (hok : graph.document settings (.str root) = .ok document) :
    graph.HasParts settings.describeVariants.isTruthy root document := by
  have hpicks : graph.PicksRoot (rootFor (.str root) settings) root := by
    simpa [rootFor, Json.isTruthy, hroot] using graph.picksRoot_str root
  exact hasParts_of_picksRoot hindexed hnames hpicks hok

theorem HasParts.exists_fieldNode [Runtime] {describe : Bool} {root : String}
    {document : SchemaDocument} (hparts : graph.HasParts describe root document) {type : TypeDef}
    (htype : type ∈ graph.objects) {field : Field} (hfield : field ∈ type.fields) :
    ∃ node, graph.fieldNode describe field = .ok node := by
  by_cases hroot : type.name = root
  · exact exists_fieldNode_of_properties (hparts.root_eq type htype hroot) hfield
  · obtain ⟨properties, hproperties, -⟩ := hparts.definition_eq type htype hroot
    exact exists_fieldNode_of_properties hproperties hfield

/-- A document shows the properties of an object type at the top if it is the root, and else in
its definition. -/
def ShowsProperties (document : SchemaDocument) (root : Json) (type : TypeDef)
    (properties : Properties) : Prop :=
  if root.isName type.name then document.root = properties
  else document.definitions.get? type.name = some (definitionOf type properties)

theorem exists_properties_of_document [Runtime] (hindexed : graph.IsIndexed)
    (hnames : (graph.types.map (·.name)).Nodup) {settings : Settings} {asked : Json}
    {document : SchemaDocument} (hok : graph.document settings asked = .ok document)
    {type : TypeDef} (htype : type ∈ graph.objects) :
    ∃ properties,
      graph.properties settings.describeVariants.isTruthy type.fields = .ok properties ∧
        ShowsProperties document (rootFor asked settings) type properties := by
  obtain ⟨root, hpicks⟩ := graph.exists_picksRoot (rootFor asked settings)
  have hparts := hasParts_of_picksRoot hindexed hnames hpicks hok
  unfold ShowsProperties
  by_cases hroot : type.name = root
  · refine ⟨document.root, hparts.root_eq type htype hroot, ?_⟩
    rw [if_pos ((hpicks type htype).2 hroot)]
  · obtain ⟨properties, hproperties, hget⟩ := hparts.definition_eq type htype hroot
    refine ⟨properties, hproperties, ?_⟩
    rw [if_neg fun hpicked => hroot ((hpicks type htype).1 hpicked)]
    exact hget

/-- Under any root, what a document defines is the object types without the root, in order. -/
theorem names_definitions_of_document [Runtime] (hnodup : (graph.objects.map (·.name)).Nodup)
    {settings : Settings} {asked : Json} {document : SchemaDocument}
    (hok : graph.document settings asked = .ok document) :
    document.definitions.names =
      (graph.objects.map (·.name)).filter fun name => !(rootFor asked settings).isName name := by
  unfold TypeGraph.document at hok
  dsimp only at hok
  split at hok
  · contradiction
  · next built hbuilt =>
      split at hok
      · contradiction
      rw [Except.ok.injEq] at hok
      subst document
      have hentries : Entries.names ((built.filter fun pair =>
            !(rootFor asked settings).isName pair.1.name).map fun pair =>
              (pair.1.name, definitionOf pair.1 pair.2)) =
          (graph.objects.map (·.name)).filter fun name =>
            !(rootFor asked settings).isName name := by
        rw [← map_fst_built hbuilt, List.map_map, List.filter_map, Entries.names, List.map_map]
        rfl
      have hunique := hnodup.filter fun name => !(rootFor asked settings).isName name
      rw [← hentries] at hunique ⊢
      exact congrArg Entries.names (Entries.ofList_eq_self hunique)

theorem hasRoot_iff {root : Json} :
    graph.hasRoot root = true ↔ ∃ type ∈ graph.objects, root.isName type.name = true :=
  List.any_eq_true

/-- A document is made exactly if all fields can be told and the root is there or may be missing. -/
theorem exists_document_iff [Runtime] {settings : Settings} {asked : Json} :
    (∃ document, graph.document settings asked = .ok document) ↔
      (∃ built, graph.objectProperties settings.describeVariants.isTruthy = .ok built) ∧
        (graph.hasRoot (rootFor asked settings) = true ∨
          settings.allowMissingRoot.isTruthy = true) := by
  unfold TypeGraph.document
  cases hbuilt : graph.objectProperties settings.describeVariants.isTruthy with
  | error e => simp
  | ok built =>
      have hroot : (built.filter fun pair => (rootFor asked settings).isName pair.1.name).isEmpty =
          !graph.hasRoot (rootFor asked settings) := by
        rw [hasRoot, ← map_fst_built hbuilt, List.any_map, Bool.eq_iff_iff, List.isEmpty_iff,
          List.filter_eq_nil_iff, Bool.not_eq_true', List.any_eq_false]
        rfl
      simp only [hroot, Bool.not_eq_true', Bool.and_eq_true]
      cases graph.hasRoot (rootFor asked settings) <;>
        cases settings.allowMissingRoot.isTruthy <;> simp

/-- What becomes of a root: a document, no such root, or an expansion that is too deep. -/
theorem document_outcome [Runtime] (hindexed : graph.IsIndexed) (hclosed : graph.IsClosed)
    (hunions : graph.HasFiniteUnions) (settings : Settings) {root : String} (hroot : root ≠ "") :
    graph.IsTooDeep ∧ graph.document settings (.str root) = .error (.graph .tooDeep) ∨
      ¬ graph.IsTooDeep ∧ (∀ type ∈ graph.objects, type.name ≠ root) ∧
        settings.allowMissingRoot.isTruthy = false ∧
        graph.document settings (.str root) = .error (.rootNotFound (.str root)) ∨
      ¬ graph.IsTooDeep ∧
        ((∃ type ∈ graph.objects, type.name = root) ∨
          settings.allowMissingRoot.isTruthy = true) ∧
        ∃ document, graph.document settings (.str root) = .ok document := by
  rw [document_str graph settings hroot]
  rcases objectProperties_outcome hindexed hclosed hunions
      settings.describeVariants.isTruthy with ⟨⟨built, hbuilt⟩, hshallow⟩ | ⟨hbuilt, hdeep⟩
  · simp only [hbuilt]
    by_cases hmissing : ∀ type ∈ graph.objects, type.name ≠ root
    · have hempty := (isEmpty_rootPart_iff hbuilt).2 hmissing
      cases hallow : settings.allowMissingRoot.isTruthy with
      | false => exact .inr (.inl ⟨hshallow, hmissing, rfl, by simp [hempty]⟩)
      | true => exact .inr (.inr ⟨hshallow, .inr rfl, by simp⟩)
    · have hnonempty : (rootPart root built).isEmpty = false := by
        rw [← Bool.not_eq_true, isEmpty_rootPart_iff hbuilt]
        exact hmissing
      have hfound : ∃ type ∈ graph.objects, type.name = root := by
        simpa using hmissing
      exact .inr (.inr ⟨hshallow, .inl hfound, by simp [hnonempty]⟩)
  · exact .inl ⟨hdeep, by simp only [hbuilt]⟩

theorem exists_document [Runtime] (hindexed : graph.IsIndexed) (hclosed : graph.IsClosed)
    (hunions : graph.HasFiniteUnions) (hshallow : ¬ graph.IsTooDeep) (settings : Settings)
    {root : String} (hroot : root ≠ "") (hfound : ∃ type ∈ graph.objects, type.name = root) :
    ∃ document, graph.document settings (.str root) = .ok document := by
  rcases document_outcome hindexed hclosed hunions settings hroot with
    ⟨hdeep, -⟩ | ⟨-, hmissing, -⟩ | ⟨-, -, hdocument⟩
  · exact absurd hdeep hshallow
  · obtain ⟨type, htype, hname⟩ := hfound
    exact absurd hname (hmissing type htype)
  · exact hdocument

section Usual

attribute [local instance] Runtime.usual

theorem exists_document_shelfTypes {root : String} (hroot : root ≠ "")
    (hfound : ∃ type ∈ (ofTypes shelfTypes).objects, type.name = root) :
    ∃ document, (ofTypes shelfTypes).document {} (.str root) = .ok document :=
  exists_document (isIndexed_ofTypes [] nodup_names_shelfTypes) isClosed_shelfTypes
    ranksVariants_shelfTypes.hasFiniteUnions not_isTooDeep_shelfTypes {} hroot hfound

end Usual

end TypeGraph

end ConfigSchema
