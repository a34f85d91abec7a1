import ConfigSchema.Proofs.ExtendedGraphs
import ConfigSchema.Proofs.DocumentEmission

/-!
# Added types

Types with new names are added behind those of a graph.  A root that was there before keeps its
document: the new object types are defined behind the others, and interfaces get more variants.  The
fragments that were there before stay as they are and come first.
-/

namespace ConfigSchema

namespace TypeGraph

/-- The definition of a name before and after types are added. -/
structure DefinitionGrows (graph : TypeGraph) (more : List TypeDef) (name : String)
    (definition other : Definition) : Prop where
  title : definition.title = other.title
  isOpen : definition.isOpen = other.isOpen
  properties : ∃ type ∈ graph.objects, type.name = name ∧
    graph.PropertiesGrow more type.fields definition.properties other.properties

/-- The document of a root before and after types are added. -/
structure DocumentGrows (graph : TypeGraph) (more : List TypeDef) (root : Json)
    (document other : SchemaDocument) : Prop where
  schemaUri : document.schemaUri = other.schemaUri
  title : document.title = other.title
  root : ∃ type ∈ graph.objects, root.isName type.name = true ∧
    graph.PropertiesGrow more type.fields document.root other.root
  definitions : ∃ kept added, other.definitions = kept ++ added ∧
    Entries.Related (graph.DefinitionGrows more) document.definitions kept ∧
    added.names = (ofTypes more).objects.map (·.name)

variable {graph bigger : TypeGraph} {types more : List TypeDef} {settings : Settings} {asked : Json}
  {document other : SchemaDocument}

/-! ## Documents -/

namespace Extends

theorem mem_objects (hextends : bigger.Extends graph more) {type : TypeDef}
    (htype : type ∈ graph.objects) : type ∈ bigger.objects := by
  rw [hextends.objects_eq]
  exact List.mem_append_left _ htype

theorem exists_document [Runtime] (hextends : bigger.Extends graph more)
    (hindexed : graph.IsIndexed) (hclosed : graph.IsClosed) (hbigger : bigger.IsIndexed)
    (hplain : settings.describeVariants.isTruthy = false)
    (hroot : graph.hasRoot (rootFor asked settings) = true)
    (hok : bigger.document settings asked = .ok other) :
    ∃ document, graph.document settings asked = .ok document := by
  rw [exists_document_iff, hplain]
  refine ⟨?_, .inl hroot⟩
  rcases (exists_document_iff.1 ⟨other, hok⟩).1 with ⟨built, hbuilt⟩
  rw [hplain] at hbuilt
  cases hsmall : graph.objectProperties false with
  | ok built => exact ⟨built, rfl⟩
  | error e =>
      rcases inRoom_eq_error_iff.1 hsmall with ⟨hfull, -⟩ | ⟨-, herror⟩
      · rw [(inRoom_eq_ok_iff.1 hbuilt).1] at hfull
        contradiction
      rcases Results.exists_error_of_mapM herror with ⟨type, htype, hnone⟩
      rw [Results.map_eq_error_iff] at hnone
      have hbases : ∀ field ∈ type.fields, field.type.base ∈ graph.index.names :=
        fun field hfield =>
          hclosed type (mem_objects_iff.1 htype).1 _ (TypeDef.base_mem_references hfield)
      rcases Results.exists_right_of_forall₂ (forall₂_of_objectProperties hbuilt)
        (hextends.mem_objects htype) with ⟨⟨same, others⟩, -, -, hothers⟩
      rcases hextends.exists_propertiesGrow hindexed hclosed hbigger hbases hothers with
        ⟨properties, hproperties, -⟩
      rw [hproperties] at hnone
      contradiction

/-- What a document shows of an object type of the smaller graph. -/
theorem propertiesGrow [Runtime] (hextends : bigger.Extends graph more) (hindexed : graph.IsIndexed)
    (hclosed : graph.IsClosed) (hbigger : bigger.IsIndexed) {type : TypeDef}
    (htype : type ∈ graph.objects) {properties others : Properties}
    (hok : graph.properties false type.fields = .ok properties)
    (hother : bigger.properties false type.fields = .ok others) :
    graph.PropertiesGrow more type.fields properties others := by
  have hbases : ∀ field ∈ type.fields, field.type.base ∈ graph.index.names := fun field hfield =>
    hclosed type (mem_objects_iff.1 htype).1 _ (TypeDef.base_mem_references hfield)
  rcases hextends.exists_propertiesGrow hindexed hclosed hbigger hbases hother with
    ⟨before, hbefore, hgrow⟩
  rw [hok, Except.ok.injEq] at hbefore
  rwa [hbefore]

/-- No added type has the name of a type of the smaller graph. -/
theorem name_ne_of_mem (hextends : bigger.Extends graph more)
    (hnames : (bigger.types.map (·.name)).Nodup) {type new : TypeDef} (htype : type ∈ graph.types)
    (hnew : new ∈ more) : new.name ≠ type.name := by
  rw [hextends.types, List.map_append] at hnames
  intro heq
  exact (List.nodup_append.1 hnames).2.2 type.name (List.mem_map_of_mem htype) new.name
    (List.mem_map_of_mem hnew) heq.symm

/-- The object types with a definition: those of the smaller graph, and then the added ones. -/
theorem names_defined (hextends : bigger.Extends graph more)
    (hnames : (bigger.types.map (·.name)).Nodup) {type : TypeDef} (htype : type ∈ graph.types) :
    (bigger.objects.map (·.name)).filter (· ≠ type.name) =
      (graph.objects.map (·.name)).filter (· ≠ type.name) ++
        (ofTypes more).objects.map (·.name) := by
  rw [hextends.objects_eq, List.map_append, List.filter_append]
  congr 1
  rw [List.filter_eq_self]
  intro name hname
  rcases List.mem_map.1 hname with ⟨new, hnew, rfl⟩
  have hne := hextends.name_ne_of_mem hnames htype (mem_objects_iff.1 hnew).1
  simpa using hne

/-- The definition of an object type of the smaller graph. -/
theorem definitionGrows [Runtime] (hextends : bigger.Extends graph more)
    (hindexed : graph.IsIndexed) (hclosed : graph.IsClosed) (hbigger : bigger.IsIndexed)
    {root : String} (hparts : graph.HasParts false root document)
    (hothers : bigger.HasParts false root other) {name : String} {definition another : Definition}
    (hget : document.definitions.get? name = some definition)
    (hget' : other.definitions.get? name = some another) :
    graph.DefinitionGrows more name definition another := by
  have hlisted : name ∈ document.definitions.names := Entries.mem_names_of_get? hget
  rw [hparts.names_definitions, List.mem_filter, List.mem_map] at hlisted
  rcases hlisted with ⟨⟨type, htype, rfl⟩, hkeep⟩
  have hne : type.name ≠ root := of_decide_eq_true hkeep
  rcases hparts.definition_eq type htype hne with ⟨properties, hproperties, hentry⟩
  rcases hothers.definition_eq type (hextends.mem_objects htype) hne with
    ⟨others, hothers, hentry'⟩
  rw [hget, Option.some.injEq] at hentry
  rw [hget', Option.some.injEq] at hentry'
  rw [hentry, hentry']
  exact ⟨rfl, rfl, type, htype, rfl,
    hextends.propertiesGrow hindexed hclosed hbigger htype hproperties hothers⟩

theorem documentGrows [Runtime] (hextends : bigger.Extends graph more) (hindexed : graph.IsIndexed)
    (hclosed : graph.IsClosed) (hbigger : bigger.IsIndexed)
    (hnames : (bigger.types.map (·.name)).Nodup)
    (hplain : settings.describeVariants.isTruthy = false)
    (hroot : graph.hasRoot (rootFor asked settings) = true)
    (hok : graph.document settings asked = .ok document)
    (hother : bigger.document settings asked = .ok other) :
    graph.DocumentGrows more (rootFor asked settings) document other := by
  rcases hasRoot_iff.1 hroot with ⟨type, htype, hnamed⟩
  have hmem : type ∈ graph.types := (mem_objects_iff.1 htype).1
  rcases bigger.exists_picksRoot (rootFor asked settings) with ⟨root, hpicks⟩
  obtain rfl : type.name = root := (hpicks type (hextends.mem_objects htype)).1 hnamed
  have hpicked : graph.PicksRoot (rootFor asked settings) type.name :=
    fun other hother => hpicks other (hextends.mem_objects hother)
  have hbelow : (graph.types.map (·.name)).Nodup := by
    rw [hextends.types, List.map_append] at hnames
    exact hnames.of_append_left
  have hparts := hasParts_of_picksRoot hindexed hbelow hpicked hok
  have hothers := hasParts_of_picksRoot hbigger hnames hpicks hother
  rw [hplain] at hparts hothers
  have hsettings := settings_of_document hok
  have hsettings' := settings_of_document hother
  have hshown := hparts.root_eq type htype rfl
  have hshown' := hothers.root_eq type (hextends.mem_objects htype) rfl
  have hsplit : other.definitions.names =
      document.definitions.names ++ (ofTypes more).objects.map (·.name) := by
    rw [hothers.names_definitions, hparts.names_definitions, hextends.names_defined hnames hmem]
  rcases List.map_eq_append_iff.1 hsplit with ⟨kept, added, hdefinitions, hkept, hnew⟩
  refine ⟨?_, ?_, ⟨type, htype, hnamed, ?_⟩, kept, added, hdefinitions, ?_, hnew⟩
  · rw [hsettings.1, hsettings'.1]
  · rw [hsettings.2, hsettings'.2]
  · exact hextends.propertiesGrow hindexed hclosed hbigger htype hshown hshown'
  · refine Entries.related_of_names hkept.symm ?_
    intro name definition another hentry hentry'
    have hget := Entries.get?_eq_some_of_mem hparts.nodup_definitions hentry
    have hlater : (name, another) ∈ other.definitions := by
      rw [hdefinitions]
      exact List.mem_append_left added hentry'
    have hget' := Entries.get?_eq_some_of_mem hothers.nodup_definitions hlater
    exact hextends.definitionGrows hindexed hclosed hbigger hparts hothers hget hget'

end Extends

/-- Where nothing that is added implements an interface of the graph, what was there is kept as it
is. -/
theorem DocumentGrows.keeps (hnone : ImplementsNone more graph) {root : Json}
    (hgrows : graph.DocumentGrows more root document other) :
    document.root = other.root ∧ document.definitions <+: other.definitions := by
  rcases hgrows.root with ⟨type, -, -, hroot⟩
  refine ⟨hroot.eq_of_implementsNone hnone, ?_⟩
  rcases hgrows.definitions with ⟨kept, added, hsplit, hkept, -⟩
  have hsame : Entries.Corresponds Eq document.definitions kept := by
    refine hkept.imp fun entry another hentry => ⟨hentry.1, ?_⟩
    rcases entry with ⟨name, title, properties, isOpen⟩
    rcases another with ⟨name', title', properties', isOpen'⟩
    rcases hentry.2 with ⟨htitle, hopen, defined, -, -, hproperties⟩
    obtain rfl : title = title' := htitle
    obtain rfl : isOpen = isOpen' := hopen
    obtain rfl : properties = properties' := hproperties.eq_of_implementsNone hnone
    rfl
  rw [Entries.eq_of_corresponds hsame]
  exact ⟨added, hsplit.symm⟩

/-! ## Fragments -/

/-- The fragments of the smaller graph come first, as they were. -/
theorem Extends.exists_shown [Runtime] (hextends : bigger.Extends graph more)
    (hindexed : graph.IsIndexed) (hclosed : graph.IsClosed) {fragments : List Fragment}
    (hok : bigger.fragments settings = .ok fragments) :
    ∃ shown added, graph.fragments settings = .ok shown ∧
      bigger.fragments settings = .ok (shown ++ added) ∧
      added.map (·.typeName) = (ofTypes more).documented.map (·.name) := by
  rcases inRoom_eq_ok_iff.1 hok with ⟨hroom, hrun⟩
  rw [hextends.documented_eq, Results.mapM_append_eq_ok_iff] at hrun
  rcases hrun with ⟨shown, added, hshown, -, rfl⟩
  have hbefore : graph.fragments settings = .ok shown := by
    refine inRoom_eq_ok_iff.2 ⟨hroom, ?_⟩
    refine Results.mapM_eq_ok_of_imp hshown fun type htype fragment hfragment => ?_
    have hmem := (mem_objects_iff.1 (List.mem_of_mem_filter htype)).1
    rwa [hextends.fragmentOf_eq hindexed hclosed hmem] at hfragment
  have hnames := names_fragments hok
  rw [hextends.documented_eq, List.map_append, List.map_append, names_fragments hbefore] at hnames
  exact ⟨shown, added, hbefore, hok, List.append_cancel_left hnames⟩

/-- Added types change nothing that was there, but that interfaces have more variants.  Nothing is
told at all if there is no room to compile or to document the added types. -/
theorem added_types_leave_the_rest [Runtime] {types more : List TypeDef}
    (directives others : List String) (hnames : ((types ++ more).map (·.name)).Nodup)
    (hclosed : (ofTypes types directives).IsClosed)
    (hcloses : (ofTypes (types ++ more) others).IsClosed)
    (hunions : (ofTypes (types ++ more) others).HasFiniteUnions)
    {settings : Settings} (hplain : settings.describeVariants.isTruthy = false) {asked : Json}
    (hroot : (ofTypes types directives).hasRoot (rootFor asked settings) = true) :
    ((ofTypes (types ++ more) others).IsTooDeep ∧
        (ofTypes (types ++ more) others).document settings asked = .error (.graph .tooDeep) ∨
      ¬ (ofTypes (types ++ more) others).IsTooDeep ∧
        ∃ document other, (ofTypes types directives).document settings asked = .ok document ∧
          (ofTypes (types ++ more) others).document settings asked = .ok other ∧
          (ofTypes types directives).DocumentGrows more (rootFor asked settings) document other ∧
          (ImplementsNone more (ofTypes types directives) →
            document.root = other.root ∧ document.definitions <+: other.definitions)) ∧
      (∀ type ∈ types, ∀ under, (ofTypes (types ++ more) others).fragmentOf type under =
        (ofTypes types directives).fragmentOf type under) ∧
      ((ofTypes (types ++ more) others).FragmentsLackRoom ∧
          (ofTypes (types ++ more) others).fragments settings = .error .tooDeep ∨
        ¬ (ofTypes (types ++ more) others).FragmentsLackRoom ∧
          ∃ shown added, (ofTypes types directives).fragments settings = .ok shown ∧
            (ofTypes (types ++ more) others).fragments settings = .ok (shown ++ added) ∧
            added.map (·.typeName) = (ofTypes more).documented.map (·.name)) := by
  have hextends := extends_ofTypes hnames directives others
  have hbelow : (types.map (·.name)).Nodup := by
    rw [List.map_append] at hnames
    exact hnames.of_append_left
  have hindexed := isIndexed_ofTypes directives hbelow
  have hbigger := isIndexed_ofTypes others hnames
  have hresolved := hcloses.isResolved hbigger
  refine ⟨?_, fun type htype => hextends.fragmentOf_eq hindexed hclosed htype, ?_⟩
  · rcases objectProperties_outcome hbigger hcloses hunions settings.describeVariants.isTruthy with
      ⟨hbuilt, hshallow⟩ | ⟨herror, hdeep⟩
    · have hroots : (ofTypes (types ++ more) others).hasRoot (rootFor asked settings) = true := by
        rcases hasRoot_iff.1 hroot with ⟨type, htype, hnamed⟩
        exact hasRoot_iff.2 ⟨type, hextends.mem_objects htype, hnamed⟩
      rcases exists_document_iff.2 ⟨hbuilt, .inl hroots⟩ with ⟨other, hother⟩
      rcases hextends.exists_document hindexed hclosed hbigger hplain hroot hother with
        ⟨document, hok⟩
      have hgrows :=
        hextends.documentGrows hindexed hclosed hbigger hnames hplain hroot hok hother
      exact .inr ⟨hshallow, document, other, hok, hother, hgrows, fun hnone => hgrows.keeps hnone⟩
    · exact .inl ⟨hdeep, document_eq_graph_error_iff.2 herror⟩
  · rcases fragments_cases hresolved settings with ⟨hroom, fragments, hok⟩ | hlacks
    · exact .inr ⟨hroom, hextends.exists_shown hindexed hclosed hok⟩
    · exact .inl hlacks

/-- A documented object that is placed, and a union of it and an object that was there. -/
def crateTypes : List TypeDef :=
  [{ name := "Crate", directives := [docsDirective]
     shape := .object [{ name := "content", type := .list (.named "Storable") },
       { name := "above", type := .named "Placed" }] ["Placed"] },
    { name := "Storable", shape := .union ["Crate", "Book"] }]

section Usual

attribute [local instance] Runtime.usual

theorem crates_join_shelves :
    ∃ document other, (ofTypes shelfTypes).document {} (.str "Query") = .ok document ∧
      (ofTypes (shelfTypes ++ crateTypes)).document {} (.str "Query") = .ok other ∧
      (ofTypes shelfTypes).DocumentGrows crateTypes (.str "Query") document other ∧
      ∃ shown added, (ofTypes shelfTypes).fragments {} = .ok shown ∧
        (ofTypes (shelfTypes ++ crateTypes)).fragments {} = .ok (shown ++ added) ∧
        added.map (·.typeName) = ["Crate"] := by
  have hnames : ((shelfTypes ++ crateTypes).map (·.name)).Nodup := by decide
  have hcloses : (ofTypes (shelfTypes ++ crateTypes)).IsClosed := by decide
  have hranks : (ofTypes (shelfTypes ++ crateTypes)).RanksVariants fun name =>
      if name = "Storable" ∨ name = "Thing" ∨ name = "Placed" then 1 else 0 := by decide
  have hplain : ({} : Settings).describeVariants.isTruthy = false := rfl
  have hroot : (ofTypes shelfTypes).hasRoot (rootFor (.str "Query") {}) = true := by decide
  have hshallow : ¬ (ofTypes (shelfTypes ++ crateTypes)).IsTooDeep := by
    refine hranks.not_isTooDeep fun name => ?_
    split <;> omega
  have hroom : ¬ (ofTypes (shelfTypes ++ crateTypes)).FragmentsLackRoom := by
    rintro (hfull | ⟨type, htype, hlacks⟩)
    · contradiction
    have hlayers : ∀ other ∈ shelfTypes ++ crateTypes, ∀ part ∈ other.parts,
        part.calls.length ≤ 4 := by
      decide
    have hopen : (ofTypes (shelfTypes ++ crateTypes)).openNames.length ≤ 12 := by decide
    have hmem := (mem_objects_iff.1 (List.mem_of_mem_filter htype)).1
    refine not_lacksRoom_of_few (isIndexed_ofTypes [] hnames) hmem hlayers
      (Runtime.hasRoomFor_usual ?_) _ hlacks
    simp only [List.length_cons, List.length_nil]
    omega
  rcases added_types_leave_the_rest [] [] hnames isClosed_shelfTypes hcloses
    hranks.hasFiniteUnions hplain hroot with ⟨hdocument, -, hfragments⟩
  rcases hdocument with ⟨hdeep, -⟩ | ⟨-, document, other, hok, hother, hgrows, -⟩
  · exact absurd hdeep hshallow
  rcases hfragments with ⟨hlacks, -⟩ | ⟨-, shown, added, hshown, hadded, hdocumented⟩
  · exact absurd hlacks hroom
  exact ⟨document, other, hok, hother, hgrows, shown, added, hshown, hadded, hdocumented⟩

end Usual

/-! ## Added unions that are too deep -/

/-- An object that leads to nothing but itself. -/
def loopType : TypeDef :=
  { name := "Query", shape := .object [{ name := "next", type := .named "Query" }] [] }

theorem nodup_names_loop_tower (height : Nat) :
    (([loopType] ++ tower height).map (·.name)).Nodup := by
  rw [List.singleton_append, List.map_cons, List.nodup_cons]
  refine ⟨?_, nodup_names_tower height⟩
  intro hmem
  rcases List.mem_map.1 hmem with ⟨type, htype, hname⟩
  rcases mem_tower_iff.1 htype with rfl | ⟨level, -, rfl⟩
  · have hne : "Settings" ≠ "Query" := by decide
    exact hne hname
  · rw [name_floor] at hname
    exact floorName_ne_of_head (by decide) level hname

theorem isIndexed_loop_tower (height : Nat) : (ofTypes ([loopType] ++ tower height)).IsIndexed :=
  isIndexed_ofTypes [] (nodup_names_loop_tower height)

theorem get?_loop_tower {height : Nat} {name : String} {type : TypeDef}
    (hget : (ofTypes (tower height)).index.get? name = some type) :
    (ofTypes ([loopType] ++ tower height)).index.get? name = some type := by
  rcases (isIndexed_tower height name type).1 hget with ⟨hmem, hname⟩
  exact (isIndexed_loop_tower height name type).2 ⟨List.mem_append_right _ hmem, hname⟩

theorem isClosed_loop_tower (height : Nat) : (ofTypes ([loopType] ++ tower height)).IsClosed := by
  intro type htype name hname
  rcases List.mem_append.1 htype with hloop | htower
  · rw [List.mem_singleton.1 hloop] at hname
    have hown : loopType ∈ [loopType] ++ tower height := List.mem_cons_self
    have hself : name = loopType.name := List.mem_singleton.1 hname
    rw [hself]
    exact Entries.mem_names_of_get? ((isIndexed_loop_tower height).get?_name hown)
  · have hmem := isClosed_tower height type htower name hname
    rcases Option.isSome_iff_exists.1 (Entries.get?_isSome_iff.2 hmem) with ⟨found, hfound⟩
    exact Entries.mem_names_of_get? (get?_loop_tower hfound)

theorem hasFiniteUnions_loop_tower (height : Nat) :
    (ofTypes ([loopType] ++ tower height)).HasFiniteUnions := by
  have hlists : ∀ first last, (ofTypes ([loopType] ++ tower height)).Lists first last →
      (ofTypes (tower height)).Lists first last := by
    rintro first last ⟨type, members, hget, hshape, hmember⟩
    rcases (isIndexed_loop_tower height first type).1 hget with ⟨hmem, hname⟩
    rcases List.mem_append.1 hmem with hloop | htower
    · rw [List.mem_singleton.1 hloop] at hshape
      cases hshape
    · exact ⟨type, members, (isIndexed_tower height first type).2 ⟨htower, hname⟩, hshape, hmember⟩
  intro name hcycle
  exact hasFiniteUnions_tower height name (Relation.TransGen.mono hlists name name hcycle)

theorem isTooDeep_loop_tower [Runtime] {height : Nat}
    (hfull : ∀ calls : List Call, calls.length = 3 * height + 4 → Runtime.hasRoom calls = false) :
    (ofTypes ([loopType] ++ tower height)).IsTooDeep := by
  have hpath := expandsIn_floors (fun _ hbelow => get?_loop_tower (get?_floorName hbelow))
    (Nat.le_refl height)
  obtain ⟨calls, hreach, hlength⟩ := hpath.exists_calls
  have htower : towerObject height ∈ [loopType] ++ tower height :=
    List.mem_append_right _ (towerObject_mem_tower height)
  refine .field (mem_objects_iff.2 ⟨htower, rfl⟩) (List.mem_singleton.2 rfl)
    ⟨floorName 0, calls, hreach, hfull _ ?_⟩
  rw [List.length_append, hlength]
  rfl

section Usual

attribute [local instance] Runtime.usual

/-- A root has a document, and none once a tower of unions is added that it does not lead to. -/
theorem added_tower_hides_document :
    (([loopType] ++ tower 400).map (·.name)).Nodup ∧ (ofTypes [loopType]).IsClosed ∧
      (ofTypes ([loopType] ++ tower 400)).IsClosed ∧
      (ofTypes ([loopType] ++ tower 400)).HasFiniteUnions ∧
      ({} : Settings).describeVariants.isTruthy = false ∧
      (ofTypes [loopType]).hasRoot (rootFor (.str "Query") {}) = true ∧
      (∃ document, (ofTypes [loopType]).document {} (.str "Query") = .ok document) ∧
      ¬ ∃ other, (ofTypes ([loopType] ++ tower 400)).document {} (.str "Query") = .ok other := by
  have hnames : ([loopType].map (·.name)).Nodup := by decide
  have hclosed : (ofTypes [loopType]).IsClosed := by decide
  have hranks : (ofTypes [loopType]).RanksVariants fun _ => 0 := by decide
  have hfound : (ofTypes [loopType]).hasRoot (rootFor (.str "Query") {}) = true := by decide
  have hshallow : ¬ (ofTypes [loopType]).IsTooDeep :=
    hranks.not_isTooDeep fun _ => by omega
  refine ⟨nodup_names_loop_tower 400, hclosed, isClosed_loop_tower 400,
    hasFiniteUnions_loop_tower 400, rfl, hfound, ?_, ?_⟩
  · rcases objectProperties_outcome (isIndexed_ofTypes [] hnames) hclosed hranks.hasFiniteUnions
        false with ⟨hbuilt, -⟩ | ⟨-, hdeep⟩
    · exact exists_document_iff.2 ⟨hbuilt, .inl hfound⟩
    · exact absurd hdeep hshallow
  · rintro ⟨other, hother⟩
    have hdeep : (ofTypes ([loopType] ++ tower 400)).IsTooDeep :=
      isTooDeep_loop_tower fun calls hlength =>
        Runtime.hasRoom_usual_eq_false_iff.2 (by omega)
    rcases objectProperties_outcome (isIndexed_loop_tower 400) (isClosed_loop_tower 400)
        (hasFiniteUnions_loop_tower 400) false with ⟨-, hshallow⟩ | ⟨herror, -⟩
    · exact hshallow hdeep
    · rcases (exists_document_iff.1 ⟨other, hother⟩).1 with ⟨built, hbuilt⟩
      rw [show ({} : Settings).describeVariants.isTruthy = false from rfl, herror] at hbuilt
      contradiction

end Usual

end TypeGraph

end ConfigSchema
