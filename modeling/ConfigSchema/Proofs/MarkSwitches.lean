import ConfigSchema.Proofs.ElementLayers
import ConfigSchema.Proofs.UndirectedTypes

/-!
# Marks as switches

Each of the two marks switches one thing on for a type: the one opens its definition, the other one
adds its fragment.  Neither has an effect on anything else, and no other directive has any effect.
-/

namespace ConfigSchema

/-- Types that are the same but for directives.  A mark may be on one and not on the other only if
it is free at types of the name. -/
structure TypeDef.Remarked (free : String → String → Prop) (type other : TypeDef) : Prop where
  same : type.SameButDirectives other
  docs : ¬ free type.name docsDirective →
    (docsDirective ∈ type.directives ↔ docsDirective ∈ other.directives)
  isOpen : ¬ free type.name openDirective →
    (openDirective ∈ type.directives ↔ openDirective ∈ other.directives)

theorem TypeDef.Remarked.symm {free : String → String → Prop} {type other : TypeDef}
    (hpair : type.Remarked free other) : other.Remarked free type where
  same := ⟨hpair.same.undirected.symm⟩
  docs := by
    rw [← hpair.same.name_eq]
    exact fun hfree => (hpair.docs hfree).symm
  isOpen := by
    rw [← hpair.same.name_eq]
    exact fun hfree => (hpair.isOpen hfree).symm

/-- A type of the name carries a mark. -/
def carries (types : List TypeDef) (name mark : String) : Bool :=
  types.any fun type => type.name = name && type.directives.contains mark

namespace SchemaDocument

/-- The document with other definitions under the same names. -/
def redefined (document : SchemaDocument) (change : String → Definition → Definition) :
    SchemaDocument :=
  { document with
    definitions := document.definitions.map fun entry => (entry.1, change entry.1 entry.2) }

/-- The document in which the definition of a name is open or not. -/
def opened (document : SchemaDocument) (name : String) (isOpen : Bool) : SchemaDocument :=
  document.redefined fun own definition =>
    if own = name then { definition with isOpen } else definition

theorem redefined_eq_self {document : SchemaDocument} {change : String → Definition → Definition}
    (hsame : ∀ name ∈ document.definitions.names,
      ∀ definition, change name definition = definition) :
    document.redefined change = document := by
  have hdefinitions : document.definitions.map (fun entry => (entry.1, change entry.1 entry.2)) =
      document.definitions.map id := by
    refine List.map_congr_left fun entry hentry => ?_
    rw [hsame entry.1 (List.mem_map_of_mem hentry)]
    rfl
  rw [redefined, hdefinitions, List.map_id]

theorem opened_of_notMem {document : SchemaDocument} {name : String}
    (hmissing : name ∉ document.definitions.names) (isOpen : Bool) :
    document.opened name isOpen = document := by
  refine redefined_eq_self fun own hown definition => if_neg ?_
  rintro rfl
  exact hmissing hown

end SchemaDocument

namespace TypeGraph

variable {one other : TypeGraph} {types others : List TypeDef} {free : String → String → Prop}
  {name : String} {settings : Settings}

/-! ## Documents -/

/-- Types with the same properties and definitions of which one is told from the other. -/
def BuiltUpTo (change : String → Definition → Definition) (pair another : TypeDef × Properties) :
    Prop :=
  pair.1.name = another.1.name ∧ pair.2 = another.2 ∧
    definitionOf another.1 another.2 = change pair.1.name (definitionOf pair.1 pair.2)

theorem comparesBuilt_upTo (change : String → Definition → Definition) :
    ComparesBuilt (BuiltUpTo change) Eq
      fun own definition found => found = change own definition where
  name _ _ hpair := hpair.1
  properties := by
    intro pair another hpair
    rw [hpair.2.1]
    exact ⟨List.forall₂_same.2 fun _ _ => ⟨rfl, rfl⟩, rfl⟩
  definition _ _ hpair := hpair.2.2

theorem SharesParts.eq_redefined {change : String → Definition → Definition}
    {document another : SchemaDocument}
    (hparts : SharesParts Eq (fun own definition found => found = change own definition)
      document another) : another = document.redefined change := by
  rcases document with ⟨schemaUri, title, root, definitions⟩
  rcases another with ⟨schemaUri', title', root', definitions'⟩
  obtain rfl : schemaUri = schemaUri' := hparts.schemaUri
  obtain rfl : title = title' := hparts.title
  obtain rfl : root = root' := Properties.eq_of_corresponds hparts.root
  have hdefinitions : definitions.map (fun entry => (entry.1, change entry.1 entry.2)) =
      definitions'.map id := by
    refine map_eq_map_of_forall₂ (hparts.definitions.imp fun entry found hentry => ?_)
    rw [← hentry.2, hentry.1]
    rfl
  rw [List.map_id] at hdefinitions
  rw [← hdefinitions]
  rfl

/-- Where directives tell definitions in another way, documents differ in these. -/
theorem SameButDirectives.document_eq [Runtime] (hgraph : one.SameButDirectives other)
    (change : String → Definition → Definition)
    (hobjects : List.Forall₂ (fun type another => type.SameButDirectives another ∧
      ∀ properties, definitionOf another properties =
        change type.name (definitionOf type properties)) one.objects other.objects)
    (settings : Settings) (asked : Json) :
    other.document settings asked =
      (one.document settings asked).map (·.redefined change) := by
  have hbuilt : Results.Agree (fun _ => False) (List.Forall₂ (BuiltUpTo change))
      (one.objectProperties settings.describeVariants.isTruthy)
      (other.objectProperties settings.describeVariants.isTruthy) := by
    refine inRoom_agree _ (Results.Agree.mapM (hobjects.imp fun type another hboth => ?_))
    rw [hgraph.properties_eq hboth.1]
    cases other.properties settings.describeVariants.isTruthy another.fields with
    | error e => exact .error e
    | ok properties => exact .ok ⟨hboth.1.name_eq, rfl, hboth.2 properties⟩
  have hagree : Results.Agree (fun _ => False)
      (SharesParts Eq fun own definition found => found = change own definition)
      (one.document settings asked) (other.document settings asked) :=
    document_agree_of_built (comparesBuilt_upTo change) hbuilt asked
  have hsame : Results.Agree (fun _ => False) Eq
      ((one.document settings asked).map (·.redefined change))
      ((other.document settings asked).map id) :=
    hagree.map fun _ _ hparts => hparts.eq_redefined.symm
  rw [hsame.eq_of_never]
  cases other.document settings asked <;> rfl

/-! ## Marked types -/

theorem objects_remarked (htypes : List.Forall₂ (TypeDef.Remarked free) one.types other.types) :
    List.Forall₂ (TypeDef.Remarked free) one.objects other.objects := by
  refine List.rel_filter ?_ htypes
  intro type another hpair
  simp only [hpair.same.sameButFields.isObject_eq]

/-- The documented types but for those of a name at which the mark is free. -/
theorem documented_remarked (keep : String → Bool)
    (htypes : List.Forall₂ (TypeDef.Remarked free) one.types other.types)
    (hkeep : ∀ own, keep own = true → ¬ free own docsDirective) :
    List.Forall₂ TypeDef.SameButDirectives (one.documented.filter fun type => keep type.name)
      (other.documented.filter fun type => keep type.name) := by
  unfold documented
  rw [List.filter_filter, List.filter_filter]
  refine (List.rel_filter ?_ (objects_remarked htypes)).imp fun _ _ hpair => hpair.same
  intro type another hpair
  dsimp only
  rw [← hpair.same.name_eq]
  cases hkept : keep type.name with
  | false => simp
  | true =>
      have hmark := hpair.docs (hkeep _ hkept)
      simpa using hmark

theorem carries_eq {mark : String} (hnames : (types.map (·.name)).Nodup) {type : TypeDef}
    (htype : type ∈ types) : carries types type.name mark = type.directives.contains mark := by
  rw [Bool.eq_iff_iff, carries, List.any_eq_true]
  constructor
  · rintro ⟨found, hfound, hboth⟩
    rw [Bool.and_eq_true, decide_eq_true_eq] at hboth
    rw [List.inj_on_of_nodup_map hnames htype hfound hboth.1.symm]
    exact hboth.2
  · intro hmark
    exact ⟨type, htype, by simpa using hmark⟩

/-! ## What a mark switches -/

/-- Graphs of types that are the same but for directives. -/
theorem sameButDirectives_of_remarked (htypes : List.Forall₂ (TypeDef.Remarked free) types others)
    (directives directives' : List String) :
    (ofTypes types directives).SameButDirectives (ofTypes others directives') :=
  sameButDirectives_ofTypes (htypes.imp fun _ _ hpair => hpair.same) directives directives'

theorem document_of_remarked [Runtime] (htypes : List.Forall₂ (TypeDef.Remarked free) types others)
    (hfixed : ∀ own, ¬ free own openDirective) (directives directives' : List String)
    (settings : Settings) (asked : Json) :
    (ofTypes others directives').document settings asked =
      (ofTypes types directives).document settings asked := by
  have hgraph := sameButDirectives_of_remarked htypes directives directives'
  have hobjects : List.Forall₂ (TypeDef.Remarked free) (ofTypes types directives).objects
      (ofTypes others directives').objects := objects_remarked htypes
  rw [hgraph.document_eq (fun _ definition => definition) ?_ settings asked]
  · cases (ofTypes types directives).document settings asked with
    | error e => rfl
    | ok document => exact congrArg Except.ok (SchemaDocument.redefined_eq_self fun _ _ _ => rfl)
  · refine hobjects.imp fun type another hpair => ⟨hpair.same, fun properties => ?_⟩
    have hopen := hpair.isOpen (hfixed type.name)
    rw [definitionOf, definitionOf, hpair.same.name_eq, Definition.mk.injEq]
    refine ⟨rfl, rfl, ?_⟩
    rw [Bool.eq_iff_iff]
    simpa using hopen.symm

/-- A mark on the types of one name opens the definition of the name, and changes nothing else. -/
theorem document_of_opened [Runtime] (htypes : List.Forall₂ (TypeDef.Remarked free) types others)
    (hnames : (others.map (·.name)).Nodup) (hfixed : ∀ own, free own openDirective → own = name)
    (directives directives' : List String) (settings : Settings) (asked : Json) :
    (ofTypes others directives').document settings asked =
      ((ofTypes types directives).document settings asked).map
        (·.opened name (carries others name openDirective)) := by
  have hgraph := sameButDirectives_of_remarked htypes directives directives'
  have hobjects : List.Forall₂ (TypeDef.Remarked free) (ofTypes types directives).objects
      (ofTypes others directives').objects := objects_remarked htypes
  have hlisted : ∀ another ∈ (ofTypes others directives').objects, another ∈ others :=
    fun _ hanother => (mem_objects_iff.1 hanother).1
  refine hgraph.document_eq _ ?_ settings asked
  refine ((List.forall₂_and_left _ _).2 ⟨hlisted, hobjects.flip⟩).flip.imp ?_
  rintro type another ⟨hmem, hpair⟩
  refine ⟨hpair.same, fun properties => ?_⟩
  by_cases hname : type.name = name
  · have hown : another.name = name := hpair.same.name_eq ▸ hname
    rw [if_pos hname, definitionOf, definitionOf, hpair.same.name_eq, ← hown,
      carries_eq hnames hmem]
  · have hopen := hpair.isOpen fun hfree => hname (hfixed _ hfree)
    rw [if_neg hname, definitionOf, definitionOf, hpair.same.name_eq, Definition.mk.injEq]
    refine ⟨rfl, rfl, ?_⟩
    rw [Bool.eq_iff_iff]
    simpa using hopen.symm

theorem fragments_of_remarked [Runtime] (htypes : List.Forall₂ (TypeDef.Remarked free) types others)
    (hfixed : ∀ own, ¬ free own docsDirective) (directives directives' : List String)
    (settings : Settings) :
    (ofTypes others directives').fragments settings =
      (ofTypes types directives).fragments settings := by
  have hgraph := sameButDirectives_of_remarked htypes directives directives'
  have hkept : List.Forall₂ TypeDef.SameButDirectives
      ((ofTypes types directives).documented.filter fun _ => true)
      ((ofTypes others directives').documented.filter fun _ => true) :=
    documented_remarked (fun _ => true) htypes fun own _ => hfixed own
  rw [List.filter_true, List.filter_true] at hkept
  have hsame := hgraph.fragmentsOf_eq hkept (fun _ htype => isObject_of_mem_documented htype)
    settings
  exact congrArg (inRoom [.render]) hsame.symm

theorem fragmentsOf_filter [Runtime] {graph : TypeGraph} {fragments : List Fragment}
    (hok : graph.fragmentsOf settings types = .ok fragments) (keep : String → Bool) :
    graph.fragmentsOf settings (types.filter fun type => keep type.name) =
      .ok (fragments.filter fun fragment => keep fragment.typeName) := by
  unfold fragmentsOf at hok ⊢
  rw [Results.mapM_eq_ok_iff] at hok ⊢
  have hnamed : List.Forall₂ (fun (type : TypeDef) (fragment : Fragment) =>
      (graph.fragmentOf type [.render]).map (fun content =>
        ({ file := type.name ++ settings.markdownSuffix.display, content,
           typeName := type.name } : Fragment)) = .ok fragment) types fragments := hok
  refine List.rel_filter ?_ hnamed
  intro type fragment hfragment
  rcases Results.map_eq_ok_iff.1 hfragment with ⟨content, -, rfl⟩
  exact Iff.rfl

/-- A mark on the types of one name adds the fragment of the name at its place, and changes nothing
else, unless that fragment cannot be told. -/
theorem fragments_of_marked [Runtime] (htypes : List.Forall₂ (TypeDef.Remarked free) types others)
    (hfixed : ∀ own, free own docsDirective → own = name) (directives directives' : List String)
    {shown : List Fragment} (hshown : (ofTypes types directives).fragments settings = .ok shown) :
    (∃ fragments, (ofTypes others directives').fragments settings = .ok fragments ∧
        (fragments.filter fun fragment => fragment.typeName ≠ name) =
          (shown.filter fun fragment => fragment.typeName ≠ name) ∧
        fragments.map (·.typeName) = (ofTypes others directives').documented.map (·.name)) ∨
      ∃ type ∈ (ofTypes others directives').documented, type.name = name ∧
        ∃ e, (ofTypes others directives').fragmentOf type [.render] = .error e ∧
          (ofTypes others directives').fragments settings = .error e := by
  have hgraph := sameButDirectives_of_remarked htypes directives directives'
  have hkept : List.Forall₂ TypeDef.SameButDirectives
      ((ofTypes types directives).documented.filter fun type => decide (type.name ≠ name))
      ((ofTypes others directives').documented.filter fun type => decide (type.name ≠ name)) := by
    refine documented_remarked (fun own => decide (own ≠ name)) htypes fun own hown hfree => ?_
    exact of_decide_eq_true hown (hfixed own hfree)
  have hsame := hgraph.fragmentsOf_eq hkept
    (fun _ htype => isObject_of_mem_documented (List.mem_of_mem_filter htype)) settings
  have hold := fragmentsOf_filter (inRoom_eq_ok_iff.1 hshown).2 fun own => decide (own ≠ name)
  cases hfragments : (ofTypes others directives').fragments settings with
  | ok fragments =>
      have hnew := fragmentsOf_filter (inRoom_eq_ok_iff.1 hfragments).2
        fun own => decide (own ≠ name)
      rw [← hsame, hold, Except.ok.injEq] at hnew
      exact .inl ⟨fragments, rfl, hnew.symm, names_fragments hfragments⟩
  | error e =>
      rcases inRoom_eq_error_iff.1 hfragments with ⟨hfull, -⟩ | ⟨-, hfailed⟩
      · rw [(inRoom_eq_ok_iff.1 hshown).1] at hfull
        contradiction
      rcases Results.exists_error_of_mapM hfailed with ⟨type, htype, herror⟩
      rw [Results.map_eq_error_iff] at herror
      refine .inr ⟨type, htype, ?_, e, herror, rfl⟩
      by_contra hname
      have hmem : type ∈ (ofTypes others directives').documented.filter
          fun type => decide (type.name ≠ name) := List.mem_filter.2 ⟨htype, by simpa using hname⟩
      rcases Results.exists_left_of_forall₂ hkept hmem with ⟨before, hbefore, hpair⟩
      have hdocumented := List.mem_of_mem_filter hbefore
      rcases fragmentOf_of_fragments hshown hdocumented with ⟨text, htext⟩
      rw [hgraph.fragmentOf_eq hpair (isObject_of_mem_documented hdocumented), herror] at htext
      contradiction

theorem notMem_definitions_of_isName [Runtime] {graph : TypeGraph} {asked : Json}
    {document : SchemaDocument}
    (hnames : (graph.types.map (·.name)).Nodup) (hok : graph.document settings asked = .ok document)
    (hroot : (rootFor asked settings).isName name = true) :
    name ∉ document.definitions.names := by
  have hobjects : (graph.objects.map (·.name)).Nodup :=
    hnames.sublist (List.filter_sublist.map _)
  rw [names_definitions_of_document hobjects hok, List.mem_filter]
  rintro ⟨-, hother⟩
  rw [hroot] at hother
  contradiction

/-- Of all directives two are switches.  The one opens a definition and the other one adds a
fragment, each for the type that carries it, and neither changes anything else; what other
directives there are on types and fields makes no difference. -/
theorem marks_are_switches [Runtime] {types others : List TypeDef}
    (directives directives' : List String) (hnames : (types.map (·.name)).Nodup) (name : String) :
    (List.Forall₂ (TypeDef.Remarked fun own mark => own = name ∧ mark = openDirective)
        types others →
      (∀ settings, (ofTypes others directives').fragments settings =
        (ofTypes types directives).fragments settings) ∧
      ∀ settings asked,
        (ofTypes others directives').document settings asked =
          ((ofTypes types directives).document settings asked).map
            (·.opened name (carries others name openDirective)) ∧
        ((rootFor asked settings).isName name = true →
          (ofTypes others directives').document settings asked =
            (ofTypes types directives).document settings asked)) ∧
    (List.Forall₂ (TypeDef.Remarked fun own mark => own = name ∧ mark = docsDirective)
        types others →
      (∀ settings asked, (ofTypes others directives').document settings asked =
        (ofTypes types directives).document settings asked) ∧
      ∀ settings shown, (ofTypes types directives).fragments settings = .ok shown →
        (∃ fragments, (ofTypes others directives').fragments settings = .ok fragments ∧
          (fragments.filter fun fragment => fragment.typeName ≠ name) =
            (shown.filter fun fragment => fragment.typeName ≠ name) ∧
          fragments.map (·.typeName) = (ofTypes others directives').documented.map (·.name)) ∨
        ∃ type ∈ (ofTypes others directives').documented, type.name = name ∧
          ∃ e, (ofTypes others directives').fragmentOf type [.render] = .error e ∧
            (ofTypes others directives').fragments settings = .error e) ∧
    (List.Forall₂ (TypeDef.Remarked fun _ _ => False) types others →
      (∀ settings asked, (ofTypes others directives').document settings asked =
        (ofTypes types directives).document settings asked) ∧
      ∀ settings, (ofTypes others directives').fragments settings =
        (ofTypes types directives).fragments settings) := by
  have hdistinct : docsDirective ≠ openDirective := by decide
  refine ⟨fun htypes => ⟨?_, ?_⟩, fun htypes => ⟨?_, ?_⟩, fun htypes => ⟨?_, ?_⟩⟩
  · exact fragments_of_remarked htypes (fun _ hfree => hdistinct hfree.2) directives directives'
  · intro settings asked
    have hothers : (others.map (·.name)).Nodup := by
      rw [← map_eq_map_of_forall₂ (htypes.imp fun _ _ hpair => hpair.same.name_eq)]
      exact hnames
    have hopened := document_of_opened htypes hothers (fun _ hfree => hfree.1) directives
      directives' settings asked
    refine ⟨hopened, fun hroot => ?_⟩
    rw [hopened]
    cases hok : (ofTypes types directives).document settings asked with
    | error e => rfl
    | ok document =>
        have hmissing := notMem_definitions_of_isName hnames hok hroot
        exact congrArg Except.ok (SchemaDocument.opened_of_notMem hmissing _)
  · exact document_of_remarked htypes (fun _ hfree => hdistinct hfree.2.symm) directives directives'
  · intro settings shown hshown
    exact fragments_of_marked htypes (fun _ hfree => hfree.1) directives directives' hshown
  · exact document_of_remarked htypes (fun _ hfree => hfree) directives directives'
  · exact fragments_of_remarked htypes (fun _ hfree => hfree) directives directives'

/-! ## Turning a switch -/

end TypeGraph

/-- The type with a mark that it does not have or without one that it has, if it has the name. -/
def TypeDef.switched (name mark : String) (type : TypeDef) : TypeDef :=
  if type.name ≠ name then type
  else if mark ∈ type.directives then
    { type with directives := type.directives.filter (· ≠ mark) }
  else { type with directives := mark :: type.directives }

theorem TypeDef.remarked_switched (name mark : String) (type : TypeDef) :
    type.Remarked (fun own free => own = name ∧ free = mark) (type.switched name mark) := by
  have hmarks : ∀ other, ¬ (type.name = name ∧ other = mark) →
      (other ∈ type.directives ↔ other ∈ (type.switched name mark).directives) := by
    intro other hother
    unfold switched
    split
    · exact Iff.rfl
    · next hname =>
        have hne : other ≠ mark := fun heq => hother ⟨not_not.1 hname, heq⟩
        split <;> simp [hne]
  refine ⟨⟨?_⟩, hmarks docsDirective, hmarks openDirective⟩
  unfold switched
  split
  · rfl
  · split <;> rfl

namespace TypeGraph

theorem remarked_map_switched (name mark : String) (types : List TypeDef) :
    List.Forall₂ (TypeDef.Remarked fun own free => own = name ∧ free = mark) types
      (types.map (·.switched name mark)) := by
  rw [List.forall₂_map_right_iff]
  exact List.forall₂_same.2 fun type _ => type.remarked_switched name mark

section Usual

attribute [local instance] Runtime.usual

/-- A shelf loses its open definition, and another time it gets a fragment. -/
theorem shelf_is_switched :
    (∀ asked, (ofTypes (shelfTypes.map (·.switched "Shelf" openDirective))).document {} asked =
        ((ofTypes shelfTypes).document {} asked).map (·.opened "Shelf" false)) ∧
      ∃ fragments, (ofTypes (shelfTypes.map (·.switched "Shelf" docsDirective))).fragments {} =
        .ok fragments ∧ fragments.map (·.typeName) = ["Shelf"] := by
  have hopened := ((marks_are_switches [] [] nodup_names_shelfTypes "Shelf").1
    (remarked_map_switched "Shelf" openDirective shelfTypes)).2
  have hadded := ((marks_are_switches [] [] nodup_names_shelfTypes "Shelf").2.1
    (remarked_map_switched "Shelf" docsDirective shelfTypes)).2
  constructor
  · intro asked
    have hclosed : carries (shelfTypes.map (·.switched "Shelf" openDirective)) "Shelf"
        openDirective = false := by decide
    rw [(hopened {} asked).1, hclosed]
  · have hnames : ((shelfTypes.map (·.switched "Shelf" docsDirective)).map (·.name)).Nodup := by
      decide
    have hindexed := isIndexed_ofTypes [] hnames
    have hclosed : (ofTypes (shelfTypes.map (·.switched "Shelf" docsDirective))).IsClosed := by
      decide
    have hlayers : ∀ other ∈ shelfTypes.map (·.switched "Shelf" docsDirective),
        ∀ part ∈ other.parts, part.calls.length ≤ 4 := by decide
    have hopen : (ofTypes (shelfTypes.map
        (·.switched "Shelf" docsDirective))).openNames.length ≤ 8 := by decide
    have hnone : (ofTypes shelfTypes).fragments {} = .ok [] := rfl
    rcases hadded {} [] hnone with ⟨fragments, hok, -, hdocumented⟩ | ⟨type, htype, -, e, herror, -⟩
    · exact ⟨fragments, hok, hdocumented⟩
    · have hkind := isObject_of_mem_documented htype
      have hmem := (mem_objects_iff.1 (List.mem_of_mem_filter htype)).1
      rw [fragmentOf_eq_error_iff (hclosed.isResolved hindexed) (.inl hmem) hkind] at herror
      refine absurd herror.2 (not_lacksRoom_of_few hindexed hmem hlayers
        (Runtime.hasRoomFor_usual ?_) _)
      simp only [List.length_cons, List.length_nil]
      omega

end Usual

/-! ## A mark that hides all fragments -/

/-- A ladder of which no object is documented. -/
def plainLadder (height : Nat) : List TypeDef :=
  (layeredLadder (.named "Int") height).map (·.switched (floorName height) docsDirective)

theorem plainLadder_remarked (height : Nat) :
    List.Forall₂ (TypeDef.Remarked fun own mark => own = floorName height ∧ mark = docsDirective)
      (plainLadder height) (layeredLadder (.named "Int") height) :=
  (remarked_map_switched (floorName height) docsDirective
    (layeredLadder (.named "Int") height)).flip.imp fun _ _ hpair => hpair.symm

theorem documented_plainLadder (height : Nat) : (ofTypes (plainLadder height)).documented = [] := by
  rw [documented, List.filter_eq_nil_iff]
  intro type htype
  rcases List.mem_map.1 (mem_objects_iff.1 htype).1 with ⟨before, hbefore, rfl⟩
  rcases mem_layeredLadder_iff.1 hbefore with rfl | ⟨level, -, rfl⟩
  · have hkind := (mem_objects_iff.1 htype).2
    rw [← (TypeDef.remarked_switched _ _ _).same.sameButFields.isObject_eq] at hkind
    cases hkind
  · by_cases htop : level = height
    · simp [TypeDef.switched, layeredRung, htop]
    · have hname : floorName level ≠ floorName height := fun heq => htop (floorName_injective heq)
      simp [TypeDef.switched, layeredRung, htop, hname]

section Usual

attribute [local instance] Runtime.usual

/-- Documents and fragments are made of a graph, and no fragments any more once one of its types is
to be documented. -/
theorem mark_hides_fragments :
    ((plainLadder 400).map (·.name)).Nodup ∧
      List.Forall₂ (TypeDef.Remarked fun own mark => own = floorName 400 ∧ mark = docsDirective)
        (plainLadder 400) (layeredLadder (.named "Int") 400) ∧
      (∃ document, (ofTypes (plainLadder 400)).document {} (.str (floorName 400)) = .ok document) ∧
      (ofTypes (plainLadder 400)).fragments {} = .ok [] ∧
      (ofTypes (layeredLadder (.named "Int") 400)).fragments {} = .error .tooDeep := by
  have hremarked := plainLadder_remarked 400
  have hclosed : (ofTypes (layeredLadder (.named "Int") 400)).IsClosed := isClosed_layeredLadder rfl
  have hunions : (ofTypes (layeredLadder (.named "Int") 400)).HasFiniteUnions := by
    intro name hcycle
    rcases Relation.TransGen.head'_iff.1 hcycle with ⟨next, hlists, -⟩
    exact not_expands_layeredLadder hlists.expands
  have hhidden : (ofTypes (layeredLadder (.named "Int") 400)).fragments {} = .error .tooDeep := by
    refine fragments_layeredLadder rfl (fun calls hlength => ?_) {}
    rw [Runtime.hasRoom_usual_eq_false_iff]
    exact Nat.lt_trans (by decide) hlength
  refine ⟨?_, hremarked, ?_, ?_, hhidden⟩
  · rw [map_eq_map_of_forall₂ (hremarked.imp fun _ _ hpair => hpair.same.name_eq)]
    exact nodup_names_layeredLadder
  · have hfixed : ∀ own, ¬ (own = floorName 400 ∧ openDirective = docsDirective) :=
      fun own hfree => absurd hfree.2 (by decide)
    rw [← document_of_remarked hremarked hfixed [] []]
    have htop : layeredRung (.named "Int") 400 400 ∈
        (ofTypes (layeredLadder (.named "Int") 400)).objects :=
      mem_objects_iff.2 ⟨layeredRung_mem (Nat.le_refl 400), rfl⟩
    rcases objectProperties_outcome isIndexed_layeredLadder hclosed hunions false with
      ⟨hbuilt, -⟩ | ⟨-, hdeep⟩
    · have hnonempty : floorName 400 ≠ "" := floorName_ne_of_head (by decide) 400
      have hroot : rootFor (.str (floorName 400)) {} = .str (floorName 400) := by
        simp [rootFor, Json.isTruthy, hnonempty]
      refine exists_document_iff.2 ⟨hbuilt, .inl (hasRoot_iff.2 ⟨_, htop, ?_⟩)⟩
      rw [hroot]
      exact isName_str_iff.2 rfl
    · exact absurd hdeep (not_isTooDeep_of_not_expands fun _ _ => not_expands_layeredLadder)
  · rw [fragments, documented_plainLadder]
    rfl

end Usual

end TypeGraph

end ConfigSchema
