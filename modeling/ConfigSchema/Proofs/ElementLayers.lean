import ConfigSchema.Proofs.AlikeDocuments
import ConfigSchema.Proofs.AlikeOutlines

/-!
# Layers that never show

A document shows of a reference its name, whether there is a list layer in it, and whether it is
required as a whole; an outline also shows how many list layers there are.  That the elements of a
list are required shows nowhere.  Still every layer takes a call when a label is made, so layers
that do not show may leave no room for an outline.
-/

namespace ConfigSchema

/-! ## References -/

namespace TypeRef

/-- The reference with no layer that makes anything required. -/
def unrequired : TypeRef → TypeRef
  | .named name => .named name
  | .list of => .list of.unrequired
  | .required of => of.unrequired

/-- The reference with no layer that makes anything required but an outermost one. -/
def elementsUnrequired : TypeRef → TypeRef
  | .required of => .required of.unrequired
  | ref => ref.unrequired

/-- References of the same name that are both lists or not, and both required or not. -/
structure LooksLike (ref other : TypeRef) : Prop where
  base : ref.base = other.base
  isList : ref.isList = other.isList
  isRequired : ref.isRequired = other.isRequired

@[simp] theorem base_unrequired (ref : TypeRef) : ref.unrequired.base = ref.base := by
  induction ref with
  | named name => rfl
  | list of ih => exact ih
  | required of ih => exact ih

@[simp] theorem isList_unrequired (ref : TypeRef) : ref.unrequired.isList = ref.isList := by
  induction ref with
  | named name => rfl
  | list of _ => rfl
  | required of ih => exact ih

@[simp] theorem isRequired_unrequired (ref : TypeRef) : ref.unrequired.isRequired = false := by
  induction ref with
  | named name => rfl
  | list of _ => rfl
  | required of ih => exact ih

@[simp] theorem labelOver_unrequired (label : String) (ref : TypeRef) :
    ref.unrequired.labelOver label = ref.labelOver label := by
  induction ref with
  | named name => rfl
  | list of ih => simp only [unrequired, labelOver, ih]
  | required of ih => exact ih

theorem looksLike_elementsUnrequired (ref : TypeRef) : ref.elementsUnrequired.LooksLike ref := by
  cases ref with
  | named name => exact ⟨rfl, rfl, rfl⟩
  | list of => exact ⟨base_unrequired of, rfl, rfl⟩
  | required of => exact ⟨base_unrequired of, isList_unrequired of, rfl⟩

theorem labelOver_elementsUnrequired (label : String) (ref : TypeRef) :
    ref.elementsUnrequired.labelOver label = ref.labelOver label := by
  cases ref with
  | named name => rfl
  | list of => exact labelOver_unrequired label (.list of)
  | required of => exact labelOver_unrequired label of

/-- References that differ in layers at most that make elements required. -/
def SameButElements (ref other : TypeRef) : Prop :=
  ref.elementsUnrequired = other.elementsUnrequired

theorem SameButElements.refl (ref : TypeRef) : ref.SameButElements ref :=
  Eq.refl ref.elementsUnrequired

theorem SameButElements.looksLike {ref other : TypeRef} (hsame : ref.SameButElements other) :
    ref.LooksLike other := by
  have hone := looksLike_elementsUnrequired ref
  have hother := looksLike_elementsUnrequired other
  rw [hsame] at hone
  exact ⟨hone.base.symm.trans hother.base, hone.isList.symm.trans hother.isList,
    hone.isRequired.symm.trans hother.isRequired⟩

theorem SameButElements.labelOver_eq {ref other : TypeRef} (hsame : ref.SameButElements other)
    (label : String) : ref.labelOver label = other.labelOver label := by
  rw [← labelOver_elementsUnrequired, hsame, labelOver_elementsUnrequired]

end TypeRef

/-- Fields that differ in their references at most, and there in related ones. -/
structure Field.Retyped (T : TypeRef → TypeRef → Prop) (field another : Field) : Prop where
  name : field.name = another.name
  type : T field.type another.type
  description : field.description = another.description
  directives : field.directives = another.directives

theorem Field.Retyped.imp {T U : TypeRef → TypeRef → Prop} {field another : Field}
    (hfield : field.Retyped T another) (himp : ∀ ref other, T ref other → U ref other) :
    field.Retyped U another :=
  ⟨hfield.name, himp _ _ hfield.type, hfield.description, hfield.directives⟩

/-! ## Documents -/

namespace TypeGraph

theorem comparesFields_of_looksLike {field another : Field}
    (hfield : field.Retyped TypeRef.LooksLike another) : ComparesFields Eq field another where
  name := hfield.name
  base := hfield.type.base
  isRequired := hfield.type.isRequired
  nodeUnder := by
    intro node node' hnode
    rw [hnode, nodeUnder, nodeUnder, hfield.type.isList, hfield.description]

end TypeGraph

/-! ## Outlines -/

/-- Items that are the same but for related references of fields. -/
inductive Item.Retyped (T : TypeRef → TypeRef → Prop) : Item → Item → Prop
  | field {field another : Field} (h : field.Retyped T another) :
      Retyped T (.field field) (.field another)
  | member (name : String) : Retyped T (.member name) (.member name)

namespace TypeDef.Matches

variable {T : TypeRef → TypeRef → Prop} {one other : TypeDef}

theorem parts?_cases (hmatch : one.Matches (Field.Retyped T) other) :
    one.parts? = none ∧ other.parts? = none ∨
      ∃ parts others, one.parts? = some parts ∧ other.parts? = some others ∧
        List.Forall₂ (Item.Retyped T) parts others := by
  have hfields : ∀ fields others : List Field, List.Forall₂ (Field.Retyped T) fields others →
      List.Forall₂ (Item.Retyped T) (fields.map .field) (others.map .field) := by
    intro fields others hall
    rw [List.forall₂_map_left_iff, List.forall₂_map_right_iff]
    exact hall.imp fun _ _ h => .field h
  rcases one with ⟨name, description, directives, shape⟩
  rcases other with ⟨name', description', directives', shape'⟩
  cases hmatch.shape with
  | object interfaces h => exact .inr ⟨_, _, rfl, rfl, hfields _ _ h⟩
  | interface interfaces h => exact .inr ⟨_, _, rfl, rfl, hfields _ _ h⟩
  | union members =>
      refine .inr ⟨_, _, rfl, rfl, ?_⟩
      rw [List.forall₂_map_left_iff, List.forall₂_map_right_iff]
      exact List.forall₂_same.2 fun name _ => .member name
  | _ => exact .inl ⟨rfl, rfl⟩

theorem label_eq (hmatch : one.Matches (Field.Retyped T) other) : one.label = other.label := by
  rcases one with ⟨name, description, directives, shape⟩
  rcases other with ⟨name', description', directives', shape'⟩
  obtain rfl : name = name' := hmatch.name
  cases hmatch.shape <;> rfl

theorem partsCalls_eq (hmatch : one.Matches (Field.Retyped T) other) :
    one.partsCalls = other.partsCalls := by
  rcases one with ⟨name, description, directives, shape⟩
  rcases other with ⟨name', description', directives', shape'⟩
  obtain rfl : name = name' := hmatch.name
  cases hmatch.shape <;> rfl

theorem head_eq (hmatch : one.Matches (Field.Retyped TypeRef.SameButElements) other)
    {item another : Item} (hitem : item.Retyped TypeRef.SameButElements another) :
    item.head one = another.head other := by
  cases hitem with
  | field h =>
      simp only [Item.head, h.name, h.type.labelOver_eq, hmatch.label_eq,
        h.type.looksLike.isRequired, h.description]
  | member name =>
      have hparts : one.parts?.isSome = other.parts?.isSome := by
        rcases hmatch.parts?_cases with ⟨hone, hother⟩ | ⟨parts, others, hone, hother, -⟩
        · rw [hone, hother]
        · rw [hone, hother]
          rfl
      simp only [Item.head, hparts, hmatch.label_eq]

end TypeDef.Matches

theorem Item.Retyped.target_eq {item another : Item}
    (hitem : item.Retyped TypeRef.SameButElements another) : item.target = another.target := by
  cases hitem with
  | field h => exact h.type.looksLike.base
  | member name => rfl

namespace TypeGraph

theorem documented_match {F : Field → Field → Prop} {one other : TypeGraph}
    (hgraph : one.Matches F other) :
    List.Forall₂ (fun type another => type.isObject = true ∧ type.Matches F another)
      one.documented other.documented := by
  have hmatch : List.Forall₂ (TypeDef.Matches F) one.documented other.documented := by
    refine List.rel_filter ?_ hgraph.objects
    intro type another hmatch
    simp only [hmatch.directives]
  exact (List.forall₂_and_left _ _).2 ⟨fun _ htype => isObject_of_mem_documented htype, hmatch⟩

theorem documentsAlike_of_retyped {type another : TypeDef}
    (hmatch : type.Matches (Field.Retyped TypeRef.SameButElements) another)
    (hkind : type.isObject = true) :
    DocumentsAlike (Item.Retyped TypeRef.SameButElements) type another where
  isObject := hkind
  isObject' := hmatch.isObject_eq ▸ hkind
  name := hmatch.name
  description := hmatch.description
  parts := by
    rw [TypeDef.parts, TypeDef.parts]
    rcases hmatch.parts?_cases with ⟨hnone, hnone'⟩ | ⟨parts, others, hsome, hsome', hall⟩
    · rw [hnone, hnone']
      exact .nil
    · rw [hsome, hsome']
      exact hall

theorem listAlike_of_retyped {one other : TypeGraph}
    (hgraph : one.Matches (Field.Retyped TypeRef.SameButElements) other) :
    one.ListAlike (· = .tooDeep) (Item.Retyped TypeRef.SameButElements) other where
  calls _ _ _ := .inr rfl
  type := by
    intro item another hitem
    rw [← hitem.target_eq]
    rcases hgraph.get?_cases item.target with hnone | ⟨type, found, hget, hget', hmatch⟩
    · exact .inl ⟨rfl, hnone⟩
    · exact .inr ⟨type, found, hget, hget', hmatch.name, hmatch.head_eq hitem,
        hmatch.partsCalls_eq, hmatch.parts?_cases⟩

/-! ## Fragments -/

section Alike

variable [Runtime] {one other : TypeGraph}

theorem fragments_agree (hgraph : one.Matches (Field.Retyped TypeRef.SameButElements) other)
    (settings : Settings) :
    Results.Agree (· = .tooDeep) Eq (one.fragments settings) (other.fragments settings) := by
  have htypes : List.Forall₂ (DocumentsAlike (Item.Retyped TypeRef.SameButElements))
      one.documented other.documented :=
    (documented_match hgraph).imp fun _ _ hboth => documentsAlike_of_retyped hboth.2 hboth.1
  exact inRoom_agree _ (fragmentsOf_agree (listAlike_of_retyped hgraph) htypes settings)

theorem lacksRoom_of_fragmentOf {graph : TypeGraph} {type : TypeDef} {under : List Call}
    (hkind : type.isObject = true) (hdeep : graph.fragmentOf type under = .error .tooDeep) :
    graph.LacksRoom (.renderType :: under) [type.name] type := by
  rcases fragmentOf_cases hkind under with ⟨-, text, hok⟩ | ⟨hlacks, -⟩ | ⟨name, herror⟩
  · rw [hdeep] at hok
    contradiction
  · exact hlacks
  · rw [hdeep] at herror
    cases herror

/-- Graphs have the same fragments, unless there is no room to make those of one of them. -/
structure SharesFragments (one other : TypeGraph) : Prop where
  eq_or_tooDeep : ∀ settings, one.fragments settings = other.fragments settings ∨
    one.fragments settings = .error .tooDeep ∨ other.fragments settings = .error .tooDeep
  eq_of_room : ¬ one.FragmentsLackRoom → ¬ other.FragmentsLackRoom →
    ∀ settings, one.fragments settings = other.fragments settings
  fragmentOf_eq : ∀ under, List.Forall₂
    (fun type another => type.name = another.name ∧
      (¬ one.LacksRoom (.renderType :: under) [type.name] type →
        ¬ other.LacksRoom (.renderType :: under) [another.name] another →
        one.fragmentOf type under = other.fragmentOf another under))
    one.documented other.documented

theorem sharesFragments (hgraph : one.Matches (Field.Retyped TypeRef.SameButElements) other) :
    one.SharesFragments other where
  eq_or_tooDeep := by
    intro settings
    rcases (fragments_agree hgraph settings).eq_or with heq | ⟨_, rfl, hdeep⟩ | ⟨_, rfl, hdeep⟩
    · exact .inl heq
    · exact .inr (.inl hdeep)
    · exact .inr (.inr hdeep)
  eq_of_room := by
    intro hone hother settings
    rcases (fragments_agree hgraph settings).eq_or with heq | ⟨_, rfl, hdeep⟩ | ⟨_, rfl, hdeep⟩
    · exact heq
    · exact absurd (fragmentsLackRoom_of_tooDeep hdeep) hone
    · exact absurd (fragmentsLackRoom_of_tooDeep hdeep) hother
  fragmentOf_eq := by
    intro under
    refine (documented_match hgraph).imp fun type another hboth => ⟨hboth.2.name, ?_⟩
    intro hroom hroom'
    have hkind' : another.isObject = true := hboth.2.isObject_eq ▸ hboth.1
    have hagree := fragmentOf_agree (listAlike_of_retyped hgraph)
      (documentsAlike_of_retyped hboth.2 hboth.1) under
    rcases hagree.eq_or with heq | ⟨_, rfl, h⟩ | ⟨_, rfl, h⟩
    · exact heq
    · exact absurd (lacksRoom_of_fragmentOf hboth.1 h) hroom
    · exact absurd (lacksRoom_of_fragmentOf hkind' h) hroom'

/-- Whether elements are required never shows in a document, and not in a fragment unless there is
no room for the layers that say so.  In documents the number of list layers does not show
either. -/
theorem element_layers_never_show {types others : List TypeDef} (directives : List String) :
    (List.Forall₂ (TypeDef.Matches (Field.Retyped TypeRef.LooksLike)) types others →
      ∀ settings asked, (ofTypes types directives).document settings asked =
        (ofTypes others directives).document settings asked) ∧
    (List.Forall₂ (TypeDef.Matches (Field.Retyped TypeRef.SameButElements)) types others →
      (∀ settings asked, (ofTypes types directives).document settings asked =
        (ofTypes others directives).document settings asked) ∧
      (ofTypes types directives).SharesFragments (ofTypes others directives)) := by
  constructor
  · intro htypes settings asked
    have hgraph := matches_ofTypes htypes directives directives
    exact document_eq_of_matches hgraph (fun _ _ => comparesFields_of_looksLike) settings asked
  · intro htypes
    have hgraph := matches_ofTypes htypes directives directives
    refine ⟨?_, sharesFragments hgraph⟩
    intro settings asked
    refine document_eq_of_matches hgraph ?_ settings asked
    intro field another hfield
    exact comparesFields_of_looksLike (hfield.imp fun _ _ hsame => hsame.looksLike)

end Alike

/-! ## A ladder with layers below it -/

/-- The objects of a ladder whose lowest one has a field of a given type; only the highest one is
documented. -/
def layeredRung (ref : TypeRef) (height level : Nat) : TypeDef :=
  { name := floorName level
    directives := if level = height then [docsDirective] else []
    shape := .object [{
      name := "next"
      type := match level with
        | 0 => ref
        | lower + 1 => .named (floorName lower) }] [] }

def layeredLadder (ref : TypeRef) (height : Nat) : List TypeDef :=
  { name := "Int", shape := .scalar } :: (List.range (height + 1)).map (layeredRung ref height)

/-- A reference that is required so many times. -/
def requiredTimes (times : Nat) (ref : TypeRef) : TypeRef :=
  TypeRef.required^[times] ref

section LayeredLadder

variable {ref : TypeRef} {height : Nat}

theorem mem_layeredLadder_iff {type : TypeDef} :
    type ∈ layeredLadder ref height ↔
      type = { name := "Int", shape := .scalar } ∨
        ∃ level ≤ height, type = layeredRung ref height level := by
  rw [layeredLadder, List.mem_cons, List.mem_map]
  simp only [List.mem_range, Nat.lt_succ_iff, eq_comm]

theorem nodup_names_layeredLadder : ((layeredLadder ref height).map (·.name)).Nodup := by
  rw [layeredLadder, List.map_cons, List.map_map, List.nodup_cons]
  constructor
  · intro hmem
    rcases List.mem_map.1 hmem with ⟨level, -, hname⟩
    have hletters := congrArg String.toList hname
    simp [layeredRung, floorName, List.replicate_succ] at hletters
  · exact List.nodup_range.map fun _ _ heq => floorName_injective heq

theorem isIndexed_layeredLadder : (ofTypes (layeredLadder ref height)).IsIndexed :=
  isIndexed_ofTypes [] nodup_names_layeredLadder

theorem layeredRung_mem {level : Nat} (hle : level ≤ height) :
    layeredRung ref height level ∈ layeredLadder ref height :=
  mem_layeredLadder_iff.2 (.inr ⟨level, hle, rfl⟩)

theorem isClosed_layeredLadder (hbase : ref.base = "Int") :
    (ofTypes (layeredLadder ref height)).IsClosed := by
  intro type htype name hname
  rcases mem_layeredLadder_iff.1 htype with rfl | ⟨level, hle, rfl⟩
  · simp [TypeDef.references] at hname
  · cases level with
    | zero =>
        have heq : name = "Int" := by
          simpa [layeredRung, TypeDef.references, hbase] using hname
        have hint : { name := "Int", shape := .scalar } ∈ layeredLadder ref height :=
          List.mem_cons_self
        rw [heq]
        exact Entries.mem_names_of_get? (isIndexed_layeredLadder.get?_name hint)
    | succ level =>
        have heq : name = floorName level := by
          simpa [layeredRung, TypeDef.references, TypeRef.base] using hname
        have hlower : layeredRung ref height level ∈ layeredLadder ref height :=
          layeredRung_mem (Nat.le_of_succ_le hle)
        rw [heq]
        exact Entries.mem_names_of_get? (isIndexed_layeredLadder.get?_name hlower)

theorem not_expands_layeredLadder {first second : String} :
    ¬ (ofTypes (layeredLadder ref height)).Expands first second := by
  rintro ⟨type, variants, hget, hvariants, -⟩
  rcases mem_layeredLadder_iff.1 ((isIndexed_layeredLadder first type).1 hget).1 with
    rfl | ⟨level, -, rfl⟩
  · cases hvariants
  · cases hvariants

theorem isLadder_layeredLadder :
    (ofTypes (layeredLadder ref height)).IsLadder height (layeredRung ref height) where
  name _ := rfl
  get _ hle := isIndexed_layeredLadder.get?_name (layeredRung_mem hle)
  calls _ := rfl
  part _ := rfl

/-- The way to the field at the bottom opens all objects but the highest. -/
theorem lacksRoom_layeredLadder [Runtime]
    (hfull : ∀ calls : List Call, 3 * (height + 1) + ref.layers < calls.length →
      Runtime.hasRoom calls = false) (under : List Call) :
    (ofTypes (layeredLadder ref (height + 1))).LacksRoom under [floorName (height + 1)]
      (layeredRung ref (height + 1) (height + 1)) := by
  have hladder : (ofTypes (layeredLadder ref (height + 1))).IsLadder (height + 1)
      (layeredRung ref (height + 1)) := isLadder_layeredLadder
  rcases hladder.exists_place (Nat.lt_succ_self height) with ⟨way, item, htarget, hplace⟩
  have hlowest : height + 1 - 1 - height = 0 := by omega
  rw [hlowest] at htarget
  have hget := hladder.get 0 (Nat.zero_le _)
  rw [← htarget] at hget
  have hnew := hladder.name_notMem_opened height (by omega : 0 < height + 1 - height)
    (Nat.succ_pos height)
  have hpart : (layeredRung ref (height + 1) 0).parts[0]? =
      some (.field { name := "next", type := ref }) := rfl
  refine .place (hplace.next hget hnew hpart) (hfull _ ?_)
  have hcalls := hladder.length_callsBelow_map (0 :: List.range' (height + 1 - height) height)
    (.field { name := "next", type := ref })
  rw [List.map_cons, List.length_cons, List.length_range', Item.calls,
    TypeRef.length_labelCalls] at hcalls
  rw [List.length_append, hcalls]
  dsimp only
  omega

theorem fragments_layeredLadder [Runtime] (hbase : ref.base = "Int")
    (hfull : ∀ calls : List Call, 3 * (height + 1) + ref.layers < calls.length →
      Runtime.hasRoom calls = false) (settings : Settings) :
    (ofTypes (layeredLadder ref (height + 1))).fragments settings = .error .tooDeep := by
  have hclosed : (ofTypes (layeredLadder ref (height + 1))).IsClosed := isClosed_layeredLadder hbase
  have htop : layeredRung ref (height + 1) (height + 1) ∈
      (ofTypes (layeredLadder ref (height + 1))).objects :=
    mem_objects_iff.2 ⟨layeredRung_mem (Nat.le_refl _), rfl⟩
  have hdocumented : layeredRung ref (height + 1) (height + 1) ∈
      (ofTypes (layeredLadder ref (height + 1))).documented :=
    List.mem_filter.2 ⟨htop, by simp [layeredRung]⟩
  have hlacks : (ofTypes (layeredLadder ref (height + 1))).FragmentsLackRoom :=
    .inr ⟨_, hdocumented, lacksRoom_layeredLadder hfull [.renderType, .render]⟩
  rcases fragments_cases (hclosed.isResolved isIndexed_layeredLadder) settings with
    ⟨hroom, -⟩ | ⟨-, herror⟩
  · exact absurd hlacks hroom
  · exact herror

theorem length_calls_le_of_layeredLadder {type : TypeDef}
    (htype : type ∈ layeredLadder ref height) :
    ∀ part ∈ type.parts, part.calls.length ≤ ref.layers + 2 := by
  intro part hpart
  rcases mem_layeredLadder_iff.1 htype with rfl | ⟨level, -, rfl⟩
  · contradiction
  · cases level with
    | zero =>
        have heq : part = .field { name := "next", type := ref } := List.mem_singleton.1 hpart
        rw [heq, Item.calls, TypeRef.length_labelCalls]
    | succ level =>
        have heq : part = .field { name := "next", type := .named (floorName level) } :=
          List.mem_singleton.1 hpart
        rw [heq, Item.calls, TypeRef.length_labelCalls]
        exact Nat.add_le_add_right (Nat.zero_le _) 2

theorem openNames_layeredLadder_subset :
    (ofTypes (layeredLadder ref height)).openNames ⊆ (List.range (height + 1)).map floorName := by
  intro name hname
  rw [openNames, List.mem_dedup] at hname
  rcases List.mem_map.1 hname with ⟨type, htype, rfl⟩
  rcases List.mem_map.1 (List.mem_of_mem_filter htype) with ⟨entry, hentry, rfl⟩
  have hparts := (List.mem_filter.1 htype).2
  rcases List.mem_map.1 (Entries.mem_of_mem_ofList hentry) with ⟨type, hmem, rfl⟩
  rcases mem_layeredLadder_iff.1 hmem with rfl | ⟨level, hle, rfl⟩
  · contradiction
  · exact List.mem_map_of_mem (List.mem_range.2 (Nat.lt_succ_of_le hle))

/-- The highest object is open from the start, so that only the others can be opened below it. -/
theorem openRoom_layeredLadder_le :
    (ofTypes (layeredLadder ref height)).openRoom [floorName height] ≤ height := by
  have htop := isIndexed_layeredLadder.get?_name
    (layeredRung_mem (Nat.le_refl height) : layeredRung ref height height ∈ _)
  have hopen : floorName height ∈ (ofTypes (layeredLadder ref height)).openNames :=
    mem_openNames htop (by simp [layeredRung, TypeDef.parts?])
  have hless : (ofTypes (layeredLadder ref height)).openRoom [floorName height] <
      (ofTypes (layeredLadder ref height)).openRoom [] := Chain.room_cons_lt hopen (by simp)
  have hcount : (ofTypes (layeredLadder ref height)).openRoom [] ≤
      (ofTypes (layeredLadder ref height)).openNames.length := List.countP_le_length
  have hlength : (ofTypes (layeredLadder ref height)).openNames.length ≤
      ((List.range (height + 1)).map floorName).length :=
    (List.Nodup.subperm (List.nodup_dedup _) openNames_layeredLadder_subset).length_le
  rw [List.length_map, List.length_range] at hlength
  omega

theorem not_fragmentsLackRoom_layeredLadder [Runtime]
    (hroom : Runtime.HasRoomFor (3 * height + ref.layers + 6)) :
    ¬ (ofTypes (layeredLadder ref height)).FragmentsLackRoom := by
  rintro (hfull | ⟨type, htype, hlacks⟩)
  · exact Runtime.not_hasRoomFor hfull (by simp only [List.length_singleton]; omega) hroom
  have hobject := mem_objects_iff.1 (List.mem_of_mem_filter htype)
  have hmarked : type.directives.contains docsDirective = true := (List.mem_filter.1 htype).2
  have hname : type.name = floorName height := by
    rcases mem_layeredLadder_iff.1 hobject.1 with rfl | ⟨level, -, rfl⟩
    · contradiction
    · by_cases htop : level = height
      · rw [htop]
        rfl
      · simp [layeredRung, htop] at hmarked
  have hlayers : ∀ other, (ofTypes (layeredLadder ref height)).Holds other →
      ∀ part ∈ other.parts, part.calls.length ≤ ref.layers + 2 := by
    intro other hholds
    rcases hholds with hmem | ⟨name, hget⟩
    · exact length_calls_le_of_layeredLadder hmem
    · exact length_calls_le_of_layeredLadder ((isIndexed_layeredLadder name other).1 hget).1
  have hopen : (ofTypes (layeredLadder ref height)).openRoom [floorName height] ≤ height :=
    openRoom_layeredLadder_le
  rw [hname] at hlacks
  refine not_lacksRoom_of_openRoom (.inl hobject.1) hlayers (hroom.mono ?_) hlacks
  simp only [List.length_cons, List.length_nil]
  omega

theorem layeredLadder_retyped {T : TypeRef → TypeRef → Prop} (hrefl : ∀ ref, T ref ref)
    {another : TypeRef} (hrefs : T ref another) (height : Nat) :
    List.Forall₂ (TypeDef.Matches (Field.Retyped T)) (layeredLadder ref height)
      (layeredLadder another height) := by
  refine .cons (.refl (fun field => ⟨rfl, hrefl _, rfl, rfl⟩) _) ?_
  rw [List.forall₂_map_left_iff, List.forall₂_map_right_iff]
  refine List.forall₂_same.2 fun level _ => ?_
  cases level with
  | zero => exact ⟨rfl, rfl, rfl, .object [] (.cons ⟨rfl, hrefs, rfl, rfl⟩ .nil)⟩
  | succ level => exact ⟨rfl, rfl, rfl, .object [] (.cons ⟨rfl, hrefl _, rfl, rfl⟩ .nil)⟩

end LayeredLadder

section Usual

attribute [local instance] Runtime.usual

theorem layeredLadders_look_alike :
    (∀ settings asked,
        (ofTypes (layeredLadder (.required (.list (.list (.required (.named "Int"))))) 3)).document
            settings asked =
          (ofTypes (layeredLadder (.required (.list (.named "Int"))) 3)).document settings asked) ∧
      ∀ settings,
        (ofTypes (layeredLadder (.list (.required (.named "Int"))) 3)).fragments settings =
          (ofTypes (layeredLadder (.list (.named "Int")) 3)).fragments settings := by
  have hlooks : TypeRef.LooksLike (.required (.list (.list (.required (.named "Int")))))
      (.required (.list (.named "Int"))) := ⟨rfl, rfl, rfl⟩
  have hsame : TypeRef.SameButElements (.list (.required (.named "Int")))
      (.list (.named "Int")) := rfl
  constructor
  · exact (element_layers_never_show []).1
      (layeredLadder_retyped (fun _ => ⟨rfl, rfl, rfl⟩) hlooks 3)
  · have hshares := ((element_layers_never_show []).2
      (layeredLadder_retyped TypeRef.SameButElements.refl hsame 3)).2
    exact hshares.eq_of_room
      (not_fragmentsLackRoom_layeredLadder (Runtime.hasRoomFor_usual (by decide)))
      (not_fragmentsLackRoom_layeredLadder (Runtime.hasRoomFor_usual (by decide)))

/-- The elements of a list may be said to be required so often that a fragment is missing which
there is if they are not. -/
theorem required_elements_hide_fragment :
    List.Forall₂ (TypeDef.Matches (Field.Retyped TypeRef.SameButElements))
        (layeredLadder (.list (requiredTimes 60 (.named "Int"))) 320)
        (layeredLadder (.list (.named "Int")) 320) ∧
      (ofTypes (layeredLadder (.list (requiredTimes 60 (.named "Int"))) 320)).fragments {} =
        .error .tooDeep ∧
      ∃ fragments, (ofTypes (layeredLadder (.list (.named "Int")) 320)).fragments {} =
        .ok fragments := by
  have hsame : TypeRef.SameButElements (.list (requiredTimes 60 (.named "Int")))
      (.list (.named "Int")) := by rfl
  refine ⟨layeredLadder_retyped TypeRef.SameButElements.refl hsame 320, ?_, ?_⟩
  · refine fragments_layeredLadder rfl (fun calls hlength => ?_) {}
    have hlayers : (TypeRef.list (requiredTimes 60 (.named "Int"))).layers = 61 := by decide
    rw [Runtime.hasRoom_usual_eq_false_iff]
    omega
  · have hclosed : (ofTypes (layeredLadder (.list (.named "Int")) 320)).IsClosed :=
      isClosed_layeredLadder rfl
    have hroom : ¬ (ofTypes (layeredLadder (.list (.named "Int")) 320)).FragmentsLackRoom :=
      not_fragmentsLackRoom_layeredLadder (Runtime.hasRoomFor_usual (by decide))
    rcases fragments_cases (hclosed.isResolved isIndexed_layeredLadder) {} with
      ⟨-, hfragments⟩ | ⟨hlacks, -⟩
    · exact hfragments
    · exact absurd hlacks hroom

end Usual

end TypeGraph

end ConfigSchema
