import ConfigSchema.Proofs.DocumentEmission
import ConfigSchema.Proofs.OutlinePlaces
import Mathlib.Data.List.Dedup
import Mathlib.Data.List.Perm.Subperm

/-!
# Depth of outlines

Every type that is opened puts its own name on the chain, and a name on the chain is not opened
again.  So the names of the types with parts that are not on the chain bound how deep an outline
nests, and where all names stand for types it ends.  The one thing that can still stop it is that
there is no room for the calls that lead to a place.
-/

namespace ConfigSchema

/-- The line of an outline at a level in which no more than so many types are opened inside each
other. -/
structure Line.NestsWithin (level : Int) (room : Nat) (line : Line) : Prop where
  le_level : level ≤ line.level
  level_le : line.level ≤ level + room
  level_lt_of_opened : line.ending = .opened → line.level < level + room

theorem Line.NestsWithin.of_room_lt {level : Int} {fewer room : Nat} {line : Line}
    (hline : line.NestsWithin (level + 1) fewer) (hlt : fewer < room) :
    line.NestsWithin level room where
  le_level := by
    have hle := hline.le_level
    omega
  level_le := by
    have hle := hline.level_le
    omega
  level_lt_of_opened := by
    intro hending
    have hlt := hline.level_lt_of_opened hending
    omega

theorem Line.nestsWithin_of_not_opened {level : Int} {room : Nat} {line : Line}
    (hlevel : line.level = level) (hending : line.ending ≠ .opened) :
    line.NestsWithin level room where
  le_level := Int.le_of_eq hlevel.symm
  level_le := by omega
  level_lt_of_opened := fun hopened => absurd hopened hending

theorem TypeRef.length_labelCalls (ref : TypeRef) : ref.labelCalls.length = ref.layers + 2 := by
  rw [TypeRef.labelCalls, List.length_cons, List.length_replicate]

theorem TypeDef.length_partsCalls_le (type : TypeDef) : type.partsCalls.length ≤ 3 := by
  unfold TypeDef.partsCalls
  split <;> simp

theorem TypeDef.fields?_of_isObject {type : TypeDef} (hkind : type.isObject = true) :
    type.fields? = some type.fields := by
  obtain ⟨fields, interfaces, hshape⟩ := TypeDef.isObject_iff.1 hkind
  simp only [TypeDef.fields, TypeDef.fields?, hshape, Option.getD_some]

theorem TypeDef.parts_of_fields? {type : TypeDef} {fields : List Field}
    (hfields : type.fields? = some fields) : type.parts = fields.map .field := by
  unfold TypeDef.fields? at hfields
  unfold TypeDef.parts TypeDef.parts?
  split at hfields <;> simp_all

namespace TypeGraph

/-- The own names, each once, of the types with parts that names stand for. -/
def openNames (graph : TypeGraph) : List String :=
  (((graph.index.map (·.2)).filter (·.parts?.isSome)).map (·.name)).dedup

/-- How many types can be opened inside each other below a chain. -/
def openRoom (graph : TypeGraph) (chain : List String) : Nat :=
  Chain.room graph.openNames chain

/-- There is no room for the calls that list what stands below a type: the first one, or those
that lead to some place. -/
inductive LacksRoom [Runtime] (graph : TypeGraph) (under : List Call) (chain : List String)
    (type : TypeDef) : Prop
  | start (hfull : Runtime.hasRoom (.renderFields :: under) = false) :
      LacksRoom graph under chain type
  | place {way : List Nat} {opened : List TypeDef} {item : Item}
      (hplace : graph.Place chain type.parts way opened item)
      (hfull : Runtime.hasRoom (callsBelow opened item ++ whileListing under) = false) :
      LacksRoom graph under chain type

/-- There is no room to make the fragments of a graph: to begin with, or for one of them. -/
def FragmentsLackRoom [Runtime] (graph : TypeGraph) : Prop :=
  Runtime.hasRoom [.render] = false ∨
    ∃ type ∈ graph.documented, graph.LacksRoom [.renderType, .render] [type.name] type

variable {graph : TypeGraph} {chain : List String} {items : List Item} {item part : Item}
  {way : List Nat} {opened : List TypeDef} {type : TypeDef} {level : Int} {room : Nat}

theorem mem_openNames {name : String} (hget : graph.index.get? name = some type)
    (hparts : type.parts? ≠ none) : type.name ∈ graph.openNames := by
  have hvalue : type ∈ graph.index.map (·.2) := Entries.mem_values_of_get? hget
  rw [openNames, List.mem_dedup]
  apply List.mem_map_of_mem
  exact List.mem_filter.2 ⟨hvalue, Option.isSome_iff_ne_none.2 hparts⟩

/-! ## How deep the lines are -/

theorem nestsWithin_of_mem_outline [Runtime] {under : List Call} {line : Line}
    (hline : line ∈ (graph.outline chain level under items).trail) :
    line.NestsWithin level (graph.openRoom chain) := by
  fun_induction graph.outline chain level under items with
  | case1 chain level under => simp at hline
  | case2 chain level under item rest hfull => simp [Traced.ofExcept] at hline
  | case3 chain level under item rest hroom hnone => simp [Traced.ofExcept] at hline
  | case4 chain level under item rest hroom type hget hparts ih =>
      rcases Traced.mem_trail_bind hline with hfirst | ⟨-, -, hrest⟩
      · have heq := List.mem_singleton.1 hfirst
        exact Line.nestsWithin_of_not_opened (by rw [heq]) (by simp [heq])
      · exact ih hrest
  | case5 chain level under item rest hroom type hget parts hparts hold ih =>
      rcases Traced.mem_trail_bind hline with hfirst | ⟨-, -, hrest⟩
      · have heq := List.mem_singleton.1 hfirst
        exact Line.nestsWithin_of_not_opened (by rw [heq]) (by simp [heq])
      · exact ih hrest
  | case6 chain level under item rest hroom type hget parts hparts hnew ihparts ih =>
      have hmem : type.name ∈ graph.openNames := mem_openNames hget (by simp [hparts])
      -- The name that is put on the chain is new there, so less room is left below.
      have hless : graph.openRoom (type.name :: chain) < graph.openRoom chain :=
        Chain.room_cons_lt hmem hnew
      rcases Traced.mem_trail_bind hline with hfirst | ⟨-, -, hlater⟩
      · have heq := List.mem_singleton.1 hfirst
        subst heq
        exact ⟨Int.le_refl _, by simp only; omega, fun _ => by simp only; omega⟩
      · rcases Traced.mem_trail_bind hlater with hbelow | ⟨-, -, hrest⟩
        · exact (ihparts hbelow).of_room_lt hless
        · exact ih hrest

/-! ## Types that are opened on a way -/

theorem Place.nodup_opened (hplace : graph.Place chain items way opened part) :
    (opened.map (·.name)).Nodup := by
  induction hplace with
  | first _ => exact .nil
  | next _ _ hnew _ ih =>
      rw [List.map_cons, List.nodup_cons]
      exact ⟨fun hmem => hnew (List.mem_append_left _ hmem), ih⟩

theorem Place.mem_openNames_of_mem (hplace : graph.Place chain items way opened part) :
    ∀ name ∈ opened.map (·.name), name ∈ graph.openNames ∧ name ∉ chain := by
  induction hplace with
  | first _ => simp
  | @next way opened item part type position _ hget hnew hpart ih =>
      intro name hname
      rw [List.map_cons, List.mem_cons] at hname
      rcases hname with rfl | hname
      · have hparts : type.parts? ≠ none := by
          intro hnone
          simp [TypeDef.parts, hnone] at hpart
        exact ⟨mem_openNames hget hparts, fun hmem => hnew (List.mem_append_right _ hmem)⟩
      · exact ih name hname

theorem Place.length_opened_le (hplace : graph.Place chain items way opened part) :
    opened.length ≤ graph.openRoom chain := by
  have hsubset : opened.map (·.name) ⊆ graph.openNames.filter (· ∉ chain) := by
    intro name hname
    have hopen := hplace.mem_openNames_of_mem name hname
    exact List.mem_filter.2 ⟨hopen.1, decide_eq_true hopen.2⟩
  have hle := (List.Nodup.subperm hplace.nodup_opened hsubset).length_le
  rw [List.length_map] at hle
  rw [openRoom, Chain.room, List.countP_eq_length_filter]
  exact hle

theorem length_callsBelow_le (opened : List TypeDef) (item : Item) :
    (callsBelow opened item).length ≤ 3 * opened.length + item.calls.length := by
  rw [callsBelow, List.length_append, Nat.add_comm]
  refine Nat.add_le_add_right ?_ _
  induction opened with
  | nil => simp
  | cons type opened ih =>
      have hcalls := type.length_partsCalls_le
      rw [List.flatMap_cons, List.length_append, List.length_cons]
      omega

theorem Place.mem_items_or (hplace : graph.Place chain items way opened part) :
    part ∈ items ∨ ∃ name type, graph.index.get? name = some type ∧ part ∈ type.parts := by
  cases hplace with
  | first hitem => exact .inl (List.mem_of_getElem? hitem)
  | next _ hget _ hpart => exact .inr ⟨_, _, hget, List.mem_of_getElem? hpart⟩

theorem Place.target_mem_names (hresolved : graph.IsResolved) (htype : graph.Holds type)
    (hplace : graph.Place chain type.parts way opened part) : part.target ∈ graph.index.names := by
  rcases hplace.mem_items_or with hpart | ⟨name, other, hget, hpart⟩
  · exact hresolved type htype _ (TypeDef.target_mem_references hpart)
  · exact hresolved other (.inr ⟨name, hget⟩) _ (TypeDef.target_mem_references hpart)

section Room

variable [Runtime] {under : List Call}

/-- Where few types can be opened inside each other and references have few layers, not much room
is needed. -/
theorem not_lacksRoom_of_openRoom {layers : Nat} (htype : graph.Holds type)
    (hlayers : ∀ other, graph.Holds other → ∀ part ∈ other.parts, part.calls.length ≤ layers)
    (hroom : Runtime.HasRoomFor (3 * graph.openRoom chain + layers + 2 + under.length)) :
    ¬ graph.LacksRoom under chain type := by
  intro hlacks
  cases hlacks with
  | start hfull =>
      refine Runtime.not_hasRoomFor hfull ?_ hroom
      rw [List.length_cons]
      omega
  | @place way opened item hplace hfull =>
      refine Runtime.not_hasRoomFor hfull ?_ hroom
      have hcalls : item.calls.length ≤ layers := by
        rcases hplace.mem_items_or with hpart | ⟨name, other, hget, hpart⟩
        · exact hlayers type htype item hpart
        · exact hlayers other (.inr ⟨name, hget⟩) item hpart
      have hle := length_callsBelow_le opened item
      have hlength := hplace.length_opened_le
      simp only [whileListing, List.length_append, List.length_cons]
      omega

theorem not_lacksRoom_of_few {layers : Nat} (hindexed : graph.IsIndexed)
    (htype : type ∈ graph.types)
    (hlayers : ∀ other ∈ graph.types, ∀ part ∈ other.parts, part.calls.length ≤ layers)
    (hroom : Runtime.HasRoomFor (3 * graph.openNames.length + layers + 2 + under.length))
    (chain : List String) : ¬ graph.LacksRoom under chain type := by
  have hheld : ∀ other, graph.Holds other → ∀ part ∈ other.parts,
      part.calls.length ≤ layers := by
    intro other hholds
    rcases hholds with hmem | ⟨name, hget⟩
    · exact hlayers other hmem
    · exact hlayers other ((hindexed name other).1 hget).1
  have hle : graph.openRoom chain ≤ graph.openNames.length := List.countP_le_length
  refine not_lacksRoom_of_openRoom (.inl htype) hheld (hroom.mono ?_)
  omega

/-! ## When an outline ends -/

theorem fieldLines_eq (graph : TypeGraph) (level : Int) (chain : List String) (under : List Call)
    {fields : List Field} (hfields : type.fields? = some fields) :
    graph.fieldLines type level chain under =
      let outline := graph.outline chain level (whileListing under) type.parts
      inRoom (.renderFields :: under)
        (outline.result.map fun _ => outline.trail.map Line.render) := by
  rw [fieldLines, hfields, TypeDef.parts_of_fields? hfields]
  rfl

/-- What is listed below a type are the lines of its places, unless there is no room for them or
the name of one is unknown. -/
theorem fieldLines_cases {fields : List Field} (hfields : type.fields? = some fields)
    (chain : List String) (level : Int) (under : List Call) :
    let lines := (graph.outline chain level (whileListing under) type.parts).trail
    (¬ graph.LacksRoom under chain type ∧
        graph.fieldLines type level chain under = .ok (lines.map Line.render) ∧
        ∃ ways, graph.ListsPlaces chain type.parts level ways lines) ∨
      (graph.LacksRoom under chain type ∧
        graph.fieldLines type level chain under = .error .tooDeep) ∨
      ∃ way opened part, graph.Place chain type.parts way opened part ∧
        part.target ∉ graph.index.names ∧
        graph.fieldLines type level chain under = .error (.unknownType part.target) := by
  rw [fieldLines_eq graph level chain under hfields]
  have haccount : graph.Account chain type.parts level (whileListing under)
      (graph.outline chain level (whileListing under) type.parts) :=
    outline_account chain level (whileListing under) type.parts
  generalize graph.outline chain level (whileListing under) type.parts = outcome at haccount ⊢
  by_cases hstart : Runtime.hasRoom (.renderFields :: under) = true
  swap
  · rw [Bool.not_eq_true] at hstart
    exact .inr (.inl ⟨.start hstart, inRoom_eq_error_iff.2 (.inl ⟨hstart, rfl⟩)⟩)
  simp only [inRoom_of_hasRoom hstart]
  cases haccount with
  | @finished ways lines hlists hroom =>
      refine .inl ⟨?_, rfl, ways, hlists⟩
      intro hlacks
      cases hlacks with
      | start hfull =>
          rw [hstart] at hfull
          contradiction
      | place hplace hfull =>
          rw [hroom _ _ _ hplace] at hfull
          contradiction
  | tooDeep hplace hfull => exact .inr (.inl ⟨.place hplace hfull, rfl⟩)
  | unknown hplace hunknown => exact .inr (.inr ⟨_, _, _, hplace, hunknown, rfl⟩)

/-- In a graph whose references resolve the outline of a type lists its places, unless there is
no room for them. -/
theorem fieldLines_outcome (hresolved : graph.IsResolved) (htype : graph.Holds type)
    {fields : List Field} (hfields : type.fields? = some fields) (chain : List String)
    (level : Int) (under : List Call) :
    let lines := (graph.outline chain level (whileListing under) type.parts).trail
    (¬ graph.LacksRoom under chain type ∧
        graph.fieldLines type level chain under = .ok (lines.map Line.render) ∧
        ∃ ways, graph.ListsPlaces chain type.parts level ways lines) ∨
      graph.LacksRoom under chain type ∧
        graph.fieldLines type level chain under = .error .tooDeep := by
  rcases fieldLines_cases hfields chain level under with
    hlists | hlacks | ⟨way, opened, part, hplace, hunknown, -⟩
  · exact .inl hlists
  · exact .inr hlacks
  · -- a name that is looked up is a reference of a type, so it is never unknown
    exact absurd (hplace.target_mem_names hresolved htype) hunknown

/-- What is listed below a type ends unless there is no room for it, and never nests deeper than
there are other names to open. -/
theorem fieldLines_end (hresolved : graph.IsResolved) (htype : graph.Holds type)
    {fields : List Field} (hfields : type.fields? = some fields) (level : Int)
    (chain : List String) (under : List Call) :
    ((∃ lines, graph.fieldLines type level chain under = .ok lines) ↔
        ¬ graph.LacksRoom under chain type) ∧
      (graph.fieldLines type level chain under = .error .tooDeep ↔
        graph.LacksRoom under chain type) ∧
      (∀ lines, graph.fieldLines type level chain under = .ok lines →
        lines = (graph.outline chain level (whileListing under) type.parts).trail.map
          Line.render) ∧
      (∀ line ∈ (graph.outline chain level (whileListing under) type.parts).trail,
        line.NestsWithin level (graph.openRoom chain)) ∧
      ∀ way opened item, graph.Place chain type.parts way opened item →
        opened.length ≤ graph.openRoom chain := by
  have hnests : ∀ line ∈ (graph.outline chain level (whileListing under) type.parts).trail,
      line.NestsWithin level (graph.openRoom chain) :=
    fun line hline => nestsWithin_of_mem_outline hline
  have hplaces : ∀ way opened item, graph.Place chain type.parts way opened item →
      opened.length ≤ graph.openRoom chain :=
    fun way opened item hplace => hplace.length_opened_le
  rcases fieldLines_outcome hresolved htype hfields chain level under with
    ⟨hroom, hok, -⟩ | ⟨hlacks, herror⟩
  · refine ⟨?_, ?_, ?_, hnests, hplaces⟩
    · simp [hok, hroom]
    · simp [hok, hroom]
    · intro lines hlines
      rw [hok, Except.ok.injEq] at hlines
      exact hlines.symm
  · refine ⟨?_, ?_, ?_, hnests, hplaces⟩
    · simp [herror, hlacks]
    · simp [herror, hlacks]
    · intro lines hlines
      rw [herror] at hlines
      contradiction

end Room

section Usual

attribute [local instance] Runtime.usual

theorem not_lacksRoom_shelfTypes (htype : type ∈ shelfTypes) (chain : List String)
    {under : List Call} (hunder : under.length ≤ 2) :
    ¬ (ofTypes shelfTypes).LacksRoom under chain type := by
  have hindexed : (ofTypes shelfTypes).IsIndexed := isIndexed_ofTypes [] nodup_names_shelfTypes
  have hlayers : ∀ other ∈ shelfTypes, ∀ part ∈ other.parts, part.calls.length ≤ 4 := by decide
  have hnames : (ofTypes shelfTypes).openNames.length ≤ 8 := by decide
  refine not_lacksRoom_of_few hindexed htype hlayers (Runtime.hasRoomFor_usual ?_) chain
  omega

theorem shelfTypes_fieldLines_end :
    (ofTypes shelfTypes).IsResolved ∧
      (∃ lines, (ofTypes shelfTypes).fieldLines shelfTypes[1] (-2) ["Book", "Query"] = .ok lines) ∧
      (ofTypes shelfTypes).openRoom ["Book", "Query"] = 3 := by
  have hindexed : (ofTypes shelfTypes).IsIndexed := isIndexed_ofTypes [] nodup_names_shelfTypes
  have hresolved := isClosed_shelfTypes.isResolved hindexed
  have htype : shelfTypes[1] ∈ shelfTypes := by decide
  have hends := fieldLines_end hresolved (.inl htype) (by rfl) (-2) ["Book", "Query"] []
  have hroom := not_lacksRoom_shelfTypes htype ["Book", "Query"] (by decide : [].length ≤ 2)
  exact ⟨hresolved, hends.1.2 hroom, by decide⟩

end Usual

/-! ## The way down a tower -/

/-- The object above a tower. -/
def towerObject (height : Nat) : TypeDef :=
  { name := "Settings"
    shape := .object [{ name := "value", type := .named (floorName height) }] [] }

theorem towerObject_mem_tower (height : Nat) : towerObject height ∈ tower height :=
  mem_tower_iff.2 (.inl rfl)

theorem length_partsCalls_floor (level : Nat) : (floor level).partsCalls.length = 2 := by
  cases level <;> rfl

theorem length_callsBelow_map_floor (levels : List Nat) (item : Item) :
    (callsBelow (levels.map floor) item).length = item.calls.length + 2 * levels.length := by
  rw [callsBelow, List.length_append, Nat.add_left_cancel_iff]
  induction levels with
  | nil => rfl
  | cons level levels ih =>
      rw [List.map_cons, List.flatMap_cons, List.length_append, ih, length_partsCalls_floor,
        List.length_cons]
      omega

/-- The way down a tower opens its unions one inside the other, as long as none is on the chain. -/
theorem exists_place_tower {height : Nat} (hchain : ∀ level, floorName level ∉ chain)
    {floors : Nat} (hfloors : floors ≤ height) :
    ∃ way item, item.target = floorName (height - floors) ∧
      (ofTypes (tower height)).Place chain
        (towerObject height).parts way
        ((List.range' (height - floors + 1) floors).map floor) item := by
  induction floors with
  | zero => exact ⟨[0], _, rfl, .first rfl⟩
  | succ floors ih =>
      obtain ⟨way, item, htarget, hplace⟩ := ih (by omega)
      obtain ⟨lower, rfl⟩ : ∃ lower, height = lower + 1 + floors := ⟨height - 1 - floors, by omega⟩
      have hhere : lower + 1 + floors - floors = lower + 1 := by omega
      have hbelow : lower + 1 + floors - (floors + 1) = lower := by omega
      rw [hhere] at htarget hplace
      rw [hbelow, List.range'_succ, List.map_cons]
      have hget := get?_floorName (by omega : lower + 1 ≤ lower + 1 + floors)
      rw [← htarget] at hget
      have hnew : (floor (lower + 1)).name ∉
          ((List.range' (lower + 1 + 1) floors).map floor).map (·.name) ++ chain := by
        rw [name_floor, List.mem_append, not_or]
        refine ⟨?_, hchain _⟩
        intro hmem
        rw [List.map_map, List.mem_map] at hmem
        obtain ⟨level, hlevel, heq⟩ := hmem
        have hsame : level = lower + 1 := floorName_injective (by simpa using heq)
        have hle := (List.mem_range'_1.1 hlevel).1
        omega
      have hpart : (floor (lower + 1)).parts[0]? = some (.member (floorName lower)) := rfl
      exact ⟨_, .member (floorName lower), rfl, hplace.next hget hnew hpart⟩

/-- The way down a tower takes two calls for each of its unions. -/
theorem lacksRoom_tower [Runtime] {height : Nat} (hchain : ∀ level, floorName level ∉ chain)
    (hfull : ∀ calls : List Call, 2 * height < calls.length → Runtime.hasRoom calls = false)
    (under : List Call) : (ofTypes (tower height)).LacksRoom under chain (towerObject height) := by
  obtain ⟨way, item, -, hplace⟩ := exists_place_tower hchain (Nat.le_refl height)
  refine .place hplace (hfull _ ?_)
  rw [List.length_append, length_callsBelow_map_floor, List.length_range']
  simp only [whileListing, List.length_cons]
  omega

section Usual

attribute [local instance] Runtime.usual

theorem fieldLines_tower (hchain : ∀ level, floorName level ∉ chain) (level : Int) :
    (ofTypes (tower 500)).fieldLines (towerObject 500) level chain = .error .tooDeep := by
  have hresolved := (isClosed_tower 500).isResolved (isIndexed_tower 500)
  have hlacks : (ofTypes (tower 500)).LacksRoom [] chain (towerObject 500) := by
    refine lacksRoom_tower hchain (fun calls hlength => ?_) []
    rw [Runtime.hasRoom_usual_eq_false_iff]
    omega
  rcases fieldLines_outcome hresolved (.inl (towerObject_mem_tower 500)) rfl chain level [] with
    ⟨hroom, -⟩ | ⟨-, herror⟩
  · exact absurd hlacks hroom
  · exact herror

/-- In a tower of 501 unions every reference resolves, and still the outline does not end. -/
theorem tower_outline_does_not_end :
    (ofTypes (tower 500)).IsResolved ∧ (ofTypes (tower 500)).Holds (towerObject 500) ∧
      (towerObject 500).fields?.isSome = true ∧
      ∀ lines, (ofTypes (tower 500)).fieldLines (towerObject 500) 0 [] ≠ .ok lines := by
  have hresolved := (isClosed_tower 500).isResolved (isIndexed_tower 500)
  refine ⟨hresolved, .inl (towerObject_mem_tower 500), rfl, ?_⟩
  intro lines hok
  rw [fieldLines_tower (by simp) 0] at hok
  contradiction

end Usual

end TypeGraph

end ConfigSchema
