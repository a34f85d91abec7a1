import ConfigSchema.Proofs.OutlineDepth
import Mathlib.Data.List.TakeWhile

/-!
# Paths of an outline

Below a type whose names are unique in the graph the places of an outline are the paths from type
to type that never go on from a type that they have reached before.  So exactly the repeated
ancestors are cut, and a type that is reached on two branches is listed below both of them.
-/

namespace ConfigSchema

/-- How the line of a path ends whose last step leads to a type, after the types passed before. -/
def TypeDef.endingAfter (passed : List TypeDef) (type : TypeDef) : Ending :=
  if type.parts?.isNone then .leaf
  else if type ∈ passed then .backReference type.name
  else .opened

namespace TypeGraph

/-- The positions of the steps of a path from a type, the types that it has passed before the last
step, the latest first, and the field or member of that step. -/
inductive Path (graph : TypeGraph) (start : TypeDef) : List Nat → List TypeDef → Item → Prop
  | first {position : Nat} {field : Field} (hfield : start.fields[position]? = some field) :
      Path graph start [position] [start] (.field field)
  | next {way : List Nat} {passed : List TypeDef} {item part : Item} {type : TypeDef}
      {position : Nat} (hpath : Path graph start way passed item)
      (hget : graph.index.get? item.target = some type) (hnew : type ∉ passed)
      (hpart : type.parts[position]? = some part) :
      Path graph start (way ++ [position]) (type :: passed) part

def IsPathLine (graph : TypeGraph) (start : TypeDef) (way : List Nat) (line : Line) : Prop :=
  ∃ passed item type, graph.Path start way passed item ∧
    graph.index.get? item.target = some type ∧
    line = { level := way.length - 1, head := item.head type, ending := type.endingAfter passed }

/-- The lines of all paths from a type in depth-first order: behind a path stand the paths that
continue it, and only a line that opens a type has any. -/
structure ListsPaths (graph : TypeGraph) (start : TypeDef) (ways : List (List Nat))
    (lines : List Line) : Prop where
  sorted : ways.Pairwise (· < ·)
  mem_iff : ∀ way, way ∈ ways ↔ ∃ passed item, graph.Path start way passed item
  isPathLine : List.Forall₂ (graph.IsPathLine start) ways lines
  continued : ∀ before way after, ways = before ++ way :: after →
    ∃ below later, after = below ++ later ∧
      ∀ other, other ∈ below ↔ other ∈ ways ∧ way <+: other ∧ other ≠ way
  ended : ∀ way line, (way, line) ∈ ways.zip lines → line.ending ≠ .opened →
    ∀ other ∈ ways, way <+: other → other = way

variable {graph : TypeGraph} {start type : TypeDef} {items : List Item} {item other : Item}
  {way before after : List Nat} {ways : List (List Nat)} {passed opened : List TypeDef}

/-! ## Positions in order -/

theorem not_prefix_of_lt {first second : List Nat} (hfirst : way < first)
    (hbeside : ¬ way <+: first) (hsecond : first < second) : ¬ way <+: second := by
  induction way generalizing first second with
  | nil => exact absurd List.nil_prefix hbeside
  | cons position way ih =>
      cases first with
      | nil => exact absurd hfirst (List.not_lt_nil _)
      | cons one first =>
          cases second with
          | nil => exact absurd hsecond (List.not_lt_nil _)
          | cons two second =>
              rw [List.cons_lt_cons_iff] at hfirst hsecond
              rw [List.cons_prefix_cons] at hbeside ⊢
              rintro ⟨rfl, hstarts⟩
              rcases hfirst with hlt | ⟨rfl, hlt⟩
              · rcases hsecond with hlater | ⟨rfl, -⟩
                · exact Nat.lt_asymm hlt hlater
                · exact Nat.lt_irrefl _ hlt
              · have hnot : ¬ way <+: first := fun h => hbeside ⟨rfl, h⟩
                rcases hsecond with hlater | ⟨-, hlater⟩
                · exact Nat.lt_irrefl _ hlater
                · exact ih hlt hnot hlater hstarts

private theorem not_prefix_of_mem_dropWhile {after : List (List Nat)} {other : List Nat}
    (hsorted : after.Pairwise (· < ·)) (hafter : ∀ first ∈ after, way < first)
    (hmem : other ∈ after.dropWhile (way.isPrefixOf ·)) : ¬ way <+: other := by
  induction after with
  | nil => simp at hmem
  | cons first rest ih =>
      rw [List.pairwise_cons] at hsorted
      rw [List.dropWhile_cons] at hmem
      split at hmem
      · exact ih hsorted.2 (fun later hlater => hafter later (List.mem_cons_of_mem _ hlater)) hmem
      · next hbeside =>
          have hfirst : ¬ way <+: first := fun h => hbeside (List.isPrefixOf_iff_prefix.2 h)
          rcases List.mem_cons.1 hmem with rfl | hrest
          · exact hfirst
          · exact not_prefix_of_lt (hafter first List.mem_cons_self) hfirst
              (hsorted.1 other hrest)

/-- In order the continuations of a list stand right behind it. -/
theorem exists_continuations {before after : List (List Nat)} (hsorted : ways.Pairwise (· < ·))
    (hsplit : ways = before ++ way :: after) :
    ∃ below later, after = below ++ later ∧
      ∀ other, other ∈ below ↔ other ∈ ways ∧ way <+: other ∧ other ≠ way := by
  subst hsplit
  rw [List.pairwise_append, List.pairwise_cons] at hsorted
  obtain ⟨-, ⟨hafter, hlater⟩, hbefore⟩ := hsorted
  -- In order no continuation comes any more once a list behind is none.
  refine ⟨after.takeWhile (way.isPrefixOf ·), after.dropWhile (way.isPrefixOf ·),
    List.takeWhile_append_dropWhile.symm, ?_⟩
  intro other
  constructor
  · intro hmem
    have hbehind : other ∈ after := List.takeWhile_subset _ hmem
    have hstarts : way <+: other := List.isPrefixOf_iff_prefix.1 (List.mem_takeWhile_imp hmem)
    refine ⟨by simp [hbehind], hstarts, ?_⟩
    rintro rfl
    exact List.lt_irrefl _ (hafter _ hbehind)
  · rintro ⟨hmem, hstarts, hne⟩
    have hbehind : other ∈ after := by
      rcases List.mem_append.1 hmem with hfront | hback
      · have hlt := hbefore other hfront way List.mem_cons_self
        exact absurd hlt hstarts.le
      · exact (List.mem_cons.1 hback).resolve_left hne
    rw [← List.takeWhile_append_dropWhile (p := (way.isPrefixOf ·)) (l := after)] at hbehind
    rcases List.mem_append.1 hbehind with hbelow | hrest
    · exact hbelow
    · exact absurd hstarts (not_prefix_of_mem_dropWhile hlater hafter hrest)

/-! ## Paths -/

theorem Path.way_ne_nil (hpath : graph.Path start way passed item) : way ≠ [] := by
  cases hpath with
  | first _ => simp
  | next _ _ _ _ => simp

theorem Path.unique {others : List TypeDef} (hpath : graph.Path start way passed item)
    (hother : graph.Path start way others other) : passed = others ∧ item = other := by
  -- Equal positions are equally many, so both paths end with the same kind of step.
  induction hpath generalizing others other with
  | @first position field hfield =>
      generalize hway : [position] = same at hother
      cases hother with
      | first hagain =>
          rw [List.cons.injEq] at hway
          rw [← hway.1, hfield, Option.some.injEq] at hagain
          exact ⟨rfl, congrArg Item.field hagain⟩
      | next hshorter _ _ _ =>
          have hlength := congrArg List.length hway
          have hne := List.length_pos_of_ne_nil hshorter.way_ne_nil
          rw [List.length_append, List.length_singleton, List.length_singleton] at hlength
          omega
  | @next way passed item part type position hpath hget hnew hpart ih =>
      generalize hway : way ++ [position] = same at hother
      cases hother with
      | first _ =>
          have hlength := congrArg List.length hway
          have hne := List.length_pos_of_ne_nil hpath.way_ne_nil
          rw [List.length_append, List.length_singleton, List.length_singleton] at hlength
          omega
      | next hshorter hagain _ hpartAgain =>
          obtain ⟨rfl, hposition⟩ := List.append_inj' hway rfl
          obtain ⟨rfl, rfl⟩ := ih hshorter
          rw [hget, Option.some.injEq] at hagain
          subst hagain
          rw [List.cons.injEq] at hposition
          rw [← hposition.1, hpart, Option.some.injEq] at hpartAgain
          exact ⟨rfl, hpartAgain⟩

/-- A path goes on only from a type that it has not passed before. -/
theorem Path.of_longer {long rest : List Nat} {position : Nat}
    (hpath : graph.Path start long passed item) (hlong : long = way ++ position :: rest)
    (hway : way ≠ []) :
    ∃ before last type, graph.Path start way before last ∧
      graph.index.get? last.target = some type ∧ type ∉ before ∧ type.parts ≠ [] := by
  induction hpath generalizing rest with
  | first _ =>
      have hlength := congrArg List.length hlong
      have hne := List.length_pos_of_ne_nil hway
      rw [List.length_append, List.length_singleton, List.length_cons] at hlength
      omega
  | @next shorter passed item part type last hpath hget hnew hpart ih =>
      rcases List.eq_nil_or_concat rest with rfl | ⟨front, final, rfl⟩
      · obtain ⟨rfl, -⟩ := List.append_inj' hlong rfl
        refine ⟨passed, item, type, hpath, hget, hnew, ?_⟩
        intro hnil
        simp [hnil] at hpart
      · rw [List.concat_eq_append, ← List.cons_append, ← List.append_assoc] at hlong
        obtain ⟨hshorter, -⟩ := List.append_inj' hlong rfl
        exact ih hshorter

/-! ## Paths and places -/

theorem Place.mem_types (hindexed : graph.IsIndexed) {chain : List String}
    (hplace : graph.Place chain items way opened item) : ∀ type ∈ opened, type ∈ graph.types := by
  induction hplace with
  | first _ => simp
  | next _ hget _ _ ih =>
      intro other hother
      rcases List.mem_cons.1 hother with rfl | hother
      · exact ((hindexed _ _).1 hget).1
      · exact ih other hother

/-- In a graph of types with different names the names tell which types were passed. -/
theorem name_mem_passed_iff (hindexed : graph.IsIndexed) (htype : type ∈ graph.types)
    (hpassed : ∀ other ∈ passed, other ∈ graph.types) :
    type.name ∈ passed.map (·.name) ↔ type ∈ passed := by
  constructor
  · intro hmem
    obtain ⟨other, hother, hname⟩ := List.mem_map.1 hmem
    rw [← hindexed.eq_of_name_eq (hpassed other hother) htype hname]
    exact hother
  · exact List.mem_map_of_mem

theorem getElem?_parts_eq_some_iff {fields : List Field} (hfields : start.fields? = some fields)
    {position : Nat} :
    start.parts[position]? = some item ↔
      ∃ field, start.fields[position]? = some field ∧ item = .field field := by
  rw [TypeDef.parts_of_fields? hfields, TypeDef.fields, hfields, Option.getD_some,
    List.getElem?_map, Option.map_eq_some_iff]
  simp only [eq_comm]

theorem Place.name_mem_iff (hindexed : graph.IsIndexed) (hstart : start ∈ graph.types)
    (hplace : graph.Place [start.name] items way opened item) (htype : type ∈ graph.types) :
    type.name ∈ opened.map (·.name) ++ [start.name] ↔ type ∈ opened ++ [start] := by
  have hpassed : ∀ other ∈ opened ++ [start], other ∈ graph.types := by
    intro other hother
    rcases List.mem_append.1 hother with hopened | hlast
    · exact hplace.mem_types hindexed other hopened
    · rw [List.mem_singleton.1 hlast]
      exact hstart
  rw [← name_mem_passed_iff hindexed htype hpassed, List.map_append, List.map_singleton]

theorem path_iff_place (hindexed : graph.IsIndexed) (hstart : start ∈ graph.types)
    {fields : List Field} (hfields : start.fields? = some fields) :
    graph.Path start way passed item ↔
      ∃ opened, passed = opened ++ [start] ∧
        graph.Place [start.name] start.parts way opened item := by
  constructor
  · intro hpath
    induction hpath with
    | first hfield =>
        exact ⟨[], rfl, .first ((getElem?_parts_eq_some_iff hfields).2 ⟨_, hfield, rfl⟩)⟩
    | @next way passed item part type position _ hget hnot hpart ih =>
        obtain ⟨opened, rfl, hplace⟩ := ih
        have hnew := (hplace.name_mem_iff hindexed hstart ((hindexed _ _).1 hget).1).not.2 hnot
        exact ⟨type :: opened, rfl, hplace.next hget hnew hpart⟩
  · rintro ⟨opened, rfl, hplace⟩
    induction hplace with
    | first hitem =>
        obtain ⟨field, hfield, rfl⟩ := (getElem?_parts_eq_some_iff hfields).1 hitem
        exact .first hfield
    | @next way opened item part type position hplace hget hnot hpart ih =>
        have hnew := (hplace.name_mem_iff hindexed hstart ((hindexed _ _).1 hget).1).not.1 hnot
        exact ih.next hget hnew hpart

/-! ## The lines of paths -/

theorem isPathLine_of_isLineAt (hindexed : graph.IsIndexed) (hstart : start ∈ graph.types)
    {fields : List Field} (hfields : start.fields? = some fields) {line : Line}
    (hline : graph.IsLineAt [start.name] start.parts 0 way line) :
    graph.IsPathLine start way line := by
  obtain ⟨opened, item, type, hplace, hget, rfl⟩ := hline
  have htype := ((hindexed _ _).1 hget).1
  have hpath : graph.Path start way (opened ++ [start]) item :=
    (path_iff_place hindexed hstart hfields).2 ⟨opened, rfl, hplace⟩
  refine ⟨_, item, type, hpath, hget, ?_⟩
  rw [Line.mk.injEq]
  refine ⟨?_, rfl, ?_⟩
  · rw [hplace.length_way]
    omega
  · simp only [TypeDef.endingBelow, TypeDef.endingAfter, hplace.name_mem_iff hindexed hstart htype]

theorem eq_of_not_opened {line : Line} (hline : graph.IsPathLine start way line)
    (hending : line.ending ≠ .opened) {longer : List Nat} {others : List TypeDef}
    (hother : graph.Path start longer others other) (hstarts : way <+: longer) : longer = way := by
  obtain ⟨passed, item, type, hpath, hget, rfl⟩ := hline
  obtain ⟨rest, rfl⟩ := hstarts
  cases rest with
  | nil => exact List.append_nil way
  | cons position rest =>
      obtain ⟨before, last, next, hbefore, hnext, hnew, hparts⟩ :=
        hother.of_longer rfl hpath.way_ne_nil
      obtain ⟨rfl, rfl⟩ := hpath.unique hbefore
      rw [hget, Option.some.injEq] at hnext
      subst hnext
      have hsome : type.parts?.isNone = false := by
        cases hnone : type.parts? with
        | none => exact absurd (by simp [TypeDef.parts, hnone]) hparts
        | some parts => rfl
      simp [TypeDef.endingAfter, hsome, hnew] at hending

theorem ListsPlaces.listsPaths (hindexed : graph.IsIndexed) (hstart : start ∈ graph.types)
    {fields : List Field} (hfields : start.fields? = some fields) {lines : List Line}
    (hlists : graph.ListsPlaces [start.name] start.parts 0 ways lines) :
    graph.ListsPaths start ways lines := by
  have hmem : ∀ way, way ∈ ways ↔ ∃ passed item, graph.Path start way passed item := by
    intro way
    rw [hlists.mem_iff]
    simp only [path_iff_place hindexed hstart hfields]
    constructor
    · rintro ⟨opened, item, hplace⟩
      exact ⟨_, item, opened, rfl, hplace⟩
    · rintro ⟨-, item, opened, -, hplace⟩
      exact ⟨opened, item, hplace⟩
  have hlines : List.Forall₂ (graph.IsPathLine start) ways lines :=
    hlists.isLineAt.imp fun _ _ hline => isPathLine_of_isLineAt hindexed hstart hfields hline
  refine ⟨hlists.sorted, hmem, hlines, ?_, ?_⟩
  · intro before way after hsplit
    exact exists_continuations hlists.sorted hsplit
  · intro way line hpair hending longer hlonger hstarts
    obtain ⟨others, other, hother⟩ := (hmem longer).1 hlonger
    exact eq_of_not_opened (List.forall₂_iff_zip.1 hlines |>.2 hpair) hending hother hstarts

/-- Unless there is no room for it, what is listed below a type are the lines of its paths. -/
theorem fieldLines_list_paths [Runtime] {types : List TypeDef} {directives : List String}
    (hnames : (types.map (·.name)).Nodup) (hclosed : (ofTypes types directives).IsClosed)
    {start : TypeDef} (hstart : start ∈ types) (hkind : start.fields?.isSome = true)
    (under : List Call) :
    let graph := ofTypes types directives
    (graph.fieldLines start 0 [start.name] under = .error .tooDeep ↔
        graph.LacksRoom under [start.name] start) ∧
      (¬ graph.LacksRoom under [start.name] start →
        ∃ ways lines, graph.fieldLines start 0 [start.name] under = .ok (lines.map Line.render) ∧
          graph.ListsPaths start ways lines) := by
  intro graph
  have hindexed : graph.IsIndexed := isIndexed_ofTypes directives hnames
  have hresolved : graph.IsResolved := hclosed.isResolved hindexed
  obtain ⟨fields, hfields⟩ := Option.isSome_iff_exists.1 hkind
  rcases fieldLines_outcome hresolved (.inl hstart) hfields [start.name] 0 under with
    ⟨hroom, hok, ways, hlists⟩ | ⟨hlacks, herror⟩
  · rw [hok]
    refine ⟨?_, fun _ => ⟨ways, _, rfl, hlists.listsPaths hindexed hstart hfields⟩⟩
    simp [hroom]
  · rw [herror]
    exact ⟨by simp [hlacks], fun hroom => absurd hlacks hroom⟩

section Usual

attribute [local instance] Runtime.usual

/-- In the small graph the outline of `Query` comes to the interface that lists itself. -/
theorem shelfTypes_fieldLines_list_paths :
    ∃ ways lines,
      (ofTypes shelfTypes).fieldLines shelfTypes[0] 0 ["Query"] = .ok (lines.map Line.render) ∧
        (ofTypes shelfTypes).ListsPaths shelfTypes[0] ways lines ∧ [0, 1, 0] ∈ ways := by
  have hstart : shelfTypes[0] ∈ shelfTypes := by decide
  have hroom := not_lacksRoom_shelfTypes hstart ["Query"] (by decide : [].length ≤ 2)
  have hkind : shelfTypes[0].fields?.isSome = true := by decide
  have hpaths := fieldLines_list_paths nodup_names_shelfTypes isClosed_shelfTypes hstart hkind []
  obtain ⟨ways, lines, hok, hlists⟩ := hpaths.2 hroom
  refine ⟨ways, lines, hok, hlists, (hlists.mem_iff _).2 ?_⟩
  have hshelf : (ofTypes shelfTypes).Path shelfTypes[0] [0] [shelfTypes[0]] _ := .first rfl
  have habove : (ofTypes shelfTypes).Path shelfTypes[0] [0, 1] [shelfTypes[1], shelfTypes[0]] _ :=
    hshelf.next (by decide) (by decide) rfl
  have hplaced : (ofTypes shelfTypes).Path shelfTypes[0] [0, 1, 0]
      [shelfTypes[4], shelfTypes[1], shelfTypes[0]] _ :=
    habove.next (by decide) (by decide) rfl
  exact ⟨_, _, hplaced⟩

/-- In a tower of 501 unions there are paths, and still no lines come out. -/
theorem tower_has_no_field_lines :
    ((tower 500).map (·.name)).Nodup ∧ (ofTypes (tower 500)).IsClosed ∧
      towerObject 500 ∈ tower 500 ∧ (towerObject 500).fields?.isSome = true ∧
      ∀ lines, (ofTypes (tower 500)).fieldLines (towerObject 500) 0 ["Settings"] ≠ .ok lines := by
  have hchain : ∀ level, floorName level ∉ ["Settings"] := by
    intro level hmem
    exact floorName_ne_settings level (List.mem_singleton.1 hmem)
  refine ⟨nodup_names_tower 500, isClosed_tower 500, towerObject_mem_tower 500, rfl, ?_⟩
  intro lines hok
  rw [fieldLines_tower hchain 0] at hok
  contradiction

end Usual

end TypeGraph

end ConfigSchema
