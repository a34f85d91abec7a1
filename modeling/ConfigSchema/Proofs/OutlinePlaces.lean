import ConfigSchema.Proofs.OutlineOutcome

/-!
# Places of an outline

A place is told by the positions of the steps that lead to it: the position of an item, that of a
part of its type, and so on, as long as the types on the way are different from each other and
from those of the chain.  An outline that comes to its end has one line for each place, and the
lines stand in the order of the positions.  It fails only at a place whose name stands for no type
or where there is no room for the calls that lead to it.
-/

namespace ConfigSchema

/-- How the line of a type ends below types with the given names. -/
def TypeDef.endingBelow (names : List String) (type : TypeDef) : Ending :=
  if type.parts?.isNone then .leaf
  else if type.name ∈ names then .backReference type.name
  else .opened

namespace TypeGraph

/-- The positions of the steps to an item, and the types that are opened on the way, the latest
first. -/
inductive Place (graph : TypeGraph) (chain : List String) (items : List Item) :
    List Nat → List TypeDef → Item → Prop
  | first {position : Nat} {item : Item} (hitem : items[position]? = some item) :
      Place graph chain items [position] [] item
  | next {way : List Nat} {opened : List TypeDef} {item part : Item} {type : TypeDef}
      {position : Nat} (hplace : Place graph chain items way opened item)
      (hget : graph.index.get? item.target = some type)
      (hnew : type.name ∉ opened.map (·.name) ++ chain)
      (hpart : type.parts[position]? = some part) :
      Place graph chain items (way ++ [position]) (type :: opened) part

/-- The calls that lead to an item below opened types and label its type. -/
def callsBelow (opened : List TypeDef) (item : Item) : List Call :=
  item.calls ++ opened.flatMap (·.partsCalls)

/-- The line of a place. -/
def IsLineAt (graph : TypeGraph) (chain : List String) (items : List Item) (level : Int)
    (way : List Nat) (line : Line) : Prop :=
  ∃ opened item type, graph.Place chain items way opened item ∧
    graph.index.get? item.target = some type ∧
    line = { level := level + opened.length, head := item.head type,
             ending := type.endingBelow (opened.map (·.name) ++ chain) }

/-- All places in the order of their positions, and their lines. -/
structure ListsPlaces (graph : TypeGraph) (chain : List String) (items : List Item) (level : Int)
    (ways : List (List Nat)) (lines : List Line) : Prop where
  sorted : ways.Pairwise (· < ·)
  mem_iff : ∀ way, way ∈ ways ↔ ∃ opened item, graph.Place chain items way opened item
  isLineAt : List.Forall₂ (graph.IsLineAt chain items level) ways lines

variable {graph : TypeGraph} {chain : List String} {items rest : List Item} {item part : Item}
  {way : List Nat} {opened : List TypeDef} {type : TypeDef} {level : Int}

/-! ## Places -/

theorem Place.length_way (hplace : graph.Place chain items way opened part) :
    way.length = opened.length + 1 := by
  induction hplace with
  | first _ => rfl
  | next _ _ _ _ ih => simp [ih]

theorem Place.way_ne_nil (hplace : graph.Place chain items way opened part) : way ≠ [] := by
  have hlength := hplace.length_way
  intro hnil
  simp [hnil] at hlength

theorem not_place_nil : ¬ graph.Place chain [] way opened part := by
  intro hplace
  induction hplace with
  | first hitem => simp at hitem
  | next _ _ _ _ ih => exact ih

private theorem behind_append {way : List Nat} (hway : way ≠ []) (later : List Nat) :
    (way ++ later).modifyHead (· + 1) = way.modifyHead (· + 1) ++ later := by
  cases way with
  | nil => exact absurd rfl hway
  | cons position way => rfl

theorem place_head : graph.Place chain (item :: rest) [0] [] item :=
  .first rfl

theorem Place.behind (hplace : graph.Place chain rest way opened part) :
    graph.Place chain (item :: rest) (way.modifyHead (· + 1)) opened part := by
  induction hplace with
  | first hitem => exact .first hitem
  | next hplace hget hnew hpart ih =>
      rw [behind_append hplace.way_ne_nil]
      exact .next ih hget hnew hpart

theorem Place.inside (hget : graph.index.get? item.target = some type) (hnew : type.name ∉ chain)
    (hplace : graph.Place (type.name :: chain) type.parts way opened part) :
    graph.Place chain (item :: rest) (0 :: way) (opened ++ [type]) part := by
  induction hplace with
  | first hpart =>
      exact place_head.next hget hnew hpart
  | next _ hnext hother hpart ih =>
      refine ih.next hnext ?_ hpart
      simpa using hother

/-- A place is the first item, behind it, or below it. -/
theorem place_cons_cases (hplace : graph.Place chain (item :: rest) way opened part) :
    (way = [0] ∧ opened = [] ∧ part = item) ∨
      (∃ shorter, way = shorter.modifyHead (· + 1) ∧
        graph.Place chain rest shorter opened part) ∨
      ∃ type lower others, graph.index.get? item.target = some type ∧ type.name ∉ chain ∧
        way = 0 :: lower ∧ opened = others ++ [type] ∧
        graph.Place (type.name :: chain) type.parts lower others part := by
  induction hplace with
  | @first position part hitem =>
      cases position with
      | zero =>
          have hsame : item = part := by simpa using hitem
          exact .inl ⟨rfl, rfl, hsame.symm⟩
      | succ position =>
          have hrest : rest[position]? = some part := by simpa using hitem
          exact .inr (.inl ⟨[position], rfl, .first hrest⟩)
  | @next way opened other part type position hplace hget hnew hpart ih =>
      rcases ih with ⟨rfl, rfl, rfl⟩ | ⟨shorter, rfl, hshorter⟩ |
        ⟨first, lower, others, hfirst, hopen, rfl, rfl, hlower⟩
      · have hnew' : type.name ∉ chain := by simpa using hnew
        exact .inr (.inr ⟨type, [position], [], hget, hnew', rfl, rfl, .first hpart⟩)
      · refine .inr (.inl ⟨shorter ++ [position], ?_, hshorter.next hget hnew hpart⟩)
        rw [behind_append hshorter.way_ne_nil]
      · refine .inr (.inr ⟨first, lower ++ [position], type :: others, hfirst, hopen, rfl, rfl, ?_⟩)
        refine hlower.next hget ?_ hpart
        simpa using hnew

/-! ## The lines of places -/

theorem listsPlaces_nil : graph.ListsPlaces chain [] level [] [] where
  sorted := .nil
  mem_iff := by
    intro way
    constructor
    · intro hmem
      simp at hmem
    · rintro ⟨opened, part, hplace⟩
      exact absurd hplace not_place_nil
  isLineAt := .nil

private theorem lt_behind {way : List Nat} (hway : way ≠ []) (lower : List Nat) :
    0 :: lower < way.modifyHead (· + 1) := by
  cases way with
  | nil => exact absurd rfl hway
  | cons position later =>
      rw [List.modifyHead_cons, List.cons_lt_cons_iff]
      exact .inl (Nat.succ_pos position)

private theorem behind_lt_behind {first second : List Nat} (hlt : first < second)
    (hfirst : first ≠ []) : first.modifyHead (· + 1) < second.modifyHead (· + 1) := by
  cases first with
  | nil => exact absurd rfl hfirst
  | cons one ones =>
      cases second with
      | nil => exact absurd hlt (List.not_lt_nil _)
      | cons other others =>
          rw [List.cons_lt_cons_iff] at hlt
          rw [List.modifyHead_cons, List.modifyHead_cons, List.cons_lt_cons_iff]
          exact hlt.imp Nat.succ_lt_succ fun heq => ⟨congrArg (· + 1) heq.1, heq.2⟩

variable {below others : List (List Nat)} {sublines lines : List Line}

private theorem sorted_cons (hbelow : below.Pairwise (· < ·)) (hnonempty : ∀ way ∈ below, way ≠ [])
    (hothers : others.Pairwise (· < ·)) (hother : ∀ way ∈ others, way ≠ []) :
    ([0] :: (below.map (0 :: ·) ++ others.map (List.modifyHead (· + 1)))).Pairwise (· < ·) := by
  rw [List.pairwise_cons, List.pairwise_append, List.pairwise_map, List.pairwise_map]
  refine ⟨?_, ?_, ?_, ?_⟩
  · intro way hway
    rcases List.mem_append.1 hway with hway | hway
    · obtain ⟨lower, hlower, rfl⟩ := List.mem_map.1 hway
      rw [List.cons_lt_cons_iff]
      refine .inr ⟨rfl, ?_⟩
      obtain ⟨position, later, hlater⟩ := List.exists_cons_of_ne_nil (hnonempty lower hlower)
      rw [hlater]
      exact List.nil_lt_cons position later
    · obtain ⟨shorter, hshorter, rfl⟩ := List.mem_map.1 hway
      exact lt_behind (hother shorter hshorter) []
  · apply hbelow.imp
    intro first second hlt
    rw [List.cons_lt_cons_iff]
    exact .inr ⟨rfl, hlt⟩
  · apply hothers.imp_of_mem
    intro first second hfirst _ hlt
    exact behind_lt_behind hlt (hother first hfirst)
  · intro first hfirst second hsecond
    obtain ⟨lower, -, rfl⟩ := List.mem_map.1 hfirst
    obtain ⟨shorter, hshorter, rfl⟩ := List.mem_map.1 hsecond
    exact lt_behind (hother shorter hshorter) lower

theorem ListsPlaces.way_ne_nil {ways : List (List Nat)}
    (hlists : graph.ListsPlaces chain items level ways lines) : ∀ way ∈ ways, way ≠ [] := by
  intro way hway
  obtain ⟨opened, part, hplace⟩ := (hlists.mem_iff way).1 hway
  exact hplace.way_ne_nil

/-- The lines of an item, of what is opened below it, and of what stands behind it. -/
theorem ListsPlaces.cons (hget : graph.index.get? item.target = some type)
    (hopen : type.name ∉ chain →
      graph.ListsPlaces (type.name :: chain) type.parts (level + 1) below sublines)
    (hclosed : type.name ∈ chain → below = [] ∧ sublines = [])
    (hrest : graph.ListsPlaces chain rest level others lines) :
    graph.ListsPlaces chain (item :: rest) level
      ([0] :: (below.map (0 :: ·) ++ others.map (List.modifyHead (· + 1))))
      ({ level, head := item.head type, ending := type.endingBelow chain } ::
        (sublines ++ lines)) := by
  have hbelow : ∀ lower ∈ below, type.name ∉ chain := by
    intro lower hlower hold
    rw [(hclosed hold).1] at hlower
    simp at hlower
  constructor
  · apply sorted_cons
    · by_cases hold : type.name ∈ chain
      · rw [(hclosed hold).1]
        exact .nil
      · exact (hopen hold).sorted
    · intro lower hlower
      exact (hopen (hbelow lower hlower)).way_ne_nil lower hlower
    · exact hrest.sorted
    · exact hrest.way_ne_nil
  · intro way
    rw [List.mem_cons, List.mem_append, List.mem_map, List.mem_map]
    constructor
    · rintro (rfl | ⟨lower, hlower, rfl⟩ | ⟨shorter, hshorter, rfl⟩)
      · exact ⟨[], item, place_head⟩
      · have hnew := hbelow lower hlower
        obtain ⟨opened, part, hplace⟩ := ((hopen hnew).mem_iff lower).1 hlower
        exact ⟨_, part, hplace.inside hget hnew⟩
      · obtain ⟨opened, part, hplace⟩ := (hrest.mem_iff shorter).1 hshorter
        exact ⟨opened, part, hplace.behind⟩
    · rintro ⟨opened, part, hplace⟩
      rcases place_cons_cases hplace with ⟨rfl, -, -⟩ | ⟨shorter, rfl, hshorter⟩ |
        ⟨other, lower, others, hother, hnew, rfl, rfl, hlower⟩
      · exact .inl rfl
      · exact .inr (.inr ⟨shorter, (hrest.mem_iff shorter).2 ⟨_, part, hshorter⟩, rfl⟩)
      · rw [hget, Option.some.injEq] at hother
        subst other
        exact .inr (.inl ⟨lower, ((hopen hnew).mem_iff lower).2 ⟨_, part, hlower⟩, rfl⟩)
  · refine .cons ?_ (List.rel_append ?_ ?_)
    · exact ⟨[], item, type, place_head, hget, by simp⟩
    · rw [List.forall₂_map_left_iff]
      by_cases hold : type.name ∈ chain
      · rw [(hclosed hold).1, (hclosed hold).2]
        exact .nil
      apply (hopen hold).isLineAt.imp
      rintro lower line ⟨opened, part, other, hplace, hother, rfl⟩
      refine ⟨opened ++ [type], part, other, hplace.inside hget hold, hother, ?_⟩
      rw [Line.mk.injEq]
      refine ⟨?_, rfl, ?_⟩
      · rw [List.length_append, List.length_singleton]
        omega
      · simp
    · rw [List.forall₂_map_left_iff]
      apply hrest.isLineAt.imp
      rintro shorter line ⟨opened, part, other, hplace, hother, rfl⟩
      exact ⟨opened, part, other, hplace.behind, hother, rfl⟩

/-! ## What an outline comes to -/

theorem callsBelow_nil (item : Item) : callsBelow [] item = item.calls :=
  List.append_nil item.calls

theorem callsBelow_concat (opened : List TypeDef) (type : TypeDef) (part : Item)
    (under : List Call) :
    callsBelow (opened ++ [type]) part ++ under =
      callsBelow opened part ++ (type.partsCalls ++ under) := by
  simp [callsBelow]

variable [Runtime]

/-- The outline of items that other calls have led to. -/
inductive Account (graph : TypeGraph) (chain : List String) (items : List Item) (level : Int)
    (under : List Call) : Traced Line GraphError Unit → Prop
  | finished {ways : List (List Nat)} {lines : List Line}
      (hlists : graph.ListsPlaces chain items level ways lines)
      (hroom : ∀ way opened part, graph.Place chain items way opened part →
        Runtime.hasRoom (callsBelow opened part ++ under) = true) :
      Account graph chain items level under { trail := lines, result := .ok () }
  | tooDeep {lines : List Line} {way : List Nat} {opened : List TypeDef} {part : Item}
      (hplace : graph.Place chain items way opened part)
      (hfull : Runtime.hasRoom (callsBelow opened part ++ under) = false) :
      Account graph chain items level under { trail := lines, result := .error .tooDeep }
  | unknown {lines : List Line} {way : List Nat} {opened : List TypeDef} {part : Item}
      (hplace : graph.Place chain items way opened part)
      (hunknown : part.target ∉ graph.index.names) :
      Account graph chain items level under
        { trail := lines, result := .error (.unknownType part.target) }

variable {under : List Call} {outcome : Traced Line GraphError Unit}

theorem account_nil : graph.Account chain [] level under (pure ()) := by
  apply Account.finished listsPlaces_nil
  intro way opened part hplace
  exact absurd hplace not_place_nil

theorem Account.cons (hhere : Runtime.hasRoom (item.calls ++ under) = true)
    (hget : graph.index.get? item.target = some type)
    (hopen : type.name ∉ chain → graph.Account (type.name :: chain) type.parts (level + 1)
      (type.partsCalls ++ under) { trail := sublines, result := .ok () })
    (hclosed : type.name ∈ chain → sublines = [])
    (hrest : graph.Account chain rest level under outcome) :
    graph.Account chain (item :: rest) level under
      { trail := { level, head := item.head type, ending := type.endingBelow chain } ::
          (sublines ++ outcome.trail)
        result := outcome.result } := by
  cases hrest with
  | tooDeep hplace hfull => exact .tooDeep hplace.behind hfull
  | unknown hplace hunknown => exact .unknown hplace.behind hunknown
  | finished hlists hroom =>
      have hinside : ∃ below, (type.name ∉ chain →
            graph.ListsPlaces (type.name :: chain) type.parts (level + 1) below sublines) ∧
          (type.name ∈ chain → below = [] ∧ sublines = []) := by
        by_cases hold : type.name ∈ chain
        · exact ⟨[], fun hnew => absurd hold hnew, fun _ => ⟨rfl, hclosed hold⟩⟩
        · cases hopen hold with
          | finished hlower _ => exact ⟨_, fun _ => hlower, fun hmem => absurd hmem hold⟩
      obtain ⟨below, hlower, hnone⟩ := hinside
      refine .finished (hlists.cons hget hlower hnone) ?_
      intro way opened part hplace
      rcases place_cons_cases hplace with ⟨-, rfl, rfl⟩ | ⟨shorter, -, hshorter⟩ |
        ⟨other, lower, others, hother, hnew, -, rfl, hpart⟩
      · rw [callsBelow_nil]
        exact hhere
      · exact hroom shorter opened part hshorter
      · rw [hget, Option.some.injEq] at hother
        subst other
        cases hopen hnew with
        | finished _ hroomBelow =>
            rw [callsBelow_concat]
            exact hroomBelow lower others part hpart

theorem Account.of_inside_error (hget : graph.index.get? item.target = some type)
    (hnew : type.name ∉ chain) {e : GraphError} (hresult : outcome.result = .error e)
    (hinside : graph.Account (type.name :: chain) type.parts (level + 1)
      (type.partsCalls ++ under) outcome) (lines : List Line) :
    graph.Account chain (item :: rest) level under { trail := lines, result := .error e } := by
  cases hinside with
  | finished _ _ => contradiction
  | tooDeep hplace hfull =>
      cases hresult
      refine .tooDeep (hplace.inside hget hnew) ?_
      rw [callsBelow_concat]
      exact hfull
  | unknown hplace hunknown =>
      cases hresult
      exact .unknown (hplace.inside hget hnew) hunknown

theorem outline_account (chain : List String) (level : Int) (under : List Call)
    (items : List Item) :
    graph.Account chain items level under (graph.outline chain level under items) := by
  fun_induction graph.outline chain level under items with
  | case1 chain level under => exact account_nil
  | case2 chain level under item rest hfull =>
      apply Account.tooDeep place_head
      rw [callsBelow_nil]
      simpa using hfull
  | case3 chain level under item rest hroom hnone =>
      exact .unknown place_head (Entries.get?_eq_none_iff.1 hnone)
  | case4 chain level under item rest hroom type hget hparts ih =>
      -- Below a type without parts there is nothing, be it on the chain or not.
      have hempty : type.parts = [] := by
        rw [TypeDef.parts, hparts]
        rfl
      have hending : type.endingBelow chain = .leaf := by
        simp [TypeDef.endingBelow, hparts]
      rw [Traced.bind_of_ok (by rfl : (Traced.leave _).result = .ok ()), ← hending]
      have hopen : type.name ∉ chain → graph.Account (type.name :: chain) type.parts (level + 1)
          (type.partsCalls ++ under) { trail := [], result := .ok () } := by
        intro _
        rw [hempty]
        exact account_nil
      exact Account.cons (by simpa using hroom) hget hopen (fun _ => rfl) ih
  | case5 chain level under item rest hroom type hget parts hparts hold ih =>
      have hending : type.endingBelow chain = .backReference type.name := by
        simp [TypeDef.endingBelow, hparts, hold]
      rw [Traced.bind_of_ok (by rfl : (Traced.leave _).result = .ok ()), ← hending]
      have hopen : type.name ∉ chain → graph.Account (type.name :: chain) type.parts (level + 1)
          (type.partsCalls ++ under) { trail := [], result := .ok () } :=
        fun hnew => absurd hold hnew
      exact Account.cons (by simpa using hroom) hget hopen (fun _ => rfl) ih
  | case6 chain level under item rest hroom type hget parts hparts hnew ihparts ih =>
      have hsame : type.parts = parts := by
        rw [TypeDef.parts, hparts]
        rfl
      have hending : type.endingBelow chain = .opened := by
        simp [TypeDef.endingBelow, hparts, hnew]
      rw [← hsame] at ihparts ⊢
      rw [Traced.bind_of_ok (by rfl : (Traced.leave _).result = .ok ()), ← hending]
      cases hresult : (graph.outline (type.name :: chain) (level + 1) (type.partsCalls ++ under)
          type.parts).result with
      | error e =>
          rw [Traced.bind_of_error hresult]
          exact ihparts.of_inside_error hget hnew hresult _
      | ok _ =>
          rw [Traced.bind_of_ok hresult]
          have hopen : type.name ∉ chain → graph.Account (type.name :: chain) type.parts (level + 1)
              (type.partsCalls ++ under)
              { trail := (graph.outline (type.name :: chain) (level + 1) (type.partsCalls ++ under)
                  type.parts).trail
                result := .ok () } := by
            intro _
            rw [← hresult]
            exact ihparts
          have hclosed : type.name ∈ chain → (graph.outline (type.name :: chain) (level + 1)
              (type.partsCalls ++ under) type.parts).trail = [] :=
            fun hold => absurd hold hnew
          have haccount := Account.cons (by simpa using hroom) hget hopen hclosed ih
          exact haccount

end TypeGraph

end ConfigSchema
