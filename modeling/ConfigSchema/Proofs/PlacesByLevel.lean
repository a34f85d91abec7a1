import ConfigSchema.Proofs.OutlinePaths
import Mathlib.Data.List.Chain

/-!
# Places by level

The places of an outline stand in depth-first order, and the parts of a type are numbered without
gaps.  So it is enough to know how many steps lead to each place to know which place it is, and what
is listed below a place is what follows it until a place that no more steps lead to.
-/

namespace ConfigSchema

/-- The place behind another one in depth-first order to which one step more leads than the level
tells. -/
def placeAfter (last : List Nat) (level : Nat) : List Nat :=
  match last.drop level with
  | [] => last ++ [0]
  | position :: _ => last.take level ++ [position + 1]

/-- The places behind another one, by their levels. -/
def placesFrom (last : List Nat) : List Nat → List (List Nat)
  | [] => []
  | level :: rest => placeAfter last level :: placesFrom (placeAfter last level) rest

/-- Places in order among which every place is that comes before one of them. -/
structure AreNumbered (ways : List (List Nat)) : Prop where
  sorted : ways.Pairwise (· < ·)
  ne_nil : ∀ way ∈ ways, way ≠ []
  above : ∀ way position, way ++ [position] ∈ ways → way = [] ∨ way ∈ ways
  beside : ∀ way position, way ++ [position + 1] ∈ ways → way ++ [position] ∈ ways

/-- A place is the next one of its level. -/
def Follows (way next : List Nat) : Prop :=
  next = placeAfter way (next.length - 1) ∧ next.length ≤ way.length + 1

/-! ## Positions in order -/

/-- What is between two continuations of a list is a continuation of it. -/
theorem exists_append_of_between {way low high other : List Nat} (hfrom : ¬ other < way ++ low)
    (hto : other < way ++ high) : ∃ rest, other = way ++ rest ∧ ¬ rest < low ∧ rest < high := by
  induction way generalizing other with
  | nil => exact ⟨other, rfl, hfrom, hto⟩
  | cons first way ih =>
      cases other with
      | nil => exact absurd (List.nil_lt_cons first (way ++ low)) hfrom
      | cons position other =>
          rw [List.cons_append, List.cons_lt_cons_iff] at hto
          rw [List.cons_append, List.cons_lt_cons_iff, not_or] at hfrom
          rcases hto with hlt | ⟨rfl, hlt⟩
          · exact absurd hlt hfrom.1
          · rcases ih (fun hless => hfrom.2 ⟨rfl, hless⟩) hlt with ⟨rest, rfl, hlow, hhigh⟩
            exact ⟨rest, rfl, hlow, hhigh⟩

theorem eq_of_lt_append_zero {way other : List Nat} (hfrom : ¬ other < way)
    (hto : other < way ++ [0]) : other = way := by
  rw [← List.append_nil way] at hfrom
  rcases exists_append_of_between hfrom hto with ⟨rest, rfl, -, hrest⟩
  cases rest with
  | nil => exact List.append_nil way
  | cons position rest =>
      rw [List.cons_lt_cons_iff] at hrest
      rcases hrest with hlt | ⟨-, hlt⟩
      · exact absurd hlt (Nat.not_lt_zero _)
      · exact absurd hlt (List.not_lt_nil _)

theorem exists_append_of_lt_succ {way other : List Nat} {position : Nat}
    (hfrom : ¬ other < way ++ [position]) (hto : other < way ++ [position + 1]) :
    ∃ rest, other = way ++ position :: rest := by
  rcases exists_append_of_between hfrom hto with ⟨rest, rfl, hlow, hhigh⟩
  cases rest with
  | nil => exact absurd (List.nil_lt_cons position []) hlow
  | cons first rest =>
      rw [List.cons_lt_cons_iff] at hlow hhigh
      have hfirst : first = position := by
        rcases hhigh with hlt | ⟨-, hlt⟩
        · omega
        · exact absurd hlt (List.not_lt_nil _)
      exact ⟨rest, by rw [hfirst]⟩

/-- What comes before the latter of two neighbours does not come behind the former. -/
theorem not_lt_of_neighbours {ways before after : List (List Nat)} {way next other : List Nat}
    (hsorted : ways.Pairwise (· < ·)) (hsplit : ways = before ++ way :: next :: after)
    (hother : other ∈ ways) (hlt : other < next) : ¬ way < other := by
  rw [hsplit] at hsorted hother
  rw [List.pairwise_append, List.pairwise_cons, List.pairwise_cons] at hsorted
  rcases hsorted with ⟨-, ⟨-, hnext, -⟩, hbefore⟩
  intro hbehind
  rcases List.mem_append.1 hother with hfront | hback
  · exact List.lt_asymm hbehind (hbefore other hfront way List.mem_cons_self)
  · rcases List.mem_cons.1 hback with rfl | hback
    · exact List.lt_irrefl _ hbehind
    · rcases List.mem_cons.1 hback with rfl | hafter
      · exact List.lt_irrefl _ hlt
      · exact List.lt_asymm hlt (hnext other hafter)

/-! ## Numbered places -/

namespace AreNumbered

variable {ways before after : List (List Nat)} {way next : List Nat}

/-- The place without steps comes before all. -/
theorem sorted_cons (hways : AreNumbered ways) : ([] :: ways).Pairwise (· < ·) := by
  rw [List.pairwise_cons]
  refine ⟨fun way hway => ?_, hways.sorted⟩
  cases way with
  | nil => exact absurd rfl (hways.ne_nil [] hway)
  | cons position way => exact List.nil_lt_cons position way

theorem follows (hways : AreNumbered ways) (hsplit : [] :: ways = before ++ way :: next :: after) :
    Follows way next := by
  have hsorted := hways.sorted_cons
  have hlt : way < next := by
    rw [hsplit, List.pairwise_append, List.pairwise_cons] at hsorted
    exact hsorted.2.1.1 next List.mem_cons_self
  have hmem : next ∈ ways := by
    have hlisted : next ∈ [] :: ways := by
      rw [hsplit]
      simp
    rcases List.mem_cons.1 hlisted with rfl | hmem
    · exact absurd hlt (List.not_lt_nil _)
    · exact hmem
  rcases List.eq_nil_or_concat next with rfl | ⟨front, position, rfl⟩
  · exact absurd rfl (hways.ne_nil [] hmem)
  rw [List.concat_eq_append] at hmem hlt hsplit ⊢
  cases position with
  | zero =>
      have hfront : front ∈ [] :: ways := by
        rcases hways.above front 0 hmem with rfl | hfront
        · exact List.mem_cons_self
        · exact List.mem_cons_of_mem [] hfront
      have hless : front ++ [] < front ++ [0] := List.append_left_lt (List.nil_lt_cons 0 [])
      rw [List.append_nil] at hless
      have hfrom := not_lt_of_neighbours hsorted hsplit hfront hless
      obtain rfl : way = front := eq_of_lt_append_zero hfrom hlt
      simp [Follows, placeAfter]
  | succ position =>
      have hbeside : front ++ [position] ∈ [] :: ways :=
        List.mem_cons_of_mem [] (hways.beside front position hmem)
      have hless : front ++ [position] < front ++ [position + 1] :=
        List.append_left_lt (List.cons_lt_cons_iff.2 (.inl (Nat.lt_succ_self position)))
      have hfrom := not_lt_of_neighbours hsorted hsplit hbeside hless
      rcases exists_append_of_lt_succ hfrom hlt with ⟨rest, rfl⟩
      simp [Follows, placeAfter]

/-- In depth-first order every place is the next one of its level. -/
theorem isChain (hways : AreNumbered ways) : List.IsChain Follows ([] :: ways) :=
  List.isChain_iff_forall_rel_of_append_cons_cons.2 fun _ _ _ _ hsplit => hways.follows hsplit

end AreNumbered

theorem placesFrom_eq_of_isChain {last : List Nat} {ways : List (List Nat)}
    (hchain : List.IsChain Follows (last :: ways)) :
    placesFrom last (ways.map fun way => way.length - 1) = ways := by
  induction ways generalizing last with
  | nil => rfl
  | cons way rest ih =>
      rw [List.isChain_cons_cons] at hchain
      rw [List.map_cons, placesFrom, ← hchain.1.1, ih hchain.2]

/-! ## Below a place -/

theorem prefix_placeAfter {way last : List Nat} {level : Nat} (hlast : way <+: last)
    (hlevel : way.length ≤ level) : way <+: placeAfter last level := by
  unfold placeAfter
  split
  · exact hlast.trans (List.prefix_append last [0])
  · exact (List.prefix_take_iff.2 ⟨hlast, hlevel⟩).trans (List.prefix_append _ _)

/-- Behind a continuation of a place the next place continues it if it has more steps. -/
theorem Follows.prefix_iff {way last next : List Nat} (hfollows : Follows last next)
    (hlast : way <+: last) (hnext : next ≠ way) :
    way <+: next ↔ way.length < next.length := by
  constructor
  · intro hstarts
    refine Nat.lt_of_le_of_ne hstarts.length_le fun hlength => ?_
    exact hnext (hstarts.eq_of_length hlength).symm
  · intro hlonger
    rw [hfollows.1]
    exact prefix_placeAfter hlast (by omega)

section Entries

variable {β : Type} {entries before after : List (List Nat × β)} {way last : List Nat}

/-- Behind a continuation of a place the entries below the place are those up to the first to which
no more steps lead. -/
theorem takeWhile_eq_filter_of_isChain
    (hchain : List.IsChain Follows (last :: after.map (·.1)))
    (hsorted : (after.map (·.1)).Pairwise (· < ·)) (hlast : way <+: last)
    (hbehind : ∀ entry ∈ after, way < entry.1) :
    (after.takeWhile fun entry => way.length < entry.1.length) =
      after.filter fun entry => way.isPrefixOf entry.1 := by
  induction after generalizing last with
  | nil => rfl
  | cons entry rest ih =>
      rw [List.map_cons, List.isChain_cons_cons] at hchain
      rw [List.map_cons, List.pairwise_cons] at hsorted
      have hlater : ∀ other ∈ rest, way < other.1 :=
        fun other hother => hbehind other (List.mem_cons_of_mem entry hother)
      have hlt : way < entry.1 := hbehind entry List.mem_cons_self
      have hne : entry.1 ≠ way := by
        intro heq
        rw [heq] at hlt
        exact List.lt_irrefl _ hlt
      have hiff := hchain.1.prefix_iff hlast hne
      by_cases hbelow : way <+: entry.1
      · have hkept : way.isPrefixOf entry.1 = true := List.isPrefixOf_iff_prefix.2 hbelow
        have hlonger : decide (way.length < entry.1.length) = true :=
          decide_eq_true (hiff.1 hbelow)
        simp only [List.takeWhile_cons, List.filter_cons, hkept, hlonger, if_true]
        rw [ih hchain.2 hsorted.2 hbelow hlater]
      · have hnone : ∀ other ∈ rest, ¬ way <+: other.1 := fun other hother =>
          TypeGraph.not_prefix_of_lt hlt hbelow (hsorted.1 other.1 (List.mem_map_of_mem hother))
        have hshorter : ¬ way.length < entry.1.length := fun hless => hbelow (hiff.2 hless)
        rw [List.takeWhile_cons_of_neg (by simpa using hshorter), eq_comm, List.filter_eq_nil_iff]
        intro other hother
        rw [List.isPrefixOf_iff_prefix]
        rcases List.mem_cons.1 hother with rfl | hrest
        · exact hbelow
        · exact hnone other hrest

/-- The entries below a place follow it right away, up to the first to which no more steps lead. -/
theorem AreNumbered.takeWhile_eq_filter (hways : AreNumbered (entries.map (·.1)))
    {entry : List Nat × β} (hsplit : entries = before ++ entry :: after) :
    (after.takeWhile fun other => entry.1.length < other.1.length) =
      entries.filter fun other => entry.1.isPrefixOf other.1 && other.1 ≠ entry.1 := by
  have hsorted := hways.sorted
  have hchain := hways.isChain
  rw [hsplit, List.map_append, List.map_cons] at hsorted hchain
  rw [List.pairwise_append, List.pairwise_cons] at hsorted
  rcases hsorted with ⟨-, ⟨hafter, hlater⟩, hbefore⟩
  have hbehind : ∀ other ∈ after, entry.1 < other.1 := fun other hother =>
    hafter other.1 (List.mem_map_of_mem hother)
  have hfront : (before.filter fun other =>
      entry.1.isPrefixOf other.1 && other.1 ≠ entry.1) = [] := by
    rw [List.filter_eq_nil_iff]
    intro other hother hboth
    rw [Bool.and_eq_true, List.isPrefixOf_iff_prefix] at hboth
    have hlt := hbefore other.1 (List.mem_map_of_mem hother) entry.1 List.mem_cons_self
    exact absurd hlt hboth.1.le
  have hback : (after.filter fun other => entry.1.isPrefixOf other.1 && other.1 ≠ entry.1) =
      after.filter fun other => entry.1.isPrefixOf other.1 := by
    refine List.filter_congr fun other hother => ?_
    have hne : other.1 ≠ entry.1 := by
      intro heq
      have hlt := hbehind other hother
      rw [heq] at hlt
      exact List.lt_irrefl _ hlt
    simp [hne]
  rw [hsplit, List.filter_append, hfront, List.nil_append, List.filter_cons_of_neg (by simp), hback]
  refine takeWhile_eq_filter_of_isChain ?_ hlater (List.prefix_refl entry.1) hbehind
  exact (hchain.suffix ⟨[] :: before.map (·.1), rfl⟩)

end Entries

/-! ## Outlines -/

namespace TypeGraph

variable {graph : TypeGraph} {chain : List String} {items : List Item} {level : Int}
  {ways : List (List Nat)} {lines : List Line}

theorem Place.above {way : List Nat} {position : Nat} {opened : List TypeDef} {part : Item}
    (hplace : graph.Place chain items (way ++ [position]) opened part) :
    way = [] ∨ ∃ opened item, graph.Place chain items way opened item := by
  generalize hlong : way ++ [position] = long at hplace
  cases hplace with
  | first hitem =>
      have hlength := congrArg List.length hlong
      rw [List.length_append, List.length_singleton, List.length_singleton] at hlength
      exact .inl (List.length_eq_zero_iff.1 (by omega))
  | next hbefore hget hnew hpart =>
      obtain ⟨rfl, -⟩ := List.append_inj' hlong rfl
      exact .inr ⟨_, _, hbefore⟩

theorem exists_getElem?_of_succ {α : Type} {list : List α} {position : Nat} {later : α}
    (hlater : list[position + 1]? = some later) : ∃ item, list[position]? = some item := by
  rcases List.getElem?_eq_some_iff.1 hlater with ⟨hbound, -⟩
  exact ⟨list[position], List.getElem?_eq_getElem (Nat.lt_of_succ_lt hbound)⟩

theorem Place.beside {way : List Nat} {position : Nat} {opened : List TypeDef} {part : Item}
    (hplace : graph.Place chain items (way ++ [position + 1]) opened part) :
    ∃ opened item, graph.Place chain items (way ++ [position]) opened item := by
  generalize hlong : way ++ [position + 1] = long at hplace
  cases hplace with
  | @first last _ hitem =>
      have hsplit : way ++ [position + 1] = [] ++ [last] := hlong
      obtain ⟨rfl, hlast⟩ := List.append_inj' hsplit rfl
      rw [← (List.cons.inj hlast).1] at hitem
      rcases exists_getElem?_of_succ hitem with ⟨before, hbefore⟩
      exact ⟨[], before, .first hbefore⟩
  | @next way opened item part type last hshorter hget hnew hpart =>
      obtain ⟨rfl, hlast⟩ := List.append_inj' hlong rfl
      rw [← (List.cons.inj hlast).1] at hpart
      rcases exists_getElem?_of_succ hpart with ⟨before, hbefore⟩
      exact ⟨type :: opened, before, hshorter.next hget hnew hbefore⟩

theorem ListsPlaces.areNumbered (hlists : graph.ListsPlaces chain items level ways lines) :
    AreNumbered ways where
  sorted := hlists.sorted
  ne_nil := by
    intro way hway
    rcases (hlists.mem_iff way).1 hway with ⟨opened, item, hplace⟩
    exact hplace.way_ne_nil
  above := by
    intro way position hway
    rcases (hlists.mem_iff _).1 hway with ⟨opened, item, hplace⟩
    exact hplace.above.imp_right (hlists.mem_iff way).2
  beside := by
    intro way position hway
    rcases (hlists.mem_iff _).1 hway with ⟨opened, item, hplace⟩
    exact (hlists.mem_iff _).2 hplace.beside

end TypeGraph

end ConfigSchema
