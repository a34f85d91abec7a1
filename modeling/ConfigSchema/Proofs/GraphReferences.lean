import ConfigSchema.Proofs.EntryLookup
import ConfigSchema.TypeGraph
import Mathlib.Data.List.Nodup
import Mathlib.Logic.Relation

/-!
# References of type graphs

What the graph of a list of types looks up, which names its types refer to, and how a name is
expanded into its variants.  A graph of types with different names finds each of its types under
the name of the type and nothing else.
-/

namespace ConfigSchema

/-- The names that a type refers to. -/
def TypeDef.references (type : TypeDef) : List String :=
  match type.shape with
  | .object fields interfaces => fields.map (·.type.base) ++ interfaces
  | .interface fields interfaces => fields.map (·.type.base) ++ interfaces
  | .union members => members
  | _ => []

theorem TypeDef.mem_references_iff {type : TypeDef} {name : String} :
    name ∈ type.references ↔
      (∃ field ∈ type.fields, field.type.base = name) ∨ name ∈ type.interfaces ∨
        ∃ members, type.shape = .union members ∧ name ∈ members := by
  rcases type with ⟨own, description, directives, shape⟩
  cases shape <;>
    simp [TypeDef.references, TypeDef.fields, TypeDef.fields?, TypeDef.interfaces]

theorem TypeDef.base_mem_references {type : TypeDef} {field : Field}
    (hfield : field ∈ type.fields) : field.type.base ∈ type.references :=
  TypeDef.mem_references_iff.2 (.inl ⟨field, hfield, rfl⟩)

theorem TypeDef.isObject_iff {type : TypeDef} :
    type.isObject = true ↔ ∃ fields interfaces, type.shape = .object fields interfaces := by
  cases hshape : type.shape <;> simp [TypeDef.isObject, hshape]

namespace TypeGraph

/-- Names stand for the types of the list that have them, and for nothing else. -/
def IsIndexed (graph : TypeGraph) : Prop :=
  ∀ name type, graph.index.get? name = some type ↔ type ∈ graph.types ∧ type.name = name

/-- Types are looked up under their own names. -/
def IsNamed (graph : TypeGraph) : Prop :=
  ∀ name type, graph.index.get? name = some type → type.name = name

/-- Every name that a type refers to stands for a type. -/
def IsClosed (graph : TypeGraph) : Prop :=
  ∀ type ∈ graph.types, ∀ name ∈ type.references, name ∈ graph.index.names

/-- A type of the list, or one that a name stands for. -/
def Holds (graph : TypeGraph) (type : TypeDef) : Prop :=
  type ∈ graph.types ∨ ∃ name, graph.index.get? name = some type

/-- Every name that a type of the graph refers to stands for a type. -/
def IsResolved (graph : TypeGraph) : Prop :=
  ∀ type, graph.Holds type → ∀ name ∈ type.references, name ∈ graph.index.names

/-- The variants of a type whose kind has some. -/
def variants? (graph : TypeGraph) (type : TypeDef) : Option (List String) :=
  match type.shape with
  | .interface .. => some (graph.implementors type.name)
  | .union members => some members
  | _ => none

/-- A name stands for a type that has the other name among its variants. -/
def Expands (graph : TypeGraph) (name variant : String) : Prop :=
  ∃ type variants, graph.index.get? name = some type ∧
    graph.variants? type = some variants ∧ variant ∈ variants

/-- A name stands for a union that lists the other name. -/
def Lists (graph : TypeGraph) (union member : String) : Prop :=
  ∃ type members, graph.index.get? union = some type ∧ type.shape = .union members ∧
    member ∈ members

/-- No union reaches itself through members. -/
def HasFiniteUnions (graph : TypeGraph) : Prop :=
  ∀ name, ¬ Relation.TransGen graph.Lists name name

/-- The variants of every type have a lower rank than the name that stands for it. -/
def RanksVariants (graph : TypeGraph) (rank : String → Nat) : Prop :=
  ∀ entry ∈ graph.index, ∀ variant ∈ (graph.variants? entry.2).getD [],
    rank variant < rank entry.1

instance (graph : TypeGraph) : Decidable graph.IsClosed :=
  inferInstanceAs (Decidable (∀ type ∈ graph.types, ∀ name ∈ type.references,
    name ∈ graph.index.names))

instance (graph : TypeGraph) (rank : String → Nat) : Decidable (graph.RanksVariants rank) :=
  inferInstanceAs (Decidable (∀ entry ∈ graph.index,
    ∀ variant ∈ (graph.variants? entry.2).getD [], rank variant < rank entry.1))

theorem names_ofTypes (types : List TypeDef) :
    Entries.names (types.map fun type => (type.name, type)) = types.map (·.name) := by
  simp [Entries.names, Function.comp_def]

theorem isIndexed_of_unique {types : List TypeDef} (directives : List String)
    (hunique : ∀ first ∈ types, ∀ second ∈ types, first.name = second.name → first = second) :
    (ofTypes types directives).IsIndexed := by
  have hpairs : ∀ name type,
      (ofTypes types directives).index.get? name = some type →
        type ∈ types ∧ type.name = name := by
    intro name type hget
    unfold ofTypes at hget
    rw [Entries.get?_ofList] at hget
    have hmem := List.mem_reverse.1 (Entries.mem_of_get? hget)
    obtain ⟨other, hother, heq⟩ := List.mem_map.1 hmem
    rw [Prod.mk.injEq] at heq
    rcases heq with ⟨hname, rfl⟩
    exact ⟨hother, hname⟩
  intro name type
  constructor
  · exact hpairs name type
  · rintro ⟨htype, rfl⟩
    have hnamed : type.name ∈ (ofTypes types directives).index.names := by
      unfold ofTypes
      rw [Entries.mem_names_ofList_iff, names_ofTypes]
      exact List.mem_map_of_mem htype
    obtain ⟨other, hother⟩ := Option.isSome_iff_exists.1 (Entries.get?_isSome_iff.2 hnamed)
    obtain ⟨hmem, hname⟩ := hpairs _ _ hother
    rw [hother, hunique other hmem type htype hname]

theorem isIndexed_ofTypes {types : List TypeDef} (directives : List String)
    (hnames : (types.map (·.name)).Nodup) : (ofTypes types directives).IsIndexed := by
  apply isIndexed_of_unique
  intro first hfirst second hsecond hname
  exact List.inj_on_of_nodup_map hnames hfirst hsecond hname

variable {graph : TypeGraph}

theorem mem_objects_iff {type : TypeDef} :
    type ∈ graph.objects ↔ type ∈ graph.types ∧ type.isObject = true :=
  List.mem_filter

theorem mem_implementors_iff {interface name : String} :
    name ∈ graph.implementors interface ↔
      ∃ type ∈ graph.objects, interface ∈ type.interfaces ∧ type.name = name := by
  simp [implementors, and_assoc]

theorem IsIndexed.get?_name (hindexed : graph.IsIndexed) {type : TypeDef}
    (htype : type ∈ graph.types) : graph.index.get? type.name = some type :=
  (hindexed _ _).2 ⟨htype, rfl⟩

theorem IsIndexed.name_eq (hindexed : graph.IsIndexed) {name : String} {type : TypeDef}
    (hget : graph.index.get? name = some type) : type.name = name :=
  ((hindexed _ _).1 hget).2

theorem IsIndexed.isNamed (hindexed : graph.IsIndexed) : graph.IsNamed := by
  intro name type hget
  exact hindexed.name_eq hget

theorem IsIndexed.eq_of_name_eq (hindexed : graph.IsIndexed) {first second : TypeDef}
    (hfirst : first ∈ graph.types) (hsecond : second ∈ graph.types)
    (hname : first.name = second.name) : first = second := by
  have hget := hindexed.get?_name hfirst
  rw [hname, hindexed.get?_name hsecond] at hget
  exact (Option.some.inj hget).symm

theorem IsClosed.isResolved (hclosed : graph.IsClosed) (hindexed : graph.IsIndexed) :
    graph.IsResolved := by
  intro type hholds
  have htype : type ∈ graph.types := by
    rcases hholds with htype | ⟨name, hget⟩
    · exact htype
    · exact ((hindexed name type).1 hget).1
  exact hclosed type htype

theorem variants?_eq_some_iff {type : TypeDef} {variants : List String} :
    graph.variants? type = some variants ↔
      (∃ fields interfaces, type.shape = .interface fields interfaces ∧
        variants = graph.implementors type.name) ∨ type.shape = .union variants := by
  unfold variants?
  cases hshape : type.shape <;> simp [eq_comm]

theorem variants?_eq_none_of_isObject {type : TypeDef} (hkind : type.isObject = true) :
    graph.variants? type = none := by
  obtain ⟨fields, interfaces, hshape⟩ := TypeDef.isObject_iff.1 hkind
  rw [variants?, hshape]

theorem not_expands_of_isObject {name variant : String} {type : TypeDef}
    (hget : graph.index.get? name = some type) (hkind : type.isObject = true) :
    ¬ graph.Expands name variant := by
  rintro ⟨other, variants, hother, hvariants, -⟩
  rw [hget, Option.some.injEq] at hother
  subst other
  rw [variants?_eq_none_of_isObject hkind] at hvariants
  contradiction

/-- A variant is a member of a union or, of an interface, an object type. -/
theorem Expands.cases {name variant : String} (hstep : graph.Expands name variant) :
    graph.Lists name variant ∨ ∃ type ∈ graph.objects, type.name = variant := by
  obtain ⟨type, variants, hget, hvariants, hmem⟩ := hstep
  rcases variants?_eq_some_iff.1 hvariants with ⟨fields, interfaces, -, rfl⟩ | hshape
  · obtain ⟨other, hother, -, hname⟩ := mem_implementors_iff.1 hmem
    exact .inr ⟨other, hother, hname⟩
  · exact .inl ⟨type, variants, hget, hshape, hmem⟩

theorem Lists.expands {union member : String} (hlists : graph.Lists union member) :
    graph.Expands union member := by
  obtain ⟨type, members, hget, hshape, hmem⟩ := hlists
  exact ⟨type, members, hget, by rw [variants?, hshape], hmem⟩

theorem RanksVariants.lt_of_expands {rank : String → Nat} (hrank : graph.RanksVariants rank)
    {name variant : String} (hstep : graph.Expands name variant) : rank variant < rank name := by
  obtain ⟨type, variants, hget, hvariants, hmem⟩ := hstep
  refine hrank (name, type) (Entries.mem_of_get? hget) variant ?_
  rw [hvariants]
  exact hmem

theorem RanksVariants.hasFiniteUnions {rank : String → Nat} (hrank : graph.RanksVariants rank) :
    graph.HasFiniteUnions := by
  have hlt : ∀ first last, Relation.TransGen graph.Lists first last →
      rank last < rank first := by
    intro first last hpath
    induction hpath with
    | single hlists => exact hrank.lt_of_expands hlists.expands
    | tail _ hlists ih => exact Nat.lt_trans (hrank.lt_of_expands hlists.expands) ih
  intro name hcycle
  exact Nat.lt_irrefl _ (hlt name name hcycle)

/-! ## A small graph -/

/-- Types of every kind but enums; an object leads back to itself through an interface. -/
def shelfTypes : List TypeDef :=
  [{ name := "Query"
     shape := .object [{ name := "shelf", type := .required (.named "Shelf") },
       { name := "found", type := .list (.named "Thing") }] [] },
    { name := "Shelf", directives := ["withAdditionalProperties"]
      shape := .object [{ name := "label", type := .named "String" },
        { name := "above", type := .named "Placed" }] ["Placed"] },
    { name := "Book"
      shape := .object [{ name := "title", type := .required (.named "String") }] [] },
    { name := "Thing", shape := .union ["Shelf", "Book"] },
    { name := "Placed", shape := .interface [{ name := "above", type := .named "Placed" }] [] },
    { name := "String", shape := .scalar }]

def shelfRank (name : String) : Nat :=
  if name = "Thing" ∨ name = "Placed" then 1 else 0

theorem nodup_names_shelfTypes : (shelfTypes.map (·.name)).Nodup := by decide

theorem nodup_fields_shelfTypes :
    ∀ type ∈ shelfTypes, (type.fields.map (·.name)).Nodup := by decide

theorem isClosed_shelfTypes : (ofTypes shelfTypes).IsClosed := by decide

theorem ranksVariants_shelfTypes : (ofTypes shelfTypes).RanksVariants shelfRank := by decide

end TypeGraph

end ConfigSchema
