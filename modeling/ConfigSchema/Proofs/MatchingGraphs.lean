import ConfigSchema.Proofs.ExpansionOutcome

/-!
# Graphs that match

Two graphs match if they list the same types in the same order but for their fields, and the
fields of corresponding types correspond one to one.  How alike the fields are is left open.  The
names of matching graphs stand for corresponding types, and whatever is told of a graph without
looking at fields is the same in both: the implementors of interfaces, the members of unions, and
so the variants of every type.
-/

namespace ConfigSchema

/-! ## Lists and entries -/

theorem map_eq_map_iff {α β γ : Type} {f : α → γ} {g : β → γ} {items : List α} {others : List β} :
    items.map f = others.map g ↔
      List.Forall₂ (fun item other => f item = g other) items others := by
  rw [← List.forall₂_eq_eq_eq, List.forall₂_map_left_iff, List.forall₂_map_right_iff]

theorem map_eq_map_of_forall₂ {α β γ : Type} {f : α → γ} {g : β → γ} {items : List α}
    {others : List β} (hitems : List.Forall₂ (fun item other => f item = g other) items others) :
    items.map f = others.map g :=
  map_eq_map_iff.2 hitems

namespace Entries

section Related

variable {α β : Type} {R : String → α → β → Prop} {entries : Entries α} {others : Entries β}

/-- Entries that have the same names, and under each name values that belong together. -/
def Related (R : String → α → β → Prop) (entries : Entries α) (others : Entries β) : Prop :=
  List.Forall₂ (fun entry other => entry.1 = other.1 ∧ R entry.1 entry.2 other.2) entries others

theorem Related.names_eq (hentries : Related R entries others) : entries.names = others.names :=
  map_eq_map_of_forall₂ (hentries.imp fun _ _ hentry => hentry.1)

theorem Related.put {name : String} {value : α} {another : β} (hentries : Related R entries others)
    (hvalue : R name value another) :
    Related R (entries.put name value) (others.put name another) := by
  induction hentries with
  | nil => exact .cons ⟨rfl, hvalue⟩ .nil
  | @cons entry other rest more hentry hrest ih =>
      unfold Entries.put
      rw [← hentry.1]
      by_cases hname : entry.1 = name
      · rw [if_pos hname, if_pos hname, hname]
        exact .cons ⟨rfl, hvalue⟩ hrest
      · rw [if_neg hname, if_neg hname]
        exact .cons ⟨rfl, hentry.2⟩ ih

theorem Related.ofList (hentries : Related R entries others) :
    Related R (Entries.ofList entries) (Entries.ofList others) := by
  have hfold : ∀ (front : Entries α) (back : Entries β), Related R front back →
      Related R (entries.foldl (fun entries pair => entries.put pair.1 pair.2) front)
        (others.foldl (fun entries pair => entries.put pair.1 pair.2) back) := by
    induction hentries with
    | nil => exact fun _ _ hfront => hfront
    | @cons entry other rest more hentry hrest ih =>
        intro front back hfront
        rw [List.foldl_cons, List.foldl_cons, ← hentry.1]
        exact ih _ _ (hfront.put hentry.2)
  exact hfold [] [] .nil

theorem related_of_names (hnames : entries.names = others.names)
    (hall : ∀ name value another, (name, value) ∈ entries → (name, another) ∈ others →
      R name value another) : Related R entries others := by
  induction entries generalizing others with
  | nil =>
      cases others with
      | nil => exact .nil
      | cons another more => cases hnames
  | cons entry rest ih =>
      cases others with
      | nil => cases hnames
      | cons another more =>
          rw [names_cons, names_cons, List.cons.injEq] at hnames
          have hhead : (entry.1, another.2) ∈ another :: more := by
            rw [hnames.1]
            exact List.mem_cons_self
          have hfirst := hall entry.1 entry.2 another.2 List.mem_cons_self hhead
          have hrest := ih hnames.2 fun name value other hvalue hother =>
            hall name value other (List.mem_cons_of_mem _ hvalue) (List.mem_cons_of_mem _ hother)
          exact .cons ⟨hnames.1, hfirst⟩ hrest

end Related

variable {α : Type} {R : α → α → Prop} {pairs others : Entries α}

/-- Entries that have the same names and corresponding values. -/
def Corresponds (R : α → α → Prop) (pairs others : Entries α) : Prop :=
  List.Forall₂ (fun pair other => pair.1 = other.1 ∧ R pair.2 other.2) pairs others

theorem corresponds_iff_related : Corresponds R pairs others ↔ Related (fun _ => R) pairs others :=
  Iff.rfl

theorem Corresponds.ofList (hpairs : Corresponds R pairs others) :
    Corresponds R (Entries.ofList pairs) (Entries.ofList others) :=
  corresponds_iff_related.2 (corresponds_iff_related.1 hpairs).ofList

theorem Corresponds.names_eq (hpairs : Corresponds R pairs others) : pairs.names = others.names :=
  (corresponds_iff_related.1 hpairs).names_eq

/-- Corresponding values are found under a name, or none at all. -/
theorem Corresponds.get?_cases (hpairs : Corresponds R pairs others) (name : String) :
    pairs.get? name = none ∧ others.get? name = none ∨
      ∃ value another, pairs.get? name = some value ∧ others.get? name = some another ∧
        R value another := by
  induction hpairs with
  | nil => exact .inl ⟨rfl, rfl⟩
  | @cons pair other rest more hpair _ ih =>
      unfold Entries.get?
      rw [← hpair.1]
      by_cases hname : pair.1 = name
      · rw [if_pos hname, if_pos hname]
        exact .inr ⟨_, _, rfl, rfl, hpair.2⟩
      · rw [if_neg hname, if_neg hname]
        exact ih

end Entries

/-! ## Types -/

/-- Shapes that are the same whatever fields they have. -/
inductive TypeShape.SameButFields : TypeShape → TypeShape → Prop
  | scalar : SameButFields .scalar .scalar
  | enum (values : List String) : SameButFields (.enum values) (.enum values)
  | object (fields others : List Field) (interfaces : List String) :
      SameButFields (.object fields interfaces) (.object others interfaces)
  | interface (fields others : List Field) (interfaces : List String) :
      SameButFields (.interface fields interfaces) (.interface others interfaces)
  | union (members : List String) : SameButFields (.union members) (.union members)
  | other : SameButFields .other .other

/-- Types of one name that are the same whatever fields and directives they have. -/
structure TypeDef.SameButFields (one other : TypeDef) : Prop where
  name : one.name = other.name
  shape : one.shape.SameButFields other.shape

namespace TypeDef.SameButFields

variable {one other : TypeDef}

theorem isObject_eq (hsame : one.SameButFields other) : one.isObject = other.isObject := by
  rcases one with ⟨name, description, directives, shape⟩
  rcases other with ⟨name', description', directives', shape'⟩
  cases hsame.shape <;> rfl

theorem interfaces_eq (hsame : one.SameButFields other) : one.interfaces = other.interfaces := by
  rcases one with ⟨name, description, directives, shape⟩
  rcases other with ⟨name', description', directives', shape'⟩
  cases hsame.shape <;> rfl

theorem leafNode_eq (hsame : one.SameButFields other) (describe : Bool) :
    TypeGraph.leafNode describe one = TypeGraph.leafNode describe other := by
  rcases one with ⟨name, description, directives, shape⟩
  rcases other with ⟨name', description', directives', shape'⟩
  obtain rfl : name = name' := hsame.name
  cases hsame.shape <;> rfl

end TypeDef.SameButFields

/-- Shapes that are the same but for fields. -/
inductive TypeShape.Matches (F : Field → Field → Prop) : TypeShape → TypeShape → Prop
  | scalar : Matches F .scalar .scalar
  | enum (values : List String) : Matches F (.enum values) (.enum values)
  | object {fields others : List Field} (interfaces : List String)
      (h : List.Forall₂ F fields others) :
      Matches F (.object fields interfaces) (.object others interfaces)
  | interface {fields others : List Field} (interfaces : List String)
      (h : List.Forall₂ F fields others) :
      Matches F (.interface fields interfaces) (.interface others interfaces)
  | union (members : List String) : Matches F (.union members) (.union members)
  | other : Matches F .other .other

/-- Types that are the same but for fields. -/
structure TypeDef.Matches (F : Field → Field → Prop) (one other : TypeDef) : Prop where
  name : one.name = other.name
  description : one.description = other.description
  directives : one.directives = other.directives
  shape : one.shape.Matches F other.shape

variable {F : Field → Field → Prop}

namespace TypeDef.Matches

variable {one other : TypeDef}

theorem refl (hrefl : ∀ field, F field field) (type : TypeDef) : type.Matches F type where
  name := rfl
  description := rfl
  directives := rfl
  shape := by
    have hfields : ∀ fields : List Field, List.Forall₂ F fields fields := by
      intro fields
      exact List.forall₂_same.2 fun field _ => hrefl field
    cases type.shape with
    | scalar => exact .scalar
    | enum values => exact .enum values
    | object fields interfaces => exact .object interfaces (hfields fields)
    | interface fields interfaces => exact .interface interfaces (hfields fields)
    | union members => exact .union members
    | other => exact .other

theorem sameButFields (hmatch : one.Matches F other) : one.SameButFields other where
  name := hmatch.name
  shape := by
    rcases one with ⟨name, description, directives, shape⟩
    rcases other with ⟨name', description', directives', shape'⟩
    cases hmatch.shape with
    | scalar => exact .scalar
    | enum values => exact .enum values
    | object interfaces h => exact .object _ _ interfaces
    | interface interfaces h => exact .interface _ _ interfaces
    | union members => exact .union members
    | other => exact .other

theorem isObject_eq (hmatch : one.Matches F other) : one.isObject = other.isObject :=
  hmatch.sameButFields.isObject_eq

theorem fields (hmatch : one.Matches F other) : List.Forall₂ F one.fields other.fields := by
  rcases one with ⟨name, description, directives, shape⟩
  rcases other with ⟨name', description', directives', shape'⟩
  cases hmatch.shape with
  | object interfaces h => exact h
  | interface interfaces h => exact h
  | _ => exact .nil

end TypeDef.Matches

/-! ## Graphs -/

namespace TypeGraph

variable {one other : TypeGraph}

/-- Graphs of the same types in order, whatever fields and directives these have. -/
structure SameButFields (one other : TypeGraph) : Prop where
  types : List.Forall₂ TypeDef.SameButFields one.types other.types
  index : Entries.Corresponds TypeDef.SameButFields one.index other.index

/-- Every name stands in both graphs for types with the same variants, or with the same nodes if
they have none, or else for no type in either. -/
def ExpandAlike (one other : TypeGraph) : Prop :=
  ∀ name, one.index.get? name = none ∧ other.index.get? name = none ∨
    ∃ type another, one.index.get? name = some type ∧ other.index.get? name = some another ∧
      one.alternatives type = other.alternatives another ∧
      ∀ describe, leafNode describe type = leafNode describe another

/-- What names stand for in the graphs of two lists corresponds as the types of these do. -/
theorem corresponds_ofTypes {P : TypeDef → TypeDef → Prop} {types others : List TypeDef}
    (htypes : List.Forall₂ P types others) (hname : ∀ type other, P type other →
      type.name = other.name) (directives others' : List String) :
    Entries.Corresponds P (ofTypes types directives).index (ofTypes others others').index := by
  refine Entries.Corresponds.ofList ?_
  unfold Entries.Corresponds
  rw [List.forall₂_map_left_iff, List.forall₂_map_right_iff]
  exact htypes.imp fun _ _ h => ⟨hname _ _ h, h⟩

namespace SameButFields

theorem objects (hgraph : one.SameButFields other) :
    List.Forall₂ TypeDef.SameButFields one.objects other.objects := by
  refine List.rel_filter ?_ hgraph.types
  intro type another hsame
  simp only [hsame.isObject_eq]

theorem implementors_eq (hgraph : one.SameButFields other) (interface : String) :
    one.implementors interface = other.implementors interface := by
  have hfiltered : List.Forall₂ TypeDef.SameButFields
      (one.objects.filter fun type => type.interfaces.contains interface)
      (other.objects.filter fun type => type.interfaces.contains interface) := by
    refine List.rel_filter ?_ hgraph.objects
    intro type another hsame
    simp only [hsame.interfaces_eq]
  exact map_eq_map_of_forall₂ (hfiltered.imp fun _ _ hsame => hsame.name)

theorem members_eq (hgraph : one.SameButFields other) (union : String) :
    one.members union = other.members union := by
  unfold members
  rcases hgraph.index.get?_cases union with
    ⟨hone, hother⟩ | ⟨type, another, hone, hother, hsame⟩
  · rw [hone, hother]
  · rw [hone, hother]
    rcases type with ⟨name, description, directives, shape⟩
    rcases another with ⟨name', description', directives', shape'⟩
    cases hsame.shape <;> rfl

theorem alternatives_eq (hgraph : one.SameButFields other) {type another : TypeDef}
    (hsame : type.SameButFields another) : one.alternatives type = other.alternatives another := by
  rcases type with ⟨name, description, directives, shape⟩
  rcases another with ⟨name', description', directives', shape'⟩
  obtain rfl : name = name' := hsame.name
  cases hsame.shape with
  | interface fields others interfaces => simp only [alternatives, hgraph.implementors_eq]
  | union members => simp only [alternatives, hgraph.members_eq]
  | _ => rfl

theorem expandAlike (hgraph : one.SameButFields other) : one.ExpandAlike other := by
  intro name
  rcases hgraph.index.get?_cases name with hnone | ⟨type, another, hget, hget', hsame⟩
  · exact .inl hnone
  · exact .inr ⟨type, another, hget, hget', hgraph.alternatives_eq hsame, hsame.leafNode_eq⟩

end SameButFields

end TypeGraph

structure TypeGraph.Matches (F : Field → Field → Prop) (one other : TypeGraph) : Prop where
  types : List.Forall₂ (TypeDef.Matches F) one.types other.types
  index : Entries.Corresponds (TypeDef.Matches F) one.index other.index

namespace TypeGraph

variable {one other : TypeGraph}

theorem matches_ofTypes {types others : List TypeDef}
    (htypes : List.Forall₂ (TypeDef.Matches F) types others) (directives others' : List String) :
    (ofTypes types directives).Matches F (ofTypes others others') where
  types := htypes
  index := corresponds_ofTypes htypes (fun _ _ hmatch => hmatch.name) directives others'

namespace Matches

theorem refl (hrefl : ∀ field, F field field) (graph : TypeGraph) : graph.Matches F graph where
  types := List.forall₂_same.2 fun type _ => .refl hrefl type
  index := List.forall₂_same.2 fun entry _ => ⟨rfl, .refl hrefl entry.2⟩

theorem get?_cases (hgraph : one.Matches F other) (name : String) :
    one.index.get? name = none ∧ other.index.get? name = none ∨
      ∃ type another, one.index.get? name = some type ∧ other.index.get? name = some another ∧
        type.Matches F another :=
  hgraph.index.get?_cases name

theorem objects (hgraph : one.Matches F other) :
    List.Forall₂ (TypeDef.Matches F) one.objects other.objects := by
  refine List.rel_filter ?_ hgraph.types
  intro type another hmatch
  simp only [hmatch.isObject_eq]

theorem sameButFields (hgraph : one.Matches F other) : one.SameButFields other where
  types := hgraph.types.imp fun _ _ hmatch => hmatch.sameButFields
  index := hgraph.index.imp fun _ _ hentry => ⟨hentry.1, hentry.2.sameButFields⟩

theorem expandAlike (hgraph : one.Matches F other) : one.ExpandAlike other :=
  hgraph.sameButFields.expandAlike

end Matches

end TypeGraph

end ConfigSchema
