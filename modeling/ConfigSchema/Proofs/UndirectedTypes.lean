import ConfigSchema.Proofs.AlikeDocuments
import ConfigSchema.Proofs.AlikeOutlines

/-!
# Types without directives

Neither of the two walks over a graph looks at directives, be they on types or on fields: the nodes
and the outlines of graphs that differ in directives at most are the same.  Directives are read when
a walk is over, to tell whether a definition is open, or before it starts, to tell which types are
documented.
-/

namespace ConfigSchema

def Field.undirected (field : Field) : Field :=
  { field with directives := [] }

def TypeShape.undirected : TypeShape → TypeShape
  | .object fields interfaces => .object (fields.map Field.undirected) interfaces
  | .interface fields interfaces => .interface (fields.map Field.undirected) interfaces
  | shape => shape

namespace TypeShape

variable {first second third : TypeShape}

theorem sameButFields_undirected (shape : TypeShape) : shape.SameButFields shape.undirected := by
  cases shape <;> constructor

theorem SameButFields.symm (hsame : first.SameButFields second) : second.SameButFields first := by
  cases hsame <;> constructor

theorem SameButFields.trans (hfirst : first.SameButFields second)
    (hsecond : second.SameButFields third) : first.SameButFields third := by
  cases hfirst <;> cases hsecond <;> constructor

end TypeShape

def Item.undirected : Item → Item
  | .field f => .field f.undirected
  | .member name => .member name

namespace TypeDef

/-- The type without directives, its own and those of its fields. -/
def undirected (type : TypeDef) : TypeDef :=
  { type with directives := [], shape := type.shape.undirected }

@[simp] theorem name_undirected (type : TypeDef) : type.undirected.name = type.name := rfl

@[simp] theorem description_undirected (type : TypeDef) :
    type.undirected.description = type.description := rfl

@[simp] theorem fields_undirected (type : TypeDef) :
    type.undirected.fields = type.fields.map Field.undirected := by
  rcases type with ⟨name, description, directives, shape⟩
  cases shape <;> rfl

@[simp] theorem label_undirected (type : TypeDef) : type.undirected.label = type.label := by
  rcases type with ⟨name, description, directives, shape⟩
  cases shape <;> rfl

@[simp] theorem partsCalls_undirected (type : TypeDef) :
    type.undirected.partsCalls = type.partsCalls := by
  rcases type with ⟨name, description, directives, shape⟩
  cases shape <;> rfl

@[simp] theorem parts?_undirected (type : TypeDef) :
    type.undirected.parts? = type.parts?.map (List.map Item.undirected) := by
  rcases type with ⟨name, description, directives, shape⟩
  cases shape <;> simp [undirected, TypeShape.undirected, parts?, Item.undirected]

@[simp] theorem parts_undirected (type : TypeDef) :
    type.undirected.parts = type.parts.map Item.undirected := by
  rw [parts, parts, parts?_undirected]
  cases type.parts? <;> rfl

end TypeDef

namespace Item

@[simp] theorem target_undirected (item : Item) : item.undirected.target = item.target := by
  cases item <;> rfl

@[simp] theorem calls_undirected (item : Item) : item.undirected.calls = item.calls := by
  cases item <;> rfl

@[simp] theorem head_undirected (item : Item) (type : TypeDef) :
    item.undirected.head type.undirected = item.head type := by
  cases item with
  | field field => simp [undirected, Field.undirected, head]
  | member name => simp [undirected, head]

end Item

/-- Types that are the same but for directives, their own and those of their fields. -/
structure TypeDef.SameButDirectives (type other : TypeDef) : Prop where
  undirected : type.undirected = other.undirected

namespace TypeDef.SameButDirectives

variable {type other : TypeDef} (hsame : type.SameButDirectives other)

include hsame

theorem name_eq : type.name = other.name :=
  congrArg (·.name) hsame.undirected

theorem description_eq : type.description = other.description :=
  congrArg (·.description) hsame.undirected

theorem fields_eq : type.fields.map Field.undirected = other.fields.map Field.undirected := by
  simpa using congrArg TypeDef.fields hsame.undirected

theorem partsCalls_eq : type.partsCalls = other.partsCalls := by
  simpa using congrArg TypeDef.partsCalls hsame.undirected

theorem parts_eq : type.parts.map Item.undirected = other.parts.map Item.undirected := by
  simpa using congrArg TypeDef.parts hsame.undirected

theorem sameButFields : type.SameButFields other where
  name := hsame.name_eq
  shape := by
    have hshape : type.shape.undirected = other.shape.undirected :=
      congrArg TypeDef.shape hsame.undirected
    have hother := other.shape.sameButFields_undirected
    rw [← hshape] at hother
    exact type.shape.sameButFields_undirected.trans hother.symm

theorem head_eq {item another : Item} (hitem : item.undirected = another.undirected) :
    item.head type = another.head other := by
  rw [← item.head_undirected, hitem, hsame.undirected, another.head_undirected]

theorem parts?_cases : type.parts? = none ∧ other.parts? = none ∨
    ∃ parts others, type.parts? = some parts ∧ other.parts? = some others ∧
      List.Forall₂ (fun item another => item.undirected = another.undirected) parts others := by
  have hparts := congrArg TypeDef.parts? hsame.undirected
  rw [parts?_undirected, parts?_undirected] at hparts
  cases hone : type.parts? with
  | none =>
      rw [hone] at hparts
      exact .inl ⟨rfl, Option.map_eq_none_iff.1 hparts.symm⟩
  | some parts =>
      rw [hone] at hparts
      rcases Option.map_eq_some_iff.1 hparts.symm with ⟨others, hother, hmap⟩
      exact .inr ⟨parts, others, rfl, hother, map_eq_map_iff.1 hmap.symm⟩

end TypeDef.SameButDirectives

namespace TypeGraph

variable {one other : TypeGraph} {type another : TypeDef}

/-- Graphs of the same types in order but for directives. -/
structure SameButDirectives (one other : TypeGraph) : Prop where
  types : List.Forall₂ TypeDef.SameButDirectives one.types other.types
  index : Entries.Corresponds TypeDef.SameButDirectives one.index other.index

theorem sameButDirectives_ofTypes {types others : List TypeDef}
    (htypes : List.Forall₂ TypeDef.SameButDirectives types others)
    (directives others' : List String) :
    (ofTypes types directives).SameButDirectives (ofTypes others others') where
  types := htypes
  index := corresponds_ofTypes htypes (fun _ _ hsame => hsame.name_eq) directives others'

theorem comparesFields_of_undirected_eq {field found : Field}
    (heq : field.undirected = found.undirected) : ComparesFields Eq field found := by
  rcases field with ⟨name, type, description, directives⟩
  rcases found with ⟨name', type', description', directives'⟩
  obtain ⟨rfl, rfl, rfl, -⟩ := Field.mk.inj heq
  exact ⟨rfl, rfl, rfl, fun _ _ hnode => congrArg _ hnode⟩

namespace SameButDirectives

theorem sameButFields (hgraph : one.SameButDirectives other) : one.SameButFields other where
  types := hgraph.types.imp fun _ _ hsame => hsame.sameButFields
  index := hgraph.index.imp fun _ _ hentry => ⟨hentry.1, hentry.2.sameButFields⟩

theorem properties_eq [Runtime] (hgraph : one.SameButDirectives other)
    (hsame : type.SameButDirectives another) (describe : Bool) :
    one.properties describe type.fields = other.properties describe another.fields := by
  have hfields : List.Forall₂ (ComparesFields Eq) type.fields another.fields :=
    (map_eq_map_iff.1 hsame.fields_eq).imp fun _ _ heq => comparesFields_of_undirected_eq heq
  have hagree : Results.Agree (fun _ => False) (Properties.Corresponds Eq)
      (one.properties describe type.fields) (other.properties describe another.fields) :=
    properties_agree hgraph.sameButFields.expandAlike (comparesNodes_eq describe) hfields
  exact (hagree.imp fun _ _ h => Properties.eq_of_corresponds h).eq_of_never

theorem listAlike (hgraph : one.SameButDirectives other) :
    one.ListAlike (fun _ => False) (fun item found => item.undirected = found.undirected)
      other where
  calls := by
    intro item found hitem
    rw [← item.calls_undirected, hitem, found.calls_undirected]
    exact .inl rfl
  type := by
    intro item found hitem
    have htarget : item.target = found.target := by
      rw [← item.target_undirected, hitem, found.target_undirected]
    rw [← htarget]
    rcases hgraph.index.get?_cases item.target with hnone | ⟨type, another, hget, hget', hsame⟩
    · exact .inl ⟨rfl, hnone⟩
    · exact .inr ⟨type, another, hget, hget', hsame.name_eq, hsame.head_eq hitem,
        hsame.partsCalls_eq, hsame.parts?_cases⟩

theorem documentsAlike (hsame : type.SameButDirectives another) (hkind : type.isObject = true) :
    DocumentsAlike (fun item found => item.undirected = found.undirected) type another where
  isObject := hkind
  isObject' := hsame.sameButFields.isObject_eq ▸ hkind
  name := hsame.name_eq
  description := hsame.description_eq
  parts := map_eq_map_iff.1 hsame.parts_eq

theorem fragmentOf_eq [Runtime] (hgraph : one.SameButDirectives other)
    (hsame : type.SameButDirectives another) (hkind : type.isObject = true) (under : List Call) :
    one.fragmentOf type under = other.fragmentOf another under :=
  (fragmentOf_agree hgraph.listAlike (documentsAlike hsame hkind) under).eq_of_never

theorem fragmentsOf_eq [Runtime] (hgraph : one.SameButDirectives other)
    {types others : List TypeDef} (htypes : List.Forall₂ TypeDef.SameButDirectives types others)
    (hkinds : ∀ type ∈ types, type.isObject = true) (settings : Settings) :
    one.fragmentsOf settings types = other.fragmentsOf settings others := by
  have hall : List.Forall₂
      (DocumentsAlike fun item found => item.undirected = found.undirected) types others :=
    ((List.forall₂_and_left types others).2 ⟨hkinds, htypes⟩).imp fun _ _ hboth =>
      documentsAlike hboth.2 hboth.1
  exact (fragmentsOf_agree hgraph.listAlike hall settings).eq_of_never

end SameButDirectives

end TypeGraph

end ConfigSchema
