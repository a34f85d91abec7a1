import ConfigSchema.Proofs.References
import ConfigSchema.Proofs.Validity

/-!
# Conformance to types

Which JSON values a type of a graph stands for, said by the graph alone, and that the schema of a
type accepts exactly these if references mean what they refer to.

Unions and interfaces are compared by induction on the node that they are expanded to; references
to object types are taken as they are.
-/

namespace ConfigSchema

namespace TypeGraph

/-- The word for the values of a scalar; one that is not in the table stands for objects. -/
def scalarWord (name : String) : String :=
  (Node.scalarKinds.get? name).getD "object"

/-- A value is one that the type of a name stands for. -/
inductive Conforms (graph : TypeGraph) : String → Json → Prop
  | scalar {name : String} {type : TypeDef} {value : Json}
      (hget : graph.index.get? name = some type) (hshape : type.shape = .scalar)
      (hkind : scalarWord type.name ∈ value.kinds) : Conforms graph name value
  | other {name : String} {type : TypeDef} {value : Json}
      (hget : graph.index.get? name = some type) (hshape : type.shape = .other)
      (hkind : "object" ∈ value.kinds) : Conforms graph name value
  | enum {name text : String} {type : TypeDef} {values : List String}
      (hget : graph.index.get? name = some type) (hshape : type.shape = .enum values)
      (hmem : text ∈ values) : Conforms graph name (.str text)
  | interface {name : String} {type object : TypeDef} {fields : List Field}
      {interfaces : List String} {value : Json} (hget : graph.index.get? name = some type)
      (hshape : type.shape = .interface fields interfaces)
      (hobject : object ∈ graph.objects) (hlists : type.name ∈ object.interfaces)
      (h : Conforms graph object.name value) : Conforms graph name value
  | union {name member : String} {type : TypeDef} {members : List String} {value : Json}
      (hget : graph.index.get? name = some type) (hshape : type.shape = .union members)
      (hmem : member ∈ members) (h : Conforms graph member value) : Conforms graph name value
  | object {name : String} {type : TypeDef} {fields : List Field} {interfaces : List String}
      {entries : Entries Json}
      (hget : graph.index.get? name = some type) (hshape : type.shape = .object fields interfaces)
      (hrequired : ∀ field ∈ fields, field.type.isRequired = true → field.name ∈ entries.names)
      (hplain : ∀ field ∈ fields, field.type.isList = false →
        ∀ item, (field.name, item) ∈ entries → Conforms graph field.type.base item)
      (hlist : ∀ field ∈ fields, field.type.isList = true →
        ∀ item, (field.name, item) ∈ entries → ∃ items, item = .arr items)
      (hitems : ∀ field ∈ fields, field.type.isList = true →
        ∀ items, (field.name, .arr items) ∈ entries →
          ∀ item ∈ items, Conforms graph field.type.base item)
      (hdeclared : ∀ key ∈ entries.names,
        key ∈ fields.map (·.name) ∨ openDirective ∈ type.directives) :
      Conforms graph name (.obj entries)

/-- A value is one that the type of a field stands for; any number of list layers counts as
one. -/
def ConformsField (graph : TypeGraph) (field : Field) (value : Json) : Prop :=
  if field.type.isList then
    ∃ items, value = .arr items ∧ ∀ item ∈ items, graph.Conforms field.type.base item
  else graph.Conforms field.type.base value

/-- An object has the fields that are required, and those that it has conform. -/
def ConformsFields (graph : TypeGraph) (fields : List Field) (entries : Entries Json) : Prop :=
  (∀ field ∈ fields, field.type.isRequired = true → field.name ∈ entries.names) ∧
    ∀ field ∈ fields, ∀ item, (field.name, item) ∈ entries → graph.ConformsField field item

/-- A value is one that the root stands for, which never allows undeclared keys. -/
def ConformsAsRoot (graph : TypeGraph) (root : TypeDef) (value : Json) : Prop :=
  ∃ entries, value = .obj entries ∧ graph.ConformsFields root.fields entries ∧
    ∀ key ∈ Entries.names entries, key ∈ root.fields.map (·.name)

def Stands (graph : TypeGraph) (type : TypeDef) (value : Json) : Prop :=
  match type.shape with
  | .scalar => scalarWord type.name ∈ value.kinds
  | .other => "object" ∈ value.kinds
  | .enum values => ∃ text ∈ values, value = .str text
  | .interface .. => ∃ variant ∈ graph.implementors type.name, graph.Conforms variant value
  | .union members => ∃ variant ∈ members, graph.Conforms variant value
  | .object fields _ =>
      ∃ entries, value = .obj entries ∧ graph.ConformsFields fields entries ∧
        ∀ key ∈ Entries.names entries,
          key ∈ fields.map (·.name) ∨ openDirective ∈ type.directives

variable {graph : TypeGraph} {describe : Bool} {name : String} {value : Json}

theorem conforms_iff {type : TypeDef} (hget : graph.index.get? name = some type) :
    graph.Conforms name value ↔ graph.Stands type value := by
  unfold Stands
  constructor
  · intro hconforms
    cases hconforms with
    | scalar hother hshape hkind =>
        rw [hget, Option.some.injEq] at hother
        subst hother
        simp only [hshape]
        exact hkind
    | other hother hshape hkind =>
        rw [hget, Option.some.injEq] at hother
        subst hother
        simp only [hshape]
        exact hkind
    | enum hother hshape hmem =>
        rw [hget, Option.some.injEq] at hother
        subst hother
        simp only [hshape]
        exact ⟨_, hmem, rfl⟩
    | interface hother hshape hobject hlists h =>
        rw [hget, Option.some.injEq] at hother
        subst hother
        simp only [hshape]
        exact ⟨_, mem_implementors_iff.2 ⟨_, hobject, hlists, rfl⟩, h⟩
    | union hother hshape hmem h =>
        rw [hget, Option.some.injEq] at hother
        subst hother
        simp only [hshape]
        exact ⟨_, hmem, h⟩
    | @object _ _ fields interfaces entries hother hshape hrequired hplain hlist hitems hdeclared =>
        rw [hget, Option.some.injEq] at hother
        subst hother
        simp only [hshape]
        refine ⟨entries, rfl, ⟨hrequired, ?_⟩, hdeclared⟩
        intro field hfield item hitem
        unfold ConformsField
        split
        · next hisList =>
            obtain ⟨items, rfl⟩ := hlist field hfield hisList item hitem
            exact ⟨items, rfl, hitems field hfield hisList items hitem⟩
        · next hisPlain =>
            exact hplain field hfield (by simpa using hisPlain) item hitem
  · intro hstands
    cases hshape : type.shape with
    | scalar =>
        simp only [hshape] at hstands
        exact .scalar hget hshape hstands
    | other =>
        simp only [hshape] at hstands
        exact .other hget hshape hstands
    | enum values =>
        simp only [hshape] at hstands
        obtain ⟨text, hmem, rfl⟩ := hstands
        exact .enum hget hshape hmem
    | interface fields interfaces =>
        simp only [hshape] at hstands
        obtain ⟨variant, hmem, h⟩ := hstands
        obtain ⟨object, hobject, hlists, rfl⟩ := mem_implementors_iff.1 hmem
        exact .interface hget hshape hobject hlists h
    | union members =>
        simp only [hshape] at hstands
        obtain ⟨variant, hmem, h⟩ := hstands
        exact .union hget hshape hmem h
    | object fields interfaces =>
        simp only [hshape] at hstands
        obtain ⟨entries, rfl, ⟨hrequired, hfields⟩, hdeclared⟩ := hstands
        refine .object hget hshape hrequired ?_ ?_ ?_ hdeclared
        · intro field hfield hisPlain item hitem
          have hconforms := hfields field hfield item hitem
          simpa [ConformsField, hisPlain] using hconforms
        · intro field hfield hisList item hitem
          have hconforms := hfields field hfield item hitem
          rw [ConformsField, if_pos hisList] at hconforms
          obtain ⟨items, heq, -⟩ := hconforms
          exact ⟨items, heq⟩
        · intro field hfield hisList items hitem
          have hconforms := hfields field hfield _ hitem
          rw [ConformsField, if_pos hisList] at hconforms
          obtain ⟨others, heq, hall⟩ := hconforms
          rw [Json.arr.injEq] at heq
          rw [heq]
          exact hall

theorem conforms_object_iff {type : TypeDef} (hget : graph.index.get? name = some type)
    (hkind : type.isObject = true) :
    graph.Conforms name value ↔
      ∃ entries, value = .obj entries ∧ graph.ConformsFields type.fields entries ∧
        ∀ key ∈ Entries.names entries,
          key ∈ type.fields.map (·.name) ∨ openDirective ∈ type.directives := by
  rw [conforms_iff hget]
  obtain ⟨fields, interfaces, hshape⟩ := TypeDef.isObject_iff.1 hkind
  simp only [Stands, TypeDef.fields, TypeDef.fields?, hshape, Option.getD_some]

theorem conforms_variants_iff {type : TypeDef} {variants : List String}
    (hget : graph.index.get? name = some type) (hvariants : graph.variants? type = some variants) :
    graph.Conforms name value ↔ ∃ variant ∈ variants, graph.Conforms variant value := by
  rw [conforms_iff hget]
  rcases variants?_eq_some_iff.1 hvariants with ⟨fields, interfaces, hshape, rfl⟩ | hshape
  · simp only [Stands, hshape]
  · simp only [Stands, hshape]

/-! ## Nodes of types -/

variable {document : Json} {outside : String → Json → Prop}

theorem validates_leafNode_iff {type : TypeDef} (hget : graph.index.get? name = some type)
    (hvariants : graph.variants? type = none) (hkind : type.isObject = false)
    (note : Option String) :
    document.Validates outside ((leafNode describe type).withNote note).toJson value ↔
      graph.Conforms name value := by
  rw [conforms_iff hget]
  cases hshape : type.shape with
  | scalar =>
      simp only [leafNode, Stands, hshape, Node.ofScalar?, scalarWord]
      cases Node.scalarKinds.get? type.name with
      | none => exact Node.validates_anyObject_iff
      | some kind =>
          simp only [Option.map_some, Option.getD_some]
          split
          · next hobject =>
              rw [hobject]
              exact Node.validates_anyObject_iff
          · exact Node.validates_primitive_iff
  | other =>
      simp only [leafNode, Stands, hshape]
      exact Node.validates_anyObject_iff
  | enum values =>
      simp only [leafNode, Stands, hshape]
      exact Node.validates_enum_iff
  | object fields interfaces => simp [TypeDef.isObject, hshape] at hkind
  | interface fields interfaces => simp [variants?, hshape] at hvariants
  | union members => simp [variants?, hshape] at hvariants

theorem validates_node_iff [Runtime] {under : List Call}
    (hname : graph.IsNamed)
    (hrefs : ∀ key type, Relation.ReflTransGen graph.Expands name key →
      graph.index.get? key = some type → type.isObject = true → ∀ note,
        (document.Validates outside (Node.ref note key).toJson value ↔ graph.Conforms key value))
    {node : Node} (hok : graph.node describe name under = .ok node) (note : Option String) :
    document.Validates outside (node.withNote note).toJson value ↔ graph.Conforms name value := by
  -- The induction is on the node: an expansion need not make its names smaller.
  induction hsize : sizeOf node using Nat.strongRecOn generalizing name node note with
  | ind size ih =>
      obtain ⟨type, hget, ⟨hvariants, rfl⟩ | ⟨variants, nodes, hvariants, hall, rfl⟩⟩ :=
        exists_type_of_node hname hok
      · cases hkind : type.isObject with
        | false => exact validates_leafNode_iff hget hvariants hkind note
        | true =>
            rw [leafNode_eq_ref_iff.2 ⟨hkind, rfl, rfl⟩, Node.withNote, hname name type hget]
            exact hrefs name type .refl hget hkind note
      · rw [Node.withNote, Node.validates_anyOf_iff, conforms_variants_iff hget hvariants]
        have hvariant : ∀ variant ∈ variants, ∀ sub ∈ nodes,
            graph.node describe variant under = .ok sub →
            (document.Validates outside sub.toJson value ↔ graph.Conforms variant value) := by
          intro variant hin sub hsub hnode
          have hlt : sizeOf sub < size := by
            have hmember := List.sizeOf_lt_of_mem hsub
            rw [← hsize, Node.anyOf.sizeOf_spec]
            omega
          have hstep : graph.Expands name variant := ⟨type, variants, hget, hvariants, hin⟩
          have hmeans := ih _ hlt (fun key other hpath => hrefs key other (.head hstep hpath))
            hnode sub.note rfl
          rwa [Node.withNote_note] at hmeans
        constructor
        · rintro ⟨sub, hsub, hvalid⟩
          obtain ⟨variant, hin, hnode⟩ := Results.exists_left_of_forall₂ hall hsub
          exact ⟨variant, hin, (hvariant variant hin sub hsub hnode).1 hvalid⟩
        · rintro ⟨variant, hin, hconforms⟩
          obtain ⟨sub, hsub, hnode⟩ := Results.exists_right_of_forall₂ hall hin
          exact ⟨sub, hsub, (hvariant variant hin sub hsub hnode).2 hconforms⟩

end TypeGraph

end ConfigSchema
