import ConfigSchema.Proofs.Results
import ConfigSchema.Proofs.TypeOrder
import ConfigSchema.Schema.OfDocument
import Mathlib.Data.List.Nodup

/-!
# Types of documents

The types of a schema are those that its document defines, in order, with all that the extensions
of their names add.  In a valid document a type is defined once, its extensions are of its kind,
and it is the type that its name stands for unless the name is a built-in one.
-/

namespace ConfigSchema

namespace Sdl

variable {document : Document}

/-! ## Valid documents -/

theorem Document.satisfies (hvalid : document.isValid = true) (rule : Document → Bool)
    (hrule : rule ∈ rules) : rule document = true :=
  List.all_eq_true.1 hvalid rule hrule

/-- The definitions of types. -/
def typeDefinitions (document : Document) : List (Option Literal × TypeNode) :=
  document.filterMap fun
    | .type about node => some (about, node)
    | _ => none

theorem mem_typeDefinitions_iff {about : Option Literal} {node : TypeNode} :
    (about, node) ∈ typeDefinitions document ↔ .type about node ∈ document := by
  rw [typeDefinitions, List.mem_filterMap]
  constructor
  · rintro ⟨definition, hmem, hfound⟩
    cases definition with
    | type other another =>
        cases hfound
        exact hmem
    | _ => contradiction
  · intro hmem
    exact ⟨_, hmem, rfl⟩

theorem names_typeDefinitions (document : Document) :
    (typeDefinitions document).map (·.2.name) = document.definedTypes := by
  rw [typeDefinitions, List.map_filterMap, Document.definedTypes]
  apply List.filterMap_congr
  intro definition _
  cases definition <;> rfl

theorem nodup_definedTypes (hvalid : document.isValid = true) : document.definedTypes.Nodup :=
  of_decide_eq_true (Document.satisfies hvalid Document.hasUniqueTypes (by simp [Document.rules]))

/-- A valid document defines a type once. -/
theorem eq_of_mem_typeDefinitions (hvalid : document.isValid = true)
    {one other : Option Literal × TypeNode} (hone : one ∈ typeDefinitions document)
    (hother : other ∈ typeDefinitions document) (hname : one.2.name = other.2.name) :
    one = other := by
  have hnodup := nodup_definedTypes hvalid
  rw [← names_typeDefinitions] at hnodup
  exact List.inj_on_of_nodup_map hnodup hone hother hname

theorem mem_extensionsOf_iff {extension : TypeNode} {name : String} :
    extension ∈ Schema.extensionsOf document name ↔
      .typeExtension extension ∈ document ∧ extension.name = name := by
  rw [Schema.extensionsOf, List.mem_filterMap]
  constructor
  · rintro ⟨definition, hmem, hfound⟩
    cases definition with
    | typeExtension node =>
        simp only [Option.ite_none_right_eq_some, Option.some.injEq] at hfound
        obtain ⟨hname, rfl⟩ := hfound
        exact ⟨hmem, hname⟩
    | _ => contradiction
  · rintro ⟨hmem, hname⟩
    exact ⟨_, hmem, if_pos hname⟩

/-- In a valid document the extensions of a type are of its kind. -/
theorem kind_of_mem_extensionsOf (hvalid : document.isValid = true) {about : Option Literal}
    {node extension : TypeNode} (hnode : .type about node ∈ document)
    (hextension : extension ∈ Schema.extensionsOf document node.name) :
    extension.body.kind = node.body.kind := by
  obtain ⟨hmem, hname⟩ := mem_extensionsOf_iff.1 hextension
  have hpossible :=
    Document.satisfies hvalid Document.hasPossibleExtensions (by simp [Document.rules])
  have hany := List.all_eq_true.1 hpossible _ hmem
  obtain ⟨definition, hdefinition, hmatches⟩ := List.any_eq_true.1 hany
  cases definition with
  | type other defined =>
      simp only [Bool.and_eq_true, decide_eq_true_eq] at hmatches
      have hsame := eq_of_mem_typeDefinitions hvalid (mem_typeDefinitions_iff.2 hdefinition)
        (mem_typeDefinitions_iff.2 hnode) (hmatches.1.trans hname)
      rw [Prod.mk.injEq] at hsame
      rw [← hmatches.2, hsame.2]
  | _ => contradiction

/-- The first definition of a type. -/
def definition? (document : Document) (name : String) : Option TypeNode :=
  document.findSome? fun
    | .type _ node => if node.name = name then some node else none
    | _ => none

/-- What a document says about a type: its first definition and then all extensions, in order. -/
def partsOf (document : Document) (name : String) : List TypeNode :=
  (definition? document name).toList ++ Schema.extensionsOf document name

theorem definition?_of_mem (hvalid : document.isValid = true) {about : Option Literal}
    {node : TypeNode} (hnode : .type about node ∈ document) :
    definition? document node.name = some node := by
  have hsome : (definition? document node.name).isSome = true := by
    rw [definition?, List.findSome?_isSome_iff]
    exact ⟨_, hnode, by simp⟩
  obtain ⟨found, hfound⟩ := Option.isSome_iff_exists.1 hsome
  obtain ⟨definition, hmem, hself⟩ := List.exists_of_findSome?_eq_some hfound
  cases definition with
  | type other another =>
      simp only [Option.ite_none_right_eq_some, Option.some.injEq] at hself
      obtain ⟨hname, rfl⟩ := hself
      have hsame := eq_of_mem_typeDefinitions hvalid (mem_typeDefinitions_iff.2 hmem)
        (mem_typeDefinitions_iff.2 hnode) hname
      rw [hfound, (Prod.mk.inj hsame).2]
  | _ => contradiction

/-! ## Bodies -/

namespace TypeBody

theorem kind_eq_object_iff {body : TypeBody} :
    body.kind = .object ↔ ∃ interfaces fields, body = .object interfaces fields := by
  cases body <;> simp [kind]

def interfaces : TypeBody → List String
  | .object interfaces _ => interfaces
  | .interface interfaces _ => interfaces
  | _ => []

def fields : TypeBody → List FieldDefinition
  | .object _ fields => fields
  | .interface _ fields => fields
  | _ => []

def members : TypeBody → List String
  | .union members => members
  | _ => []

def values : TypeBody → List EnumValueDefinition
  | .enum values => values
  | _ => []

def inputs : TypeBody → List InputValue
  | .input fields => fields
  | _ => []

/-- A body that says what others of its kind say behind what it says itself. -/
def followedBy (more : List TypeBody) : TypeBody → TypeBody
  | .scalar => .scalar
  | .object interfaces fields =>
      .object (interfaces ++ more.flatMap TypeBody.interfaces)
        (fields ++ more.flatMap TypeBody.fields)
  | .interface interfaces fields =>
      .interface (interfaces ++ more.flatMap TypeBody.interfaces)
        (fields ++ more.flatMap TypeBody.fields)
  | .union members => .union (members ++ more.flatMap TypeBody.members)
  | .enum values => .enum (values ++ more.flatMap TypeBody.values)
  | .input fields => .input (fields ++ more.flatMap TypeBody.inputs)

theorem kind_followedBy (first : TypeBody) (more : List TypeBody) :
    (first.followedBy more).kind = first.kind := by
  cases first <;> rfl

theorem followedBy_followedBy (first : TypeBody) (some more : List TypeBody) :
    (first.followedBy some).followedBy more = first.followedBy (some ++ more) := by
  cases first <;> simp [followedBy]

end TypeBody

end Sdl

namespace Schema

theorem mergedBody_cons {first body : Sdl.TypeBody} (hbody : body.kind = first.kind)
    (rest : List Sdl.TypeBody) :
    mergedBody first (body :: rest) = mergedBody (first.followedBy [body]) rest := by
  unfold mergedBody
  rw [List.foldl_cons]
  apply congrFun
  apply congrArg
  revert hbody
  cases first <;> cases body <;>
    simp [Sdl.TypeBody.kind, Sdl.TypeBody.followedBy, Sdl.TypeBody.interfaces,
      Sdl.TypeBody.fields, Sdl.TypeBody.members, Sdl.TypeBody.values, Sdl.TypeBody.inputs]

theorem mergedBody_eq_followedBy {first : Sdl.TypeBody} {more : List Sdl.TypeBody}
    (hkinds : ∀ body ∈ more, body.kind = first.kind) :
    mergedBody first more = first.followedBy more := by
  induction more generalizing first with
  | nil => cases first <;> simp [mergedBody, Sdl.TypeBody.followedBy]
  | cons body rest ih =>
      have hrest : ∀ other ∈ rest, other.kind = (first.followedBy [body]).kind := by
        intro other hother
        rw [Sdl.TypeBody.kind_followedBy]
        exact hkinds other (List.mem_cons_of_mem _ hother)
      rw [mergedBody_cons (hkinds body List.mem_cons_self), ih hrest,
        Sdl.TypeBody.followedBy_followedBy]
      rfl

/-! ## Schemas of documents -/

variable {schema : Schema} {document : Sdl.Document}

/-- A document is valid and says what a schema holds, and the schema stands by itself. -/
structure IsOf [Runtime] (schema : Schema) (document : Sdl.Document) : Prop where
  isValid : document.isValid = true
  types : typesOf? document = some schema.types
  directives : directivesOf? document = some schema.directives
  roots : schema.roots = rootsOf document
  description : schema.description = descriptionOf document
  isWellKinded : schema.isWellKinded = true
  settles : (schema.settledInputs? Runtime.settlingDepth).isSome = true

theorem ofDocument?_eq_some_iff [Runtime] :
    ofDocument? document = some schema ↔ schema.IsOf document := by
  unfold ofDocument?
  constructor
  · intro hok
    split at hok
    · contradiction
    · next hvalid =>
        rw [Bool.not_eq_true, Bool.not_eq_false'] at hvalid
        simp only [Option.bind_eq_bind, Option.bind_eq_some_iff] at hok
        obtain ⟨types, htypes, directives, hdirectives, hschema⟩ := hok
        split at hschema
        · next hchecked =>
            rw [Bool.and_eq_true] at hchecked
            cases hschema
            exact ⟨hvalid, htypes, hdirectives, rfl, rfl, hchecked.1, hchecked.2⟩
        · contradiction
  · rintro ⟨hvalid, htypes, hdirectives, hroots, hdescription, hwell, hsettles⟩
    have hsame : Schema.mk (descriptionOf document) schema.types schema.directives
        (rootsOf document) = schema := by
      rw [← hroots, ← hdescription]
    simp [hvalid, htypes, hdirectives, hsame, hwell, hsettles]

theorem typesOf?_eq (document : Sdl.Document) :
    typesOf? document = (Sdl.typeDefinitions document).mapM fun (about, node) =>
      namedType? document about node :=
  rfl

theorem name_of_namedType? {about : Option Sdl.Literal} {node : Sdl.TypeNode} {type : NamedType}
    (htype : namedType? document about node = some type) : type.name = node.name := by
  unfold namedType? at htype
  split at htype
  · next found hbuilt =>
      cases htype
      exact (BuiltIn.mem_of_type? hbuilt).2
  · obtain ⟨shape, -, rfl⟩ := Option.map_eq_some_iff.1 htype
    rfl

theorem IsOf.names_types [Runtime] (hof : schema.IsOf document) :
    schema.types.map (·.name) = document.definedTypes := by
  have htypes := hof.types
  rw [typesOf?_eq] at htypes
  rw [← Sdl.names_typeDefinitions]
  exact Results.map_eq_of_mapM htypes fun _ _ _ htype => name_of_namedType? htype

theorem IsOf.nodup_names_types [Runtime] (hof : schema.IsOf document) :
    (schema.types.map (·.name)).Nodup := by
  rw [hof.names_types]
  exact Sdl.nodup_definedTypes hof.isValid

/-- The types of a schema are those that their names stand for. -/
theorem IsOf.type?_of_mem [Runtime] (hof : schema.IsOf document) {type : NamedType}
    (htype : type ∈ schema.types) : schema.type? type.name = some type := by
  have htypes := hof.types
  rw [typesOf?_eq, Results.mapM_eq_some_iff] at htypes
  obtain ⟨⟨about, node⟩, -, hnamed⟩ := Results.exists_left_of_forall₂ htypes htype
  have hname := name_of_namedType? hnamed
  rw [type?, hname]
  cases hbuilt : BuiltIn.type? node.name with
  | some found =>
      simp only [namedType?, hbuilt, Option.some.injEq] at hnamed
      rw [hnamed, Option.some_or]
  | none =>
      rw [Option.none_or, ← hname]
      obtain ⟨found, hfound⟩ := Option.isSome_iff_exists.1
        (List.find?_isSome.2 ⟨type, htype, by simp⟩ :
          (schema.types.find? fun other => decide (other.name = type.name)).isSome = true)
      have hfoundName := List.find?_some hfound
      rw [hfound, List.inj_on_of_nodup_map hof.nodup_names_types
        (List.mem_of_find?_eq_some hfound) htype (by simpa using hfoundName)]

end Schema

end ConfigSchema
