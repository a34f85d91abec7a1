import ConfigSchema.Proofs.Merging
import ConfigSchema.Proofs.RelistedSchemas
import ConfigSchema.Proofs.Repetition

/-!
# Repeated definitions

A merge drops what is repeated of types and directives and keeps everything else as often as it
stands there.  Operations and fragments may be repeated; a definition of the schema may not; and
an extension may be repeated if it adds neither operations, fields, values nor a directive that
may be applied only once.  Interfaces and members that it adds are then listed again.
-/

namespace ConfigSchema

namespace Sdl

variable {document more few many : Document} {definition : Definition}

/-! ## Merges -/

/-- A merge repeats what has no title. -/
theorem repeats_firsts (hrepeats : Repeats more few many) :
    Repeats (more.filter (·.isUntitled)) (firsts few) (firsts many) := by
  induction hrepeats with
  | none items => exact .none _
  | @again more few before after repeated hrest hmem ih =>
      rw [firsts_append] at ih
      cases huntitled : repeated.isUntitled with
      | true =>
          rw [List.filter_cons_of_pos huntitled, firsts_insert huntitled]
          exact .again ih (mem_firsts_of_isUntitled huntitled hmem)
      | false =>
          have hold : before.any (haveSameTitle repeated) = true := by
            rw [List.any_eq_true]
            exact ⟨repeated, hmem, by rw [haveSameTitle_self_iff, huntitled]; rfl⟩
          rw [List.filter_cons_of_neg (by simp [huntitled]), firsts_append,
            List.filter_cons_of_neg (by simp [hold])]
          exact ih

/-! ## Validity -/

/-- Whether a definition may stand in a document again. -/
def Definition.mayRepeat (document : Document) : Definition → Bool
  | .schema .. => false
  | .schemaExtension directives operations =>
      operations.isEmpty && directives.all fun applied => !document.isSingle applied.name
  | .typeExtension node =>
      node.body.fields.isEmpty && node.body.values.isEmpty && node.body.inputs.isEmpty &&
        node.directives.all fun applied => !document.isSingle applied.name
  | _ => true

section

variable (hrepeats : Repeats more few many) (huntitled : ∀ d ∈ more, d.isUntitled = true)

include hrepeats huntitled

theorem definedTypes_of_repeats : many.definedTypes = few.definedTypes := by
  apply hrepeats.filterMap_eq
  intro d hd
  have hnew := huntitled d hd
  cases d <;> first | rfl | contradiction

theorem directiveDefinitions_of_repeats :
    many.directiveDefinitions = few.directiveDefinitions := by
  apply hrepeats.filterMap_eq
  intro d hd
  have hnew := huntitled d hd
  cases d <;> first | rfl | contradiction

theorem directive?_of_repeats : many.directive? = few.directive? := by
  funext name
  rw [Document.directive?, directiveDefinitions_of_repeats hrepeats huntitled]
  rfl

end

/-! ## Owners -/

mutual

theorem owner_of_mem_places {place : Place} :
    (selection : Selection) → place ∈ selection.places → place.owner = none
  | .field _ _ _ _ selections, hmem => by
      rw [Selection.places, List.mem_cons] at hmem
      rcases hmem with rfl | hmem
      · rfl
      · exact owner_of_mem_placesOfAll selections hmem
  | .spread _ _, hmem => by
      rw [Selection.places, List.mem_singleton] at hmem
      rw [hmem]
  | .inline _ _ selections, hmem => by
      rw [Selection.places, List.mem_cons] at hmem
      rcases hmem with rfl | hmem
      · rfl
      · exact owner_of_mem_placesOfAll selections hmem

theorem owner_of_mem_placesOfAll {place : Place} :
    (selections : List Selection) → place ∈ placesOfAll selections → place.owner = none
  | [], hmem => by
      rw [placesOfAll] at hmem
      contradiction
  | selection :: rest, hmem => by
      rw [placesOfAll, List.mem_append] at hmem
      rcases hmem with hmem | hmem
      · exact owner_of_mem_places selection hmem
      · exact owner_of_mem_placesOfAll rest hmem

end

theorem owner_of_mem_fieldPlaces {field : FieldDefinition} {place : Place}
    (hmem : place ∈ field.places) : place.owner = none := by
  rw [FieldDefinition.places, List.mem_cons] at hmem
  rcases hmem with rfl | hmem
  · rfl
  · obtain ⟨argument, -, rfl⟩ := List.mem_map.1 hmem
    rfl

theorem owner_of_mem_bodyPlaces {body : TypeBody} {isExtension : Bool} {place : Place}
    (hmem : place ∈ body.places isExtension) : place.owner = none := by
  cases body with
  | object interfaces fields =>
      obtain ⟨field, -, hfield⟩ := List.mem_flatMap.1 hmem
      exact owner_of_mem_fieldPlaces hfield
  | interface interfaces fields =>
      obtain ⟨field, -, hfield⟩ := List.mem_flatMap.1 hmem
      exact owner_of_mem_fieldPlaces hfield
  | enum values =>
      obtain ⟨value, -, rfl⟩ := List.mem_map.1 hmem
      rfl
  | input fields =>
      obtain ⟨field, -, rfl⟩ := List.mem_map.1 hmem
      rfl
  | _ => contradiction

theorem owner_of_mem_operationPlaces {definition : OperationDefinition} {place : Place}
    (hmem : place ∈ (Definition.operation definition).places) : place.owner = none := by
  simp only [Definition.places, List.cons_append, List.mem_cons, List.mem_append,
    List.mem_map] at hmem
  rcases hmem with rfl | ⟨parameter, -, rfl⟩ | hselected
  · rfl
  · rfl
  · exact owner_of_mem_placesOfAll _ hselected

theorem owner_of_mem_fragmentPlaces {definition : FragmentDefinition} {place : Place}
    (hmem : place ∈ (Definition.fragment definition).places) : place.owner = none := by
  rw [Definition.places, List.mem_cons] at hmem
  rcases hmem with rfl | hselected
  · rfl
  · exact owner_of_mem_placesOfAll _ hselected

/-- What belongs to the schema or a type counts as one place. -/
def ownedNames (document : Document) (place : Place) : List (Owner × String) :=
  match place.owner with
  | some owner => (document.singleNames place).map fun name => (owner, name)
  | none => []

theorem ownedNames_of_none {place : Place} (hnone : place.owner = none) :
    ownedNames document place = [] := by
  rw [ownedNames, hnone]

theorem ownedNames_eq_nil_iff {owner : Owner} {location : Location} {directives : List Directive} :
    ownedNames document ⟨some owner, location, directives⟩ = [] ↔
      ∀ applied ∈ directives, document.isSingle applied.name = false := by
  simp [ownedNames, Document.singleNames, List.map_eq_nil_iff, List.filter_eq_nil_iff]

/-- The directives that count for the owner of a definition. -/
theorem flatMap_ownedNames_eq_nil_iff (huntitled : definition.isUntitled = true) :
    definition.places.flatMap (ownedNames document) = [] ↔
      match definition with
      | .schema _ directives _ => ∀ applied ∈ directives, document.isSingle applied.name = false
      | .schemaExtension directives _ =>
          ∀ applied ∈ directives, document.isSingle applied.name = false
      | .typeExtension node =>
          ∀ applied ∈ node.directives, document.isSingle applied.name = false
      | _ => True := by
  cases definition with
  | schema about directives operations =>
      simp [Definition.places, ownedNames_eq_nil_iff]
  | schemaExtension directives operations =>
      simp [Definition.places, ownedNames_eq_nil_iff]
  | typeExtension node =>
      have hbody : (node.body.places true).flatMap (ownedNames document) = [] := by
        rw [List.flatMap_eq_nil_iff]
        exact fun place hplace => ownedNames_of_none (owner_of_mem_bodyPlaces hplace)
      rw [Definition.places, TypeNode.places, List.flatMap_cons, hbody, List.append_nil,
        ownedNames_eq_nil_iff]
  | operation d =>
      rw [List.flatMap_eq_nil_iff]
      exact iff_of_true
        (fun place hplace => ownedNames_of_none (owner_of_mem_operationPlaces hplace)) trivial
  | fragment d =>
      rw [List.flatMap_eq_nil_iff]
      exact iff_of_true
        (fun place hplace => ownedNames_of_none (owner_of_mem_fragmentPlaces hplace)) trivial
  | _ => contradiction

/-! ## Rules -/

section

variable (hrepeats : Repeats more few many) (huntitled : ∀ d ∈ more, d.isUntitled = true)

include hrepeats

def Definition.isSchema : Definition → Bool
  | .schema .. => true
  | _ => false

theorem hasOneSchema_of_repeats :
    many.hasOneSchema = true ↔ few.hasOneSchema = true ∧ ∀ d ∈ more, d.isSchema = false := by
  have hcount := hrepeats.countP_eq Definition.isSchema
  have hfew : 0 < more.countP Definition.isSchema → 0 < few.countP Definition.isSchema := by
    simp only [List.countP_pos_iff]
    rintro ⟨d, hd, hschema⟩
    exact ⟨d, hrepeats.mem_of_mem_more hd, hschema⟩
  have hnone : (∀ d ∈ more, d.isSchema = false) ↔ more.countP Definition.isSchema = 0 := by
    rw [List.countP_eq_zero]
    simp only [Bool.not_eq_true]
  have hone : ∀ document : Document,
      document.hasOneSchema = true ↔ document.countP Definition.isSchema ≤ 1 := by
    intro document
    rw [Document.hasOneSchema, decide_eq_true_iff]
    rfl
  rw [hone, hone, hnone, hcount]
  omega

theorem areUnique_of_repeats {β : Type} [DecidableEq β] (f : Definition → List β) :
    Document.areUnique (many.flatMap f) = true ↔
      Document.areUnique (few.flatMap f) = true ∧ ∀ d ∈ more, f d = [] := by
  rw [Document.areUnique, Document.areUnique, decide_eq_true_iff, decide_eq_true_iff,
    (hrepeats.flatMap f).nodup_iff, List.flatMap_eq_nil_iff]

end

/-- The node of a definition or an extension. -/
def Definition.node? : Definition → Option TypeNode
  | .type _ node => some node
  | .typeExtension node => some node
  | _ => none

def Definition.operations : Definition → List (Operation × String)
  | .schema _ _ operations => operations
  | .schemaExtension _ operations => operations
  | _ => []

/-- Values of enumerations with the names of their types. -/
def TypeNode.valueNames (node : TypeNode) : List (String × String) :=
  node.body.values.map fun value => (node.name, value.name)

/-- Fields with the names of their types. -/
def TypeNode.fieldNames (node : TypeNode) : List (String × String) :=
  node.body.fields.map (fun field => (node.name, field.name)) ++
    node.body.inputs.map fun field => (node.name, field.name)

theorem hasUniqueOperations_eq (document : Document) :
    document.hasUniqueOperations =
      Document.areUnique (document.flatMap fun d => d.operations.map (·.1)) := by
  rw [Document.hasUniqueOperations, Document.operations, List.map_flatMap]
  rfl

theorem flatMap_typeNodes {β : Type} (document : Document) (f : TypeNode → List β) :
    document.typeNodes.flatMap f = document.flatMap fun d => d.node?.toList.flatMap f := by
  rw [← List.flatMap_assoc, ← List.filterMap_eq_flatMap_toList]
  rfl

theorem hasUniqueEnumValues_eq (document : Document) :
    document.hasUniqueEnumValues =
      Document.areUnique
        (document.flatMap fun d => d.node?.toList.flatMap TypeNode.valueNames) := by
  rw [← flatMap_typeNodes, Document.hasUniqueEnumValues]
  congr 2
  funext node
  rw [TypeNode.valueNames]
  cases node.body <;> rfl

theorem hasUniqueFields_eq (document : Document) :
    document.hasUniqueFields =
      Document.areUnique
        (document.flatMap fun d => d.node?.toList.flatMap TypeNode.fieldNames) := by
  rw [← flatMap_typeNodes, Document.hasUniqueFields]
  congr 2
  funext node
  rw [TypeNode.fieldNames]
  cases node.body <;> simp [TypeBody.fields, TypeBody.inputs]

theorem hasUniqueApplications_eq (document : Document) :
    document.hasUniqueApplications =
      ((document.all fun d => d.places.all fun place =>
        place.owner.isSome || Document.areUnique (document.singleNames place)) &&
        Document.areUnique (document.flatMap fun d => d.places.flatMap (ownedNames document))) := by
  rw [Document.hasUniqueApplications, Document.places, List.all_flatMap, List.flatMap_assoc]
  rfl

theorem mayRepeat_iff (huntitled : definition.isUntitled = true) :
    definition.mayRepeat document = true ↔
      definition.isSchema = false ∧ definition.operations.map (·.1) = [] ∧
        definition.node?.toList.flatMap TypeNode.valueNames = [] ∧
        definition.node?.toList.flatMap TypeNode.fieldNames = [] ∧
        definition.places.flatMap (ownedNames document) = [] := by
  rw [flatMap_ownedNames_eq_nil_iff huntitled]
  cases definition with
  | type about node => contradiction
  | typeExtension node =>
      simp [Definition.mayRepeat, Definition.isSchema, Definition.operations, Definition.node?,
        TypeNode.valueNames, TypeNode.fieldNames, and_assoc, and_left_comm]
  | _ =>
      simp [Definition.mayRepeat, Definition.isSchema, Definition.operations, Definition.node?]

/-- The rules that ask something of every definition by itself. -/
def steadyRules : List (Document → Bool) :=
  [Document.hasUniqueTypes, Document.hasUniqueArgumentDefinitions, Document.hasUniqueDirectives,
    Document.hasKnownTypes, Document.hasKnownDirectives, Document.hasPossibleExtensions,
    Document.hasKnownArguments, Document.hasUniqueArguments, Document.hasUniqueObjectFields,
    Document.hasRequiredArguments]

theorem isValid_iff (document : Document) :
    document.isValid = true ↔
      (∀ rule ∈ steadyRules, rule document = true) ∧ document.hasOneSchema = true ∧
        document.hasUniqueOperations = true ∧ document.hasUniqueEnumValues = true ∧
        document.hasUniqueFields = true ∧ document.hasUniqueApplications = true := by
  simp only [Document.isValid, Document.rules, steadyRules, List.all_cons, List.all_nil,
    Bool.and_eq_true, Bool.and_true, List.forall_mem_cons]
  tauto

section

variable (hrepeats : Repeats more few many) (huntitled : ∀ d ∈ more, d.isUntitled = true)

include hrepeats huntitled

theorem steadyRule_of_repeats {rule : Document → Bool} (hrule : rule ∈ steadyRules) :
    rule many = rule few := by
  have htypes := definedTypes_of_repeats hrepeats huntitled
  have hdefinitions := directiveDefinitions_of_repeats hrepeats huntitled
  have hdirective := directive?_of_repeats hrepeats huntitled
  have hnodes : Repeats (Document.typeNodes more) few.typeNodes many.typeNodes :=
    hrepeats.filterMap _
  have hplaces : Repeats (Document.places more) few.places many.places := hrepeats.flatMap _
  have happlications : Repeats (Document.applications more) few.applications many.applications :=
    hplaces.flatMap _
  simp only [steadyRules, List.mem_cons, List.not_mem_nil, or_false] at hrule
  rcases hrule with rfl | rfl | rfl | rfl | rfl | rfl | rfl | rfl | rfl | rfl
  · rw [Document.hasUniqueTypes, htypes]
    rfl
  · rw [Document.hasUniqueArgumentDefinitions, hdefinitions, hnodes.all_eq]
    rfl
  · rw [Document.hasUniqueDirectives, hdefinitions]
    rfl
  · rw [Document.hasKnownTypes, htypes, hrepeats.all_eq]
    rfl
  · rw [Document.hasKnownDirectives, hdirective, hplaces.all_eq]
    rfl
  · rw [Document.hasPossibleExtensions, hrepeats.all_eq, Document.hasPossibleExtensions]
    congr 1
    funext definition
    cases definition with
    | typeExtension node => exact hrepeats.any_eq _
    | _ => rfl
  · rw [Document.hasKnownArguments, hdirective, happlications.all_eq]
    rfl
  · exact hrepeats.all_eq _
  · exact hrepeats.all_eq _
  · rw [Document.hasRequiredArguments, hdirective, happlications.all_eq]
    rfl

theorem hasUniqueApplications_of_repeats :
    many.hasUniqueApplications = true ↔ few.hasUniqueApplications = true ∧
      ∀ d ∈ more, d.places.flatMap (ownedNames few) = [] := by
  have hsingle : many.singleNames = few.singleNames := by
    funext place
    have hisSingle : many.isSingle = few.isSingle := by
      funext name
      rw [Document.isSingle, directive?_of_repeats hrepeats huntitled]
      rfl
    rw [Document.singleNames, hisSingle]
    rfl
  have howned : ownedNames many = ownedNames few := by
    funext place
    rw [ownedNames, hsingle]
    rfl
  rw [hasUniqueApplications_eq, hasUniqueApplications_eq, hsingle, howned, Bool.and_eq_true,
    Bool.and_eq_true, hrepeats.all_eq, areUnique_of_repeats hrepeats, and_assoc]

/-- A document with repetitions is valid if it is valid without them and each of them may
stand there again. -/
theorem isValid_of_repeats :
    many.isValid = true ↔ few.isValid = true ∧ ∀ d ∈ more, d.mayRepeat few = true := by
  have hsteady : (∀ rule ∈ steadyRules, rule many = true) ↔
      ∀ rule ∈ steadyRules, rule few = true :=
    forall₂_congr fun rule hrule => by rw [steadyRule_of_repeats hrepeats huntitled hrule]
  have hmay : (∀ d ∈ more, d.mayRepeat few = true) ↔
      ∀ d ∈ more, d.isSchema = false ∧ d.operations.map (·.1) = [] ∧
        d.node?.toList.flatMap TypeNode.valueNames = [] ∧
        d.node?.toList.flatMap TypeNode.fieldNames = [] ∧
        d.places.flatMap (ownedNames few) = [] :=
    forall₂_congr fun d hd => mayRepeat_iff (huntitled d hd)
  rw [isValid_iff, isValid_iff, hsteady, hasOneSchema_of_repeats hrepeats, hasUniqueOperations_eq,
    hasUniqueOperations_eq, hasUniqueEnumValues_eq, hasUniqueEnumValues_eq, hasUniqueFields_eq,
    hasUniqueFields_eq, areUnique_of_repeats hrepeats, areUnique_of_repeats hrepeats,
    areUnique_of_repeats hrepeats, hasUniqueApplications_of_repeats hrepeats huntitled, hmay]
  simp only [forall₂_and]
  tauto

theorem partsOf_of_repeats (name : String) :
    Repeats (Schema.extensionsOf more name) (partsOf few name) (partsOf many name) := by
  have hdefinition : definition? many name = definition? few name := by
    apply hrepeats.findSome?_eq
    intro d hd
    have hnew := huntitled d hd
    cases d <;> first | rfl | contradiction
  rw [partsOf, partsOf, hdefinition]
  exact (hrepeats.filterMap _).append_left _

/-- What extensions list is listed again. -/
theorem listedBy_of_repeats (name : String) :
    Repeats ((Schema.extensionsOf more name).flatMap (·.body.listed)) (listedBy few name)
      (listedBy many name) :=
  (partsOf_of_repeats hrepeats huntitled name).flatMap _

theorem mem_appliedBy_of_repeats {name applied : String} :
    applied ∈ appliedBy many name ↔ applied ∈ appliedBy few name :=
  (((partsOf_of_repeats hrepeats huntitled name).flatMap _).map _).mem_iff

/-- Definitions that may be repeated change nothing but what is listed. -/
theorem relists_of_repeats (hmay : ∀ d ∈ more, d.mayRepeat few = true) :
    Relists few many := by
  have hextensions : ∀ name, Repeats (Schema.extensionsOf more name)
      (Schema.extensionsOf few name) (Schema.extensionsOf many name) :=
    fun name => hrepeats.filterMap _
  have hnodes : ∀ name, ∀ node ∈ Schema.extensionsOf more name,
      node.body.fields = [] ∧ node.body.values = [] ∧ node.body.inputs = [] := by
    intro name node hnode
    have hthis := hmay _ (mem_extensionsOf_iff.1 hnode).1
    simp only [Definition.mayRepeat, Bool.and_eq_true, List.isEmpty_iff] at hthis
    exact ⟨hthis.1.1.1, hthis.1.1.2, hthis.1.2⟩
  have hoperations : many.operations = few.operations :=
    hrepeats.flatMap_eq fun d hd =>
      List.map_eq_nil_iff.1 ((mayRepeat_iff (huntitled d hd)).1 (hmay d hd)).2.1
  refine ⟨?_, ?_, directiveDefinitions_of_repeats hrepeats huntitled, ?_, ?_, ?_, ?_, ?_, ?_⟩
  · rw [Bool.eq_iff_iff, isValid_of_repeats hrepeats huntitled]
    exact and_iff_left hmay
  · apply hrepeats.filterMap_eq
    intro d hd
    have hnew := huntitled d hd
    cases d <;> first | rfl | contradiction
  · rw [Schema.rootsOf, hrepeats.any_eq, hoperations, definedTypes_of_repeats hrepeats huntitled]
    rfl
  · apply hrepeats.findSome?_eq
    intro d hd
    have hthis := hmay d hd
    cases d <;> first | rfl | contradiction
  · exact fun name => (hextensions name).flatMap_eq fun node hnode => (hnodes name node hnode).1
  · exact fun name => (hextensions name).flatMap_eq fun node hnode => (hnodes name node hnode).2.1
  · exact fun name => (hextensions name).flatMap_eq fun node hnode => (hnodes name node hnode).2.2
  · intro name test
    exact (listedBy_of_repeats hrepeats huntitled name).find?_eq test

end

end Sdl

end ConfigSchema
