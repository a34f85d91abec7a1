import ConfigSchema.Proofs.AlikeSchemas
import ConfigSchema.Proofs.DocumentSchemas
import ConfigSchema.Schema.Graph

/-!
# Documents that list other directives, interfaces and members

Extensions may add nothing but directives, interfaces and members of a union.  Where a document
is valid with and without such extensions, its schema changes in what it lists and in nothing
else: the same types stand in the same order, as long as the lists mention the same names first.
-/

namespace ConfigSchema

/-! ## What types list -/

/-- The interfaces or members that a body names. -/
def Sdl.TypeBody.listed : Sdl.TypeBody → List String
  | .object interfaces _ => interfaces
  | .interface interfaces _ => interfaces
  | .union members => members
  | _ => []

/-- The interfaces or members that a document lists for a type. -/
def Sdl.listedBy (document : Sdl.Document) (name : String) : List String :=
  (Sdl.partsOf document name).flatMap (·.body.listed)

/-- The names of the directives that a document applies to a type. -/
def Sdl.appliedBy (document : Sdl.Document) (name : String) : List String :=
  ((Sdl.partsOf document name).flatMap (·.directives)).map (·.name)

/-- Two lists in which the same is found. -/
def FindsAlike (one other : List String) : Prop :=
  ∀ test : String → Bool, one.find? test = other.find? test

theorem FindsAlike.mem_iff {one other : List String} (halike : FindsAlike one other)
    {name : String} : name ∈ one ↔ name ∈ other := by
  have hfind : ∀ items : List String,
      name ∈ items ↔ (items.find? fun item => item == name).isSome = true := by
    intro items
    rw [List.find?_isSome]
    simp
  rw [hfind, hfind, halike]

theorem FindsAlike.append {one other : List String} (halike : FindsAlike one other)
    {back last : List String} (hback : FindsAlike back last) :
    FindsAlike (one ++ back) (other ++ last) := by
  intro test
  rw [List.find?_append, List.find?_append, halike, hback]

theorem FindsAlike.refl (items : List String) : FindsAlike items items :=
  fun _ => rfl

namespace Schema

def Shape.listed : Shape → List String
  | .object interfaces _ => interfaces
  | .interface interfaces _ => interfaces
  | .union members => members
  | _ => []

/-- A shape with other interfaces or members. -/
def Shape.relisted (listed : List String) : Shape → Shape
  | .object _ fields => .object listed fields
  | .interface _ fields => .interface listed fields
  | .union _ => .union listed
  | shape => shape

theorem Shape.settlesAlike_relisted (shape : Shape) (listed : List String) :
    shape.SettlesAlike (shape.relisted listed) := by
  cases shape <;> constructor

theorem Shape.kind_relisted (shape : Shape) (listed : List String) :
    (shape.relisted listed).kind = shape.kind := by
  cases shape <;> rfl

/-- A type with the directives, interfaces or members that a document lists for it. -/
def NamedType.relisted (document : Sdl.Document) (type : NamedType) : NamedType :=
  if type.name ∈ Sdl.BuiltIn.typeNames then type
  else
    { type with
      directives := Sdl.appliedBy document type.name
      shape := type.shape.relisted (Sdl.listedBy document type.name) }

end Schema

/-- A schema with what a document lists. -/
def Schema.relisted (document : Sdl.Document) (schema : Schema) : Schema :=
  { schema with types := schema.types.map (Schema.NamedType.relisted document) }

namespace Sdl

/-- A document says the same as another, but for the directives, interfaces and members that
extensions list; these name the same first. -/
structure Relists (document other : Document) : Prop where
  isValid : other.isValid = document.isValid
  types : typeDefinitions other = typeDefinitions document
  directives : other.directiveDefinitions = document.directiveDefinitions
  roots : Schema.rootsOf other = Schema.rootsOf document
  description : Schema.descriptionOf other = Schema.descriptionOf document
  fields : ∀ name, (Schema.extensionsOf other name).flatMap (·.body.fields) =
    (Schema.extensionsOf document name).flatMap (·.body.fields)
  values : ∀ name, (Schema.extensionsOf other name).flatMap (·.body.values) =
    (Schema.extensionsOf document name).flatMap (·.body.values)
  inputs : ∀ name, (Schema.extensionsOf other name).flatMap (·.body.inputs) =
    (Schema.extensionsOf document name).flatMap (·.body.inputs)
  listed : ∀ name, FindsAlike (listedBy other name) (listedBy document name)

theorem Relists.refl (document : Document) : Relists document document :=
  ⟨rfl, rfl, rfl, rfl, rfl, fun _ => rfl, fun _ => rfl, fun _ => rfl, fun _ => .refl _⟩

theorem TypeBody.listed_followedBy {first : TypeBody} {more : List TypeBody}
    (hkinds : ∀ body ∈ more, body.kind = first.kind) :
    (first.followedBy more).listed = (first :: more).flatMap TypeBody.listed := by
  have hlisted : ∀ names : TypeBody → List String,
      (∀ body : TypeBody, body.kind = first.kind → body.listed = names body) →
        more.flatMap TypeBody.listed = more.flatMap names :=
    fun names hnames => List.flatMap_congr fun body hbody => hnames body (hkinds body hbody)
  rw [List.flatMap_cons]
  cases first with
  | object =>
      rw [hlisted interfaces (by rintro ⟨⟩ <;> simp [kind, listed, interfaces])]
      rfl
  | interface =>
      rw [hlisted interfaces (by rintro ⟨⟩ <;> simp [kind, listed, interfaces])]
      rfl
  | union =>
      rw [hlisted members (by rintro ⟨⟩ <;> simp [kind, listed, members])]
      rfl
  | _ =>
      rw [hlisted (fun _ => []) (by rintro ⟨⟩ <;> simp [kind, listed])]
      simp [followedBy, listed]

/-! Bodies that are followed by the same fields, values or inputs have the same. -/

section

variable {first : TypeBody} {one another : List TypeBody}

theorem TypeBody.fields_followedBy
    (hsame : one.flatMap TypeBody.fields = another.flatMap TypeBody.fields) :
    (first.followedBy one).fields = (first.followedBy another).fields := by
  cases first with
  | object interfaces fields => exact congrArg (fields ++ ·) hsame
  | interface interfaces fields => exact congrArg (fields ++ ·) hsame
  | _ => rfl

theorem TypeBody.values_followedBy
    (hsame : one.flatMap TypeBody.values = another.flatMap TypeBody.values) :
    (first.followedBy one).values = (first.followedBy another).values := by
  cases first with
  | enum values => exact congrArg (values ++ ·) hsame
  | _ => rfl

theorem TypeBody.inputs_followedBy
    (hsame : one.flatMap TypeBody.inputs = another.flatMap TypeBody.inputs) :
    (first.followedBy one).inputs = (first.followedBy another).inputs := by
  cases first with
  | input fields => exact congrArg (fields ++ ·) hsame
  | _ => rfl

end

end Sdl

namespace Schema

variable {schema : Schema} {document other : Sdl.Document}

/-! ## Types -/

theorem shape?_relisted {directives : List Sdl.Directive} {one another : Sdl.TypeBody}
    (hkind : another.kind = one.kind) (hfields : another.fields = one.fields)
    (hvalues : another.values = one.values) (hinputs : another.inputs = one.inputs) :
    shape? directives another = (shape? directives one).map (Shape.relisted another.listed) := by
  cases one <;> cases another <;>
    simp only [Sdl.TypeBody.kind, reduceCtorEq] at hkind <;>
    simp only [Sdl.TypeBody.fields, Sdl.TypeBody.values, Sdl.TypeBody.inputs]
      at hfields hvalues hinputs <;>
    simp [shape?, Sdl.TypeBody.listed, Shape.relisted, Function.comp_def, *]

theorem NamedType.name_relisted (type : NamedType) : (type.relisted document).name = type.name := by
  unfold relisted
  split <;> rfl

theorem NamedType.kind_relisted (type : NamedType) :
    (type.relisted document).shape.kind = type.shape.kind := by
  unfold relisted
  split
  · rfl
  · exact Shape.kind_relisted _ _

theorem kind_of_mem_bodies (hvalid : document.isValid = true) {about : Option Sdl.Literal}
    {node : Sdl.TypeNode} (hnode : .type about node ∈ document) {body : Sdl.TypeBody}
    (hbody : body ∈ (extensionsOf document node.name).map (·.body)) :
    body.kind = node.body.kind := by
  obtain ⟨extension, hextension, rfl⟩ := List.mem_map.1 hbody
  exact Sdl.kind_of_mem_extensionsOf hvalid hnode hextension

theorem mergedBody_of_isValid (hvalid : document.isValid = true) {about : Option Sdl.Literal}
    {node : Sdl.TypeNode} (hnode : .type about node ∈ document) :
    mergedBody node.body ((extensionsOf document node.name).map (·.body)) =
      node.body.followedBy ((extensionsOf document node.name).map (·.body)) := by
  apply mergedBody_eq_followedBy
  intro body hbody
  exact kind_of_mem_bodies hvalid hnode hbody

theorem listed_followedBy_extensionsOf (hvalid : document.isValid = true)
    {about : Option Sdl.Literal} {node : Sdl.TypeNode} (hnode : .type about node ∈ document) :
    (node.body.followedBy ((extensionsOf document node.name).map (·.body))).listed =
      Sdl.listedBy document node.name := by
  have hdefinition := Sdl.definition?_of_mem hvalid hnode
  rw [Sdl.TypeBody.listed_followedBy fun body => kind_of_mem_bodies hvalid hnode, Sdl.listedBy,
    Sdl.partsOf, hdefinition]
  simp [List.flatMap_map]

theorem listed_of_shape? {directives : List Sdl.Directive} {body : Sdl.TypeBody} {shape : Shape}
    (hshape : shape? directives body = some shape) : shape.listed = body.listed := by
  cases body with
  | union members =>
      cases hshape
      rfl
  | _ =>
      obtain ⟨_, -, rfl⟩ := Option.map_eq_some_iff.1 hshape
      rfl

/-- A type lists what its definition and then its extensions list. -/
theorem listed_of_namedType? (hvalid : document.isValid = true) {about : Option Sdl.Literal}
    {node : Sdl.TypeNode} (hnode : .type about node ∈ document) {type : NamedType}
    (htype : namedType? document about node = some type)
    (hname : node.name ∉ Sdl.BuiltIn.typeNames) :
    type.shape.listed = Sdl.listedBy document node.name := by
  unfold namedType? at htype
  rw [BuiltIn.type?_eq_none_iff.2 hname] at htype
  obtain ⟨shape, hshape, rfl⟩ := Option.map_eq_some_iff.1 htype
  rw [mergedBody_of_isValid hvalid hnode] at hshape
  rw [← listed_followedBy_extensionsOf hvalid hnode]
  exact listed_of_shape? hshape

theorem namedType?_relisted (hrelists : Sdl.Relists document other)
    (hvalid : document.isValid = true) {about : Option Sdl.Literal} {node : Sdl.TypeNode}
    (hnode : (about, node) ∈ Sdl.typeDefinitions document) :
    namedType? other about node =
      (namedType? document about node).map (NamedType.relisted other) := by
  have hvalidOther : other.isValid = true := hrelists.isValid.trans hvalid
  have hin := Sdl.mem_typeDefinitions_iff.1 hnode
  have hinOther := Sdl.mem_typeDefinitions_iff.1 (hrelists.types ▸ hnode)
  unfold namedType?
  cases hbuilt : BuiltIn.type? node.name with
  | some found =>
      have hname : found.name ∈ Sdl.BuiltIn.typeNames := by
        rw [← BuiltIn.names_types]
        exact List.mem_map_of_mem (BuiltIn.mem_of_type? hbuilt).1
      rw [Option.map_some, NamedType.relisted, if_pos hname]
  | none =>
      have hname := BuiltIn.type?_eq_none_iff.1 hbuilt
      have hdefinition := Sdl.definition?_of_mem hvalidOther hinOther
      have hlisted := listed_followedBy_extensionsOf hvalidOther hinOther
      have happlied : (node.directives ++ (extensionsOf other node.name).flatMap
          (·.directives)).map (·.name) = Sdl.appliedBy other node.name := by
        rw [Sdl.appliedBy, Sdl.partsOf, hdefinition]
        simp
      have hshape : shape? node.directives
            (node.body.followedBy ((extensionsOf other node.name).map (·.body))) =
          (shape? node.directives
            (node.body.followedBy ((extensionsOf document node.name).map (·.body)))).map
              (Shape.relisted (Sdl.listedBy other node.name)) := by
        rw [← hlisted]
        apply shape?_relisted
        · rw [Sdl.TypeBody.kind_followedBy, Sdl.TypeBody.kind_followedBy]
        · apply Sdl.TypeBody.fields_followedBy
          rw [List.flatMap_map, List.flatMap_map]
          exact hrelists.fields node.name
        · apply Sdl.TypeBody.values_followedBy
          rw [List.flatMap_map, List.flatMap_map]
          exact hrelists.values node.name
        · apply Sdl.TypeBody.inputs_followedBy
          rw [List.flatMap_map, List.flatMap_map]
          exact hrelists.inputs node.name
      dsimp only
      rw [mergedBody_of_isValid hvalid hin, mergedBody_of_isValid hvalidOther hinOther, hshape,
        happlied, Option.map_map, Option.map_map]
      congr 1
      funext shape
      rw [Function.comp_apply, Function.comp_apply, NamedType.relisted, if_neg hname]

theorem typesOf?_relisted (hrelists : Sdl.Relists document other)
    (hvalid : document.isValid = true) :
    typesOf? other = (typesOf? document).map (List.map (NamedType.relisted other)) := by
  rw [typesOf?_eq, typesOf?_eq, hrelists.types]
  exact Results.mapM_map_result fun (about, node) hnode =>
    namedType?_relisted hrelists hvalid hnode

/-- The types of a schema list what its document lists. -/
theorem relisted_of_mem (hvalid : document.isValid = true) {types : List NamedType}
    (htypes : typesOf? document = some types) {type : NamedType} (htype : type ∈ types) :
    type.relisted document = type := by
  have hsame := typesOf?_relisted (.refl document) hvalid
  rw [htypes, Option.map_some, Option.some.injEq] at hsame
  exact List.map_inj_left.1 (hsame.symm.trans (List.map_id types).symm) type htype

/-! ## Schemas -/

theorem type?_relisted (schema : Schema) (other : Sdl.Document) (name : String) :
    (schema.relisted other).type? name = (schema.type? name).map (NamedType.relisted other) := by
  unfold type?
  cases hbuilt : BuiltIn.type? name with
  | some found =>
      have hname : found.name ∈ Sdl.BuiltIn.typeNames := by
        rw [← BuiltIn.names_types]
        exact List.mem_map_of_mem (BuiltIn.mem_of_type? hbuilt).1
      rw [Option.some_or, Option.some_or, Option.map_some, NamedType.relisted, if_pos hname]
  | none =>
      rw [Option.none_or, Option.none_or, relisted, List.find?_map]
      congr 2
      funext type
      rw [Function.comp_apply, NamedType.name_relisted]

theorem settlesAlike_relisted (schema : Schema) (other : Sdl.Document) :
    schema.SettlesAlike (schema.relisted other) := by
  refine ⟨?_, rfl⟩
  rw [relisted, List.forall₂_map_right_iff, List.forall₂_same]
  intro type _
  refine ⟨type.name_relisted.symm, ?_⟩
  unfold NamedType.relisted
  split
  · exact Shape.SettlesAlike.refl _
  · exact Shape.settlesAlike_relisted _ _

theorem isKind_relisted (schema : Schema) (other : Sdl.Document)
    (test : Sdl.TypeBody.Kind → Bool) :
    (schema.relisted other).isKind test = schema.isKind test := by
  funext name
  unfold isKind
  rw [type?_relisted]
  cases schema.type? name with
  | none => rfl
  | some type =>
      dsimp only [Option.map_some]
      rw [NamedType.kind_relisted]

theorem isOutput_relisted (schema : Schema) (other : Sdl.Document) :
    (schema.relisted other).isOutput = schema.isOutput := by
  funext name
  rw [isOutput, isKind_relisted]
  rfl

theorem hasInputArguments_relisted (schema : Schema) (other : Sdl.Document) :
    (schema.relisted other).hasInputArguments = schema.hasInputArguments := by
  funext arguments
  simp only [hasInputArguments, isInput, isKind_relisted]

theorem hasFittingFields_relisted (schema : Schema) (other : Sdl.Document) :
    (schema.relisted other).hasFittingFields = schema.hasFittingFields := by
  funext interfaces fields
  simp only [hasFittingFields, isOutput_relisted, isKind_relisted, hasInputArguments_relisted]

/-- What a type of a document lists, it lists behind other extensions, too. -/
theorem relisted_cases (hrelists : Sdl.Relists document other)
    {type : NamedType} (htype : type.relisted document = type) :
    type.relisted other = type ∨
      (type.relisted other).shape = type.shape.relisted (Sdl.listedBy other type.name) ∧
        type.shape = type.shape.relisted (Sdl.listedBy document type.name) ∧
        FindsAlike (Sdl.listedBy other type.name) (Sdl.listedBy document type.name) := by
  by_cases hname : type.name ∈ Sdl.BuiltIn.typeNames
  · exact .inl (if_pos hname)
  · refine .inr ⟨?_, ?_, hrelists.listed type.name⟩
    · rw [NamedType.relisted, if_neg hname]
    · have hshape := congrArg NamedType.shape htype
      rw [NamedType.relisted, if_neg hname] at hshape
      exact hshape.symm

theorem hasFittingReferences_relisted (hrelists : Sdl.Relists document other)
    {type : NamedType} (htype : type.relisted document = type) :
    (schema.relisted other).hasFittingReferences (type.relisted other) =
      schema.hasFittingReferences type := by
  rcases relisted_cases hrelists htype with hsame | ⟨hrelisted, hown, halike⟩
  · unfold hasFittingReferences
    rw [hsame, hasFittingFields_relisted, hasInputArguments_relisted, isKind_relisted]
  · have hall : ∀ test : String → Bool, (Sdl.listedBy other type.name).all test =
        (Sdl.listedBy document type.name).all test := by
      intro test
      rw [Bool.eq_iff_iff, List.all_eq_true, List.all_eq_true]
      simp only [halike.mem_iff]
    unfold hasFittingReferences
    rw [hrelisted, hown, hasFittingFields_relisted, hasInputArguments_relisted, isKind_relisted]
    cases type.shape <;> simp only [Shape.relisted, hasFittingFields, hall]

theorem isWellKinded_relisted (hrelists : Sdl.Relists document other)
    (hvalid : document.isValid = true) (htypes : typesOf? document = some schema.types) :
    (schema.relisted other).isWellKinded = schema.isWellKinded := by
  have hreferences :
      (schema.relisted other).types.all (schema.relisted other).hasFittingReferences =
      schema.types.all schema.hasFittingReferences := by
    rw [Bool.eq_iff_iff, List.all_eq_true, List.all_eq_true]
    simp only [relisted, List.forall_mem_map]
    apply forall₂_congr
    intro type htype
    rw [← hasFittingReferences_relisted hrelists (relisted_of_mem hvalid htypes htype)]
    rfl
  unfold isWellKinded
  rw [hreferences, hasInputArguments_relisted]
  rfl

/-- A document that lists more has a schema exactly if the document without it has. -/
theorem ofDocument?_relisted [Runtime] (hrelists : Sdl.Relists document other) :
    ofDocument? other = (ofDocument? document).map (Schema.relisted other) := by
  have hof : ∀ schema : Schema, schema.IsOf document → (schema.relisted other).IsOf other := by
    rintro schema ⟨hvalid, htypes, hdirectives, hroots, hdescription, hwell, hsettles⟩
    refine ⟨hrelists.isValid.trans hvalid, ?_, ?_, hroots.trans hrelists.roots.symm,
      hdescription.trans hrelists.description.symm, ?_, ?_⟩
    · rw [typesOf?_relisted hrelists hvalid, htypes]
      rfl
    · rw [directivesOf?, hrelists.directives]
      exact hdirectives
    · rw [isWellKinded_relisted hrelists hvalid htypes]
      exact hwell
    · rw [← (schema.settlesAlike_relisted other).settledInputs?_eq]
      exact hsettles
  cases hfound : ofDocument? document with
  | some schema => exact ofDocument?_eq_some_iff.2 (hof schema (ofDocument?_eq_some_iff.1 hfound))
  | none =>
      rw [Option.map_none, Option.eq_none_iff_forall_ne_some]
      intro listed hlisted
      -- The schema of the longer document tells the schema of the shorter one.
      obtain ⟨hvalid, htypes, hdirectives, hroots, hdescription, hwell, hsettles⟩ :=
        ofDocument?_eq_some_iff.1 hlisted
      have hvalidFirst := hrelists.isValid.symm.trans hvalid
      rw [typesOf?_relisted hrelists hvalidFirst, Option.map_eq_some_iff] at htypes
      obtain ⟨types, htypes, hmapped⟩ := htypes
      have hrelisted : Schema.relisted other { listed with types } = listed := by
        rw [relisted, hmapped]
      have hfirst : Schema.IsOf { listed with types } document := by
        refine ⟨hvalidFirst, htypes, ?_, hroots.trans hrelists.roots,
          hdescription.trans hrelists.description, ?_, ?_⟩
        · rw [directivesOf?, ← hrelists.directives]
          exact hdirectives
        · rw [← isWellKinded_relisted hrelists hvalidFirst htypes, hrelisted]
          exact hwell
        · rw [(settlesAlike_relisted _ other).settledInputs?_eq, hrelisted]
          exact hsettles
      rw [ofDocument?_eq_some_iff.2 hfirst] at hfound
      contradiction

/-! ## Orders -/

theorem gather_of_find?_eq_none {references : String → List String}
    {remaining pending : List String} (hnone : pending.find? remaining.contains = none) :
    gather references remaining pending = [] := by
  rw [gather]
  split
  · rfl
  · next found hfound =>
      rw [hnone] at hfound
      contradiction

theorem gather_of_find?_eq_some {references : String → List String}
    {remaining pending : List String} {name : String}
    (hname : pending.find? remaining.contains = some name) :
    gather references remaining pending =
      name :: gather references (remaining.erase name) (references name ++ pending) := by
  rw [gather]
  split
  · next hnone =>
      rw [hname] at hnone
      contradiction
  · next found hfound =>
      rw [hname, Option.some.injEq] at hfound
      rw [hfound]

/-- A search depends on what is found first among the references. -/
theorem gather_congr {references others : String → List String}
    (halike : ∀ name, FindsAlike (references name) (others name)) {remaining pending : List String}
    {asked : List String} (hasked : FindsAlike pending asked) :
    gather references remaining pending = gather others remaining asked := by
  fun_induction gather references remaining pending generalizing asked with
  | case1 remaining pending hnone =>
      rw [hasked] at hnone
      exact (gather_of_find?_eq_none hnone).symm
  | case2 remaining pending first hfirst ih =>
      rw [hasked] at hfirst
      rw [gather_of_find?_eq_some hfirst, ih ((halike first).append hasked)]

theorem walk_congr {references others : String → List String}
    (halike : ∀ name, FindsAlike (references name) (others name))
    {starts asked : List (Option String × List String)}
    (hasked : List.Forall₂ (fun one another => one.1 = another.1 ∧ FindsAlike one.2 another.2)
      starts asked) (remaining : List String) :
    walk references remaining starts = walk others remaining asked := by
  induction hasked generalizing remaining with
  | nil => rfl
  | @cons start another _ _ hfirst _ ih =>
      obtain ⟨own, pending⟩ := start
      obtain ⟨_, sought⟩ := another
      obtain ⟨rfl, hfinds⟩ := hfirst
      rw [walk, walk, gather_congr halike hfinds, ih]

theorem NamedType.references_relisted (hrelists : Sdl.Relists document other) {type : NamedType}
    (htype : type.relisted document = type) :
    FindsAlike (type.relisted other).references type.references := by
  rcases relisted_cases hrelists htype with hsame | ⟨hrelisted, hown, halike⟩
  · rw [hsame]
    exact .refl _
  · unfold references
    rw [hrelisted, hown]
    cases type.shape with
    | object interfaces fields => exact halike.append (.refl _)
    | interface interfaces fields => exact halike.append (.refl _)
    | union members => exact halike
    | _ => exact .refl _

/-- The types of a schema and of the schemas built in list what the document lists. -/
theorem relisted_of_type? [Runtime] (hof : schema.IsOf document) {name : String} {type : NamedType}
    (htype : schema.type? name = some type) : type.relisted document = type := by
  rcases type?_cases htype with ⟨hbuilt, hname⟩ | ⟨-, hmem, -⟩
  · rw [← (BuiltIn.mem_of_type? hbuilt).2] at hname
    exact if_pos hname
  · exact relisted_of_mem hof.isValid hof.types hmem

theorem referencesOf_relisted [Runtime] (hof : schema.IsOf document)
    (hrelists : Sdl.Relists document other) (name : String) :
    FindsAlike ((schema.relisted other).referencesOf name) (schema.referencesOf name) := by
  unfold referencesOf
  rw [type?_relisted]
  cases htype : schema.type? name with
  | none => exact .refl _
  | some type => exact NamedType.references_relisted hrelists (relisted_of_type? hof htype)

theorem orderedNames_relisted [Runtime] (hof : schema.IsOf document)
    (hrelists : Sdl.Relists document other) :
    (schema.relisted other).orderedNames = schema.orderedNames := by
  have hnames : (schema.relisted other).types.map (·.name) = schema.types.map (·.name) := by
    rw [relisted, List.map_map]
    apply List.map_congr_left
    intro type _
    exact type.name_relisted
  have hreferences := referencesOf_relisted hof hrelists
  unfold orderedNames
  dsimp only
  rw [hnames]
  apply walk_congr hreferences
  refine List.rel_append ?_ (List.forall₂_same.2 fun start _ => ⟨rfl, .refl _⟩)
  rw [List.forall₂_map_left_iff, List.forall₂_map_right_iff, List.forall₂_same]
  exact fun name _ => ⟨rfl, hreferences name⟩

end Schema

/-! ## Graphs -/

def TypeShape.listed : TypeShape → List String
  | .object _ interfaces => interfaces
  | .interface _ interfaces => interfaces
  | .union members => members
  | _ => []

/-- A shape with other interfaces or members. -/
def TypeShape.relisted (listed : List String) : TypeShape → TypeShape
  | .object fields _ => .object fields listed
  | .interface fields _ => .interface fields listed
  | .union _ => .union listed
  | shape => shape

/-- A type with the directives, interfaces or members that a document lists for it. -/
def TypeDef.relisted (document : Sdl.Document) (type : TypeDef) : TypeDef :=
  if type.name ∈ Sdl.BuiltIn.typeNames then type
  else
    { type with
      directives := Sdl.appliedBy document type.name
      shape := type.shape.relisted (Sdl.listedBy document type.name) }

namespace Schema

variable {schema : Schema} {document other : Sdl.Document}

theorem toGraph?_relisted (type : NamedType) (other : Sdl.Document) :
    (type.relisted other).toGraph? = type.toGraph?.map (TypeDef.relisted other) := by
  have hshape : ∀ (shape : Shape) listed,
      (shape.relisted listed).toGraph? = shape.toGraph?.map (TypeShape.relisted listed) := by
    intro shape listed
    cases shape <;> rfl
  unfold NamedType.toGraph?
  rw [NamedType.name_relisted]
  split
  · rfl
  · by_cases hname : type.name ∈ Sdl.BuiltIn.typeNames
    · have hself : type.relisted other = type := if_pos hname
      rw [hself, Option.map_map]
      congr 1
      funext shape
      rw [Function.comp_apply, TypeDef.relisted, if_pos hname]
    · rw [NamedType.relisted, if_neg hname, hshape, Option.map_map, Option.map_map]
      congr 1
      funext shape
      rw [Function.comp_apply, Function.comp_apply, TypeDef.relisted, if_neg hname]

theorem toGraph_relisted [Runtime] (hof : schema.IsOf document)
    (hrelists : Sdl.Relists document other) :
    (schema.relisted other).toGraph.types =
      schema.toGraph.types.map (TypeDef.relisted other) := by
  have htypes : ∀ schema : Schema, schema.toGraph.types =
      schema.orderedNames.filterMap fun name => (schema.type? name).bind NamedType.toGraph? := by
    intro schema
    rw [← List.filterMap_filterMap]
    rfl
  rw [htypes, htypes, orderedNames_relisted hof hrelists, List.map_filterMap]
  apply List.filterMap_congr
  intro name _
  rw [type?_relisted]
  cases schema.type? name with
  | none => rfl
  | some type => exact toGraph?_relisted type other

end Schema

end ConfigSchema
