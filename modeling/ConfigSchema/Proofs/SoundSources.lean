import ConfigSchema.Proofs.DetouredGraphs
import ConfigSchema.Proofs.RelistedSchemas
import ConfigSchema.Proofs.SoundDocuments

/-!
# Schemas of sound documents

A document that is valid, has sound definitions and defines no type under the name of a built-in one
has a sound schema if its root types are objects, and the defaults of the schema are constants of
the language.  If it defines no built-in directive either, its own directives stand between the
marks and the built-in ones.
-/

namespace ConfigSchema

namespace Sdl

variable {document : Document}

/-- Whether a document defines no type under the name of a built-in one. -/
def AvoidsBuiltInTypes (document : Document) : Prop :=
  ∀ name ∈ document.definedTypes, name ∉ BuiltIn.typeNames

instance : DecidablePred AvoidsBuiltInTypes := fun document =>
  inferInstanceAs (Decidable (∀ name ∈ document.definedTypes, name ∉ BuiltIn.typeNames))

/-- Whether a document defines nothing under the name of something built in.  What is defined under
such a name is not printed again, and with a directive go the built-in types that only its arguments
lead to. -/
structure AvoidsBuiltIn (document : Document) : Prop where
  types : AvoidsBuiltInTypes document
  directives : ∀ d ∈ document.directiveDefinitions, d.name ∉ BuiltIn.directiveNames

/-! ## Definitions and their extensions -/

section

variable {first : TypeBody} {more : List TypeBody}

theorem TypeBody.fields_followedBy_sublist (first : TypeBody) (more : List TypeBody) :
    (first.followedBy more).fields.Sublist (first.fields ++ more.flatMap TypeBody.fields) := by
  cases first <;> simp [TypeBody.followedBy, TypeBody.fields]

theorem TypeBody.values_followedBy_sublist (first : TypeBody) (more : List TypeBody) :
    (first.followedBy more).values.Sublist (first.values ++ more.flatMap TypeBody.values) := by
  cases first <;> simp [TypeBody.followedBy, TypeBody.values]

theorem TypeBody.inputs_followedBy_sublist (first : TypeBody) (more : List TypeBody) :
    (first.followedBy more).inputs.Sublist (first.inputs ++ more.flatMap TypeBody.inputs) := by
  cases first <;> simp [TypeBody.followedBy, TypeBody.inputs]

theorem forall_mem_of_sublist {α : Type} {P : α → Prop} {g : TypeBody → List α} {found : List α}
    (hsublist : found.Sublist (g first ++ more.flatMap g)) (hfirst : ∀ a ∈ g first, P a)
    (hmore : ∀ body ∈ more, ∀ a ∈ g body, P a) : ∀ a ∈ found, P a := by
  intro a ha
  rcases List.mem_append.1 (hsublist.subset ha) with ha | ha
  · exact hfirst a ha
  · obtain ⟨body, hbody, ha⟩ := List.mem_flatMap.1 ha
    exact hmore body hbody a ha

theorem TypeBody.IsSound.followedBy [Runtime] (hfirst : first.IsSound)
    (hmore : ∀ body ∈ more, body.IsSound) : (first.followedBy more).IsSound where
  fields := forall_mem_of_sublist (first.fields_followedBy_sublist more) hfirst.fields
    fun body hbody => (hmore body hbody).fields
  values := forall_mem_of_sublist (first.values_followedBy_sublist more) hfirst.values
    fun body hbody => (hmore body hbody).values
  inputs := forall_mem_of_sublist (first.inputs_followedBy_sublist more) hfirst.inputs
    fun body hbody => (hmore body hbody).inputs

end

theorem sublist_flatMap_extensionsOf {β : Type} (f : TypeNode → List β) (name : String)
    (document : Document) :
    ((Schema.extensionsOf document name).flatMap f).Sublist
      (document.flatMap fun d => d.node?.toList.flatMap f) := by
  induction document with
  | nil => exact List.Sublist.refl _
  | cons first rest ih =>
      rw [Schema.extensionsOf, List.filterMap_cons, List.flatMap_cons]
      split
      · exact ih.trans (List.sublist_append_right _ _)
      · next node hnode =>
          have hfirst : first.node? = some node := by
            split at hnode
            · split_ifs at hnode
              exact hnode
            · contradiction
          rw [hfirst, Option.toList_some, List.flatMap_singleton, List.flatMap_cons]
          exact (List.Sublist.refl _).append ih

/-- What different definitions do not share, a definition and its extensions do not. -/
theorem nodup_parts {β : Type} {f : TypeNode → List β} {about : Option Literal} {node : TypeNode}
    (hnode : .type about node ∈ document)
    (hnodup : (document.flatMap fun d => d.node?.toList.flatMap f).Nodup) :
    (f node ++ (Schema.extensionsOf document node.name).flatMap f).Nodup := by
  obtain ⟨before, after, rfl⟩ := List.append_of_mem hnode
  have hextensions : Schema.extensionsOf (before ++ .type about node :: after) node.name =
      Schema.extensionsOf before node.name ++ Schema.extensionsOf after node.name := by
    simp [Schema.extensionsOf, List.filterMap_append]
  have hself : (Definition.type about node).node?.toList.flatMap f = f node :=
    List.flatMap_singleton _ _
  rw [List.flatMap_append, List.flatMap_cons, hself] at hnodup
  rw [hextensions, List.flatMap_append]
  have hparts := hnodup.sublist ((sublist_flatMap_extensionsOf f node.name before).append
    ((List.Sublist.refl (f node)).append (sublist_flatMap_extensionsOf f node.name after)))
  exact List.perm_append_comm_assoc _ _ _ |>.nodup_iff.1 hparts

/-- The parts of a type that have to have different names have them. -/
structure TypeBody.IsDistinct (body : TypeBody) : Prop where
  fields : (body.fields.map (·.name)).Nodup
  values : (body.values.map (·.name)).Nodup
  inputs : (body.inputs.map (·.name)).Nodup
  arguments : ∀ field ∈ body.fields, (field.arguments.map (·.name)).Nodup

section

variable {about : Option Literal} {node : TypeNode}

theorem nodup_names_of_parts {γ : Type} {g : TypeBody → List γ} {label : γ → String}
    {pairs : TypeNode → List (String × String)}
    (hpairs : ∀ node, ((g node.body).map fun a => (node.name, label a)).Sublist (pairs node))
    (hnode : .type about node ∈ document)
    (hnodup : (document.flatMap fun d => d.node?.toList.flatMap pairs).Nodup) {found : List γ}
    (hfound : found.Sublist
      (g node.body ++ ((Schema.extensionsOf document node.name).map (·.body)).flatMap g)) :
    (found.map label).Nodup := by
  have hlabelled : ∀ part ∈ Schema.extensionsOf document node.name,
      (g part.body).map (fun a => (node.name, label a)) =
        (g part.body).map fun a => (part.name, label a) := by
    intro part hpart
    rw [(mem_extensionsOf_iff.1 hpart).2]
  have hall : ((g node.body ++
      ((Schema.extensionsOf document node.name).map (·.body)).flatMap g).map
        fun a => (node.name, label a)).Sublist
      (pairs node ++ (Schema.extensionsOf document node.name).flatMap pairs) := by
    rw [List.map_append, List.flatMap_map, List.map_flatMap, List.flatMap_congr hlabelled]
    refine (hpairs node).append ?_
    generalize Schema.extensionsOf document node.name = parts
    induction parts with
    | nil => exact List.Sublist.refl _
    | cons part rest ih =>
        rw [List.flatMap_cons, List.flatMap_cons]
        exact (hpairs part).append ih
  have hpaired := (nodup_parts hnode hnodup).sublist ((hfound.map _).trans hall)
  have hself : (found.map label).map (fun name => (node.name, name)) =
      found.map fun a => (node.name, label a) := by
    rw [List.map_map]
    rfl
  exact (hself ▸ hpaired : ((found.map label).map fun name => (node.name, name)).Nodup).of_map

theorem nodup_arguments (hvalid : document.isValid = true) {node : TypeNode}
    (hnode : node ∈ document.typeNodes) :
    ∀ field ∈ node.body.fields, (field.arguments.map (·.name)).Nodup := by
  have hrule := Document.satisfies hvalid Document.hasUniqueArgumentDefinitions
    (by simp [Document.rules])
  have htest := List.all_eq_true.1 (Bool.and_eq_true_iff.1 hrule).2 node hnode
  intro field hfield
  unfold TypeBody.fields at hfield
  split at htest
  · next hbody =>
      rw [hbody] at hfield
      exact of_decide_eq_true (List.all_eq_true.1 htest field hfield)
  · next hbody =>
      rw [hbody] at hfield
      exact of_decide_eq_true (List.all_eq_true.1 htest field hfield)
  · next hobject hinterface =>
      split at hfield
      · next hbody => exact absurd hbody (hobject _ _)
      · next hbody => exact absurd hbody (hinterface _ _)
      · simp at hfield

theorem isDistinct_merged (hvalid : document.isValid = true)
    (hnode : .type about node ∈ document) :
    (node.body.followedBy
      ((Schema.extensionsOf document node.name).map (·.body))).IsDistinct := by
  have hfields := Document.satisfies hvalid Document.hasUniqueFields (by simp [Document.rules])
  have hvalues := Document.satisfies hvalid Document.hasUniqueEnumValues
    (by simp [Document.rules])
  rw [hasUniqueFields_eq] at hfields
  rw [hasUniqueEnumValues_eq] at hvalues
  refine ⟨?_, ?_, ?_, ?_⟩
  · exact nodup_names_of_parts (fun node => List.sublist_append_left _ _) hnode
      (of_decide_eq_true hfields) (node.body.fields_followedBy_sublist _)
  · exact nodup_names_of_parts (fun node => List.Sublist.refl _) hnode
      (of_decide_eq_true hvalues) (node.body.values_followedBy_sublist _)
  · exact nodup_names_of_parts (fun node => List.sublist_append_right _ _) hnode
      (of_decide_eq_true hfields) (node.body.inputs_followedBy_sublist _)
  · refine forall_mem_of_sublist (node.body.fields_followedBy_sublist _)
      (nodup_arguments hvalid (List.mem_filterMap.2 ⟨_, hnode, rfl⟩)) ?_
    intro body hbody
    obtain ⟨part, hpart, rfl⟩ := List.mem_map.1 hbody
    exact nodup_arguments hvalid
      (List.mem_filterMap.2 ⟨_, (mem_extensionsOf_iff.1 hpart).1, rfl⟩)

end

end Sdl

namespace Schema

/-! ## Parts -/

theorem isPlainText_textOf [Runtime] {description : Option Sdl.Literal}
    (hplain : Sdl.HasPlainText description) : IsPlainText (textOf description) := by
  cases description with
  | none => exact isPlainText_none
  | some literal =>
      rintro _ ⟨⟩
      exact hplain literal rfl

theorem isConstant_of_appliedArgument? [Runtime] {directives : List Sdl.Directive}
    {name argument : String} {value : Sdl.Value} (hsound : Sdl.AreSoundDirectives directives)
    (happlied : appliedArgument? directives name argument = some (some value)) :
    value.IsConstant := by
  obtain ⟨applied, hfound, hlookup⟩ := Option.map_eq_some_iff.1 happlied
  have harguments := hsound applied (List.mem_of_find?_eq_some hfound)
  obtain ⟨before, after, hsplit, -⟩ := List.lookup_eq_some_iff.1 hlookup
  have hmem : (argument, value) ∈ applied.arguments :=
    hsplit ▸ List.mem_append_right before List.mem_cons_self
  exact (Sdl.areConstantFields_iff.1 harguments _ hmem).2

theorem isPlainText_of_deprecation? [Runtime] {directives : List Sdl.Directive}
    {reason : Option String} (hsound : Sdl.AreSoundDirectives directives)
    (hreason : deprecation? directives = some reason) : IsPlainText reason := by
  unfold deprecation? at hreason
  split at hreason
  · cases hreason
    exact isPlainText_none
  · cases hreason
    rintro _ ⟨⟩
    exact Text.hasSurrogate_of_ascii (by decide)
  · next literal happlied =>
      cases hreason
      rintro _ ⟨⟩
      exact isConstant_of_appliedArgument? hsound happlied
  · cases hreason
    exact isPlainText_none
  · contradiction

theorem isPlainText_of_specifiedBy? [Runtime] {directives : List Sdl.Directive}
    {url : Option String}
    (hsound : Sdl.AreSoundDirectives directives) (hurl : specifiedBy? directives = some url) :
    IsPlainText url := by
  unfold specifiedBy? at hurl
  split at hurl
  · cases hurl
    exact isPlainText_none
  · next literal happlied =>
      cases hurl
      rintro _ ⟨⟩
      exact isConstant_of_appliedArgument? hsound happlied
  · contradiction

/-- Whether the default of a value, if it has one, is a constant of the language. -/
def InputValue.HasConstant [Runtime] (input : InputValue) : Prop :=
  ∀ value ∈ input.default, value.IsConstant

theorem of_inputValue? [Runtime] {input : Sdl.InputValue} {made : InputValue}
    (hsound : input.IsSound)
    (hmade : inputValue? input = some made) : made.IsSound ∧ made.HasConstant := by
  obtain ⟨deprecation, hdeprecation, rfl⟩ := Option.map_eq_some_iff.1 hmade
  exact ⟨⟨hsound.name, isPlainText_textOf hsound.description, hsound.type,
    isPlainText_of_deprecation? hsound.directives hdeprecation⟩, hsound.default⟩

theorem name_of_inputValue? {input : Sdl.InputValue} {made : InputValue}
    (hmade : inputValue? input = some made) : made.name = input.name := by
  obtain ⟨_, -, rfl⟩ := Option.map_eq_some_iff.1 hmade
  rfl

theorem forall_mem_of_mapM {α β : Type} {f : α → Option β} {P : β → Prop} {items : List α}
    {made : List β} (hmade : items.mapM f = some made)
    (hitems : ∀ a ∈ items, ∀ b, f a = some b → P b) : ∀ b ∈ made, P b := by
  intro b hb
  obtain ⟨a, ha, hab⟩ := Results.exists_left_of_forall₂ (Results.mapM_eq_some_iff.1 hmade) hb
  exact hitems a ha b hab

theorem areSoundInputs_of_mapM [Runtime] {inputs : List Sdl.InputValue} {made : List InputValue}
    (hsound : ∀ input ∈ inputs, input.IsSound) (hnodup : (inputs.map (·.name)).Nodup)
    (hmade : inputs.mapM inputValue? = some made) :
    AreSoundInputs made ∧ ∀ input ∈ made, input.HasConstant := by
  have hnames : made.map (·.name) = inputs.map (·.name) :=
    Results.map_eq_of_mapM hmade fun _ _ _ => name_of_inputValue?
  refine ⟨⟨?_, hnames ▸ hnodup⟩, ?_⟩
  · exact forall_mem_of_mapM hmade fun input hinput _ hof =>
      (of_inputValue? (hsound input hinput) hof).1
  · exact forall_mem_of_mapM hmade fun input hinput _ hof =>
      (of_inputValue? (hsound input hinput) hof).2

theorem of_field? [Runtime] {field : Sdl.FieldDefinition} {made : Field} (hsound : field.IsSound)
    (hnodup : (field.arguments.map (·.name)).Nodup) (hmade : field? field = some made) :
    made.IsSound ∧ made.name = field.name ∧ ∀ input ∈ made.arguments, input.HasConstant := by
  simp only [field?, Option.bind_eq_bind, Option.bind_eq_some_iff] at hmade
  obtain ⟨arguments, harguments, deprecation, hdeprecation, hmade⟩ := hmade
  cases hmade
  obtain ⟨hinputs, hconstants⟩ := areSoundInputs_of_mapM hsound.arguments hnodup harguments
  exact ⟨⟨hsound.name, isPlainText_textOf hsound.description, hinputs, hsound.type,
    isPlainText_of_deprecation? hsound.directives hdeprecation⟩, rfl, hconstants⟩

theorem areSoundFields_of_mapM [Runtime] {fields : List Sdl.FieldDefinition} {made : List Field}
    (hsound : ∀ field ∈ fields, field.IsSound) (hnodup : (fields.map (·.name)).Nodup)
    (harguments : ∀ field ∈ fields, (field.arguments.map (·.name)).Nodup)
    (hmade : fields.mapM field? = some made) :
    AreSoundFields made ∧ ∀ input ∈ made.flatMap (·.arguments), input.HasConstant := by
  have hnames : made.map (·.name) = fields.map (·.name) := by
    refine Results.map_eq_of_mapM hmade fun field _ made hof => ?_
    simp only [field?, Option.bind_eq_bind, Option.bind_eq_some_iff] at hof
    obtain ⟨_, -, _, -, hof⟩ := hof
    cases hof
    rfl
  have hparts := forall_mem_of_mapM (P := fun made : Field =>
    made.IsSound ∧ ∀ input ∈ made.arguments, input.HasConstant) hmade
      fun field hfield made hof =>
        ⟨(of_field? (hsound field hfield) (harguments field hfield) hof).1,
          (of_field? (hsound field hfield) (harguments field hfield) hof).2.2⟩
  refine ⟨⟨fun field hfield => (hparts field hfield).1, hnames ▸ hnodup⟩, ?_⟩
  intro input hinput
  obtain ⟨field, hfield, hinput⟩ := List.mem_flatMap.1 hinput
  exact (hparts field hfield).2 input hinput

theorem areSoundValues_of_mapM [Runtime] {values : List Sdl.EnumValueDefinition}
    {made : List EnumValue}
    (hsound : ∀ value ∈ values, value.IsSound) (hnodup : (values.map (·.name)).Nodup)
    (hmade : values.mapM enumValue? = some made) : AreSoundValues made := by
  have hnames : made.map (·.name) = values.map (·.name) := by
    refine Results.map_eq_of_mapM hmade fun value _ made hof => ?_
    obtain ⟨_, -, rfl⟩ := Option.map_eq_some_iff.1 hof
    rfl
  refine ⟨forall_mem_of_mapM hmade fun value hvalue made hof => ?_, hnames ▸ hnodup⟩
  obtain ⟨deprecation, hdeprecation, rfl⟩ := Option.map_eq_some_iff.1 hof
  have hvalue' := hsound value hvalue
  exact ⟨hvalue'.name, hvalue'.word, isPlainText_textOf hvalue'.description,
    isPlainText_of_deprecation? hvalue'.directives hdeprecation⟩

theorem of_shape? [Runtime] {directives : List Sdl.Directive} {body : Sdl.TypeBody} {shape : Shape}
    (hdirectives : Sdl.AreSoundDirectives directives) (hsound : body.IsSound)
    (hdistinct : body.IsDistinct) (hshape : shape? directives body = some shape) :
    shape.IsSound ∧ ∀ input ∈ shape.inputValues, input.HasConstant := by
  cases body with
  | scalar =>
      obtain ⟨url, hurl, rfl⟩ := Option.map_eq_some_iff.1 hshape
      exact ⟨isPlainText_of_specifiedBy? hdirectives hurl, by simp [Shape.inputValues]⟩
  | object interfaces fields =>
      obtain ⟨made, hmade, rfl⟩ := Option.map_eq_some_iff.1 hshape
      exact areSoundFields_of_mapM hsound.fields hdistinct.fields hdistinct.arguments hmade
  | interface interfaces fields =>
      obtain ⟨made, hmade, rfl⟩ := Option.map_eq_some_iff.1 hshape
      exact areSoundFields_of_mapM hsound.fields hdistinct.fields hdistinct.arguments hmade
  | union members =>
      cases hshape
      exact ⟨trivial, by simp [Shape.inputValues]⟩
  | enum values =>
      obtain ⟨made, hmade, rfl⟩ := Option.map_eq_some_iff.1 hshape
      exact ⟨areSoundValues_of_mapM hsound.values hdistinct.values hmade,
        by simp [Shape.inputValues]⟩
  | input fields =>
      obtain ⟨made, hmade, rfl⟩ := Option.map_eq_some_iff.1 hshape
      exact areSoundInputs_of_mapM hsound.inputs hdistinct.inputs hmade

/-! ## Types and directives -/

theorem of_directive? [Runtime] {d : Sdl.DirectiveDefinition} {made : Directive}
    (hsound : d.IsSound)
    (hnodup : (d.arguments.map (·.name)).Nodup) (hmade : directive? d = some made) :
    made.IsSound ∧ made.name = d.name ∧ ∀ input ∈ made.arguments, input.HasConstant := by
  obtain ⟨arguments, harguments, rfl⟩ := Option.map_eq_some_iff.1 hmade
  obtain ⟨hinputs, hconstants⟩ := areSoundInputs_of_mapM hsound.arguments hnodup harguments
  exact ⟨⟨hsound.name, isPlainText_textOf hsound.description, hinputs, hsound.locations, rfl⟩,
    rfl, hconstants⟩

theorem of_namedType? [Runtime] {document : Sdl.Document} (hvalid : document.isValid = true)
    (hdefinitions : ∀ definition ∈ document, definition.IsSound) {about : Option Sdl.Literal}
    {node : Sdl.TypeNode} (hnode : .type about node ∈ document)
    (hown : node.name ∉ Sdl.BuiltIn.typeNames) {type : NamedType}
    (htype : namedType? document about node = some type) :
    type.IsSound ∧ ∀ input ∈ type.shape.inputValues, input.HasConstant := by
  obtain ⟨habout, hsound⟩ := hdefinitions _ hnode
  have hbodies : ∀ body ∈ (extensionsOf document node.name).map (·.body), body.IsSound := by
    intro body hbody
    obtain ⟨part, hpart, rfl⟩ := List.mem_map.1 hbody
    exact (hdefinitions _ (Sdl.mem_extensionsOf_iff.1 hpart).1 : part.IsSound).body
  rw [namedType?, BuiltIn.type?_eq_none_iff.2 hown] at htype
  obtain ⟨shape, hshape, rfl⟩ := Option.map_eq_some_iff.1 htype
  rw [mergedBody_of_isValid hvalid hnode] at hshape
  obtain ⟨hparts, hconstants⟩ := of_shape? hsound.directives (hsound.body.followedBy hbodies)
    (Sdl.isDistinct_merged hvalid hnode) hshape
  exact ⟨⟨hown, hsound.name, isPlainText_textOf habout, hparts⟩, hconstants⟩

/-! ## Schemas -/

theorem BuiltIn.isSound_directiveDefinitions [Runtime] :
    ∀ d ∈ Sdl.BuiltIn.directives, d.IsSound ∧ (d.arguments.map (·.name)).Nodup := by
  have hnone : Sdl.HasPlainText none := by simp [Sdl.HasPlainText]
  have hinput : ∀ {name : String} {type : TypeRef} {default : Option Sdl.Value},
      Introspection.isName name = true → type.IsWritable → (∀ v ∈ default, v.IsConstant) →
        Sdl.InputValue.IsSound { name, type, default } := fun hname htype hdefault =>
    ⟨hnone, hname, htype, hdefault, by simp [Sdl.AreSoundDirectives]⟩
  have hneeded : ∀ name : String, (TypeRef.required (.named name)).IsWritable := fun name =>
    ⟨⟨rfl, trivial⟩, Nat.zero_le _⟩
  have hcondition : Sdl.BuiltIn.condition.IsSound := hinput (by decide) (hneeded _) (by simp)
  have hreason : ∀ v ∈ some (Sdl.Value.string ⟨Sdl.BuiltIn.deprecationReason, false⟩),
      v.IsConstant := by
    rintro _ ⟨⟩
    have hlow : Text.IsAscii Sdl.BuiltIn.deprecationReason := by decide
    exact Text.hasSurrogate_of_ascii hlow
  simp only [Sdl.BuiltIn.directives, List.forall_mem_cons]
  refine ⟨⟨⟨hnone, by decide, ?_, by simp [Sdl.BuiltIn.includeDirective]⟩, by decide⟩,
    ⟨⟨hnone, by decide, ?_, by simp [Sdl.BuiltIn.skipDirective]⟩, by decide⟩,
    ⟨⟨hnone, by decide, ?_, by simp [Sdl.BuiltIn.deprecatedDirective]⟩, by decide⟩,
    ⟨⟨hnone, by decide, ?_, by simp [Sdl.BuiltIn.specifiedByDirective]⟩, by decide⟩,
    ⟨⟨hnone, by decide, ?_, by simp [Sdl.BuiltIn.oneOfDirective]⟩, by decide⟩, by simp⟩
  · exact List.forall_mem_singleton.2 hcondition
  · exact List.forall_mem_singleton.2 hcondition
  · exact List.forall_mem_singleton.2 (hinput (by decide) ⟨trivial, Nat.zero_le _⟩ hreason)
  · exact List.forall_mem_singleton.2 (hinput (by decide) (hneeded _) (by simp))
  · simp [Sdl.BuiltIn.oneOfDirective]

theorem isSound_marks [Runtime] : ∀ definition ∈ Sources.marks, definition.IsSound := by
  have hmark : ∀ name : String, Introspection.isName name = true →
      Sdl.DirectiveDefinition.IsSound { name, locations := [.object] } := fun name hname =>
    ⟨by simp [Sdl.HasPlainText], hname, by simp, by simp⟩
  simp only [Sources.marks, List.forall_mem_cons]
  exact ⟨hmark _ (by decide), hmark _ (by decide), by simp⟩

variable {schema : Schema} {document : Sdl.Document}

/-- The marks stand in front of what a document defines besides them. -/
theorem exists_firsts_marks_append (document : Sdl.Document) :
    ∃ rest : Sdl.Document, Sdl.firsts (Sources.marks ++ document) = Sources.marks ++ rest ∧
      (∀ definition ∈ rest, definition ∈ document) ∧
        ∀ d ∈ rest.directiveDefinitions, d.name ∉ [docsDirective, openDirective] := by
  refine ⟨_, Sdl.firsts_append Sources.marks document, ?_, ?_⟩
  · intro definition hmem
    exact List.mem_of_mem_filter ((Sdl.firsts_sublist _).subset hmem)
  · intro d hd hname
    obtain ⟨definition, hmem, heq⟩ := List.mem_filterMap.1 hd
    have hfilter := (List.mem_filter.1 ((Sdl.firsts_sublist _).subset hmem)).2
    cases definition <;> cases heq
    simp only [List.mem_cons, List.not_mem_nil, or_false] at hname
    rcases hname with hname | hname <;>
      simp [Sources.marks, Sdl.haveSameTitle, hname] at hfilter

/-- A schema of a source: what the source defines behind the marks is valid, sound, and no built-in
type. -/
structure IsRead [Runtime] (schema : Schema) (document : Sdl.Document) : Prop where
  isOf : schema.IsOf (Sdl.firsts (Sources.marks ++ document))
  definitions : ∀ definition ∈ document, definition.IsSound
  types : Sdl.AvoidsBuiltInTypes document

theorem IsRead.isSound_definitions [Runtime] (hread : schema.IsRead document) :
    ∀ definition ∈ Sdl.firsts (Sources.marks ++ document), definition.IsSound := by
  intro definition hmem
  rcases List.mem_append.1 ((Sdl.firsts_sublist _).subset hmem) with hmark | hmem
  · exact isSound_marks definition hmark
  · exact hread.definitions definition hmem

/-- The types of a source are sound, and their defaults are constants. -/
theorem IsRead.isSound_types [Runtime] (hread : schema.IsRead document) {type : NamedType}
    (htype : type ∈ schema.types) :
    type.IsSound ∧ ∀ input ∈ type.shape.inputValues, input.HasConstant := by
  have htypes := hread.isOf.types
  rw [typesOf?_eq] at htypes
  obtain ⟨⟨about, node⟩, hmem, hnamed⟩ :=
    Results.exists_left_of_forall₂ (Results.mapM_eq_some_iff.1 htypes) htype
  have hnode := Sdl.mem_typeDefinitions_iff.1 hmem
  refine of_namedType? hread.isOf.isValid hread.isSound_definitions hnode ?_ hnamed
  rcases List.mem_append.1 ((Sdl.firsts_sublist _).subset hnode) with hmark | hown
  · simp [Sources.marks] at hmark
  · exact hread.types _ (List.mem_filterMap.2 ⟨_, hown, rfl⟩)

theorem notMem_directiveNames_of_avoids (havoids : Sdl.AvoidsBuiltIn document) :
    ∀ d ∈ (Sdl.firsts (Sources.marks ++ document)).directiveDefinitions,
      d.name ∉ Sdl.BuiltIn.directiveNames := by
  intro d hd
  obtain ⟨definition, hmem, heq⟩ := List.mem_filterMap.1 hd
  rcases List.mem_append.1 ((Sdl.firsts_sublist _).subset hmem) with hmark | hown
  · exact (by decide : ∀ d ∈ Sources.marks.directiveDefinitions,
      d.name ∉ Sdl.BuiltIn.directiveNames) d (List.mem_filterMap.2 ⟨definition, hmark, heq⟩)
  · exact havoids.directives d (List.mem_filterMap.2 ⟨definition, hown, heq⟩)

/-- The directives of a source stand between the marks and the built-in ones, if it does not define
one of these. -/
theorem IsRead.exists_own [Runtime] (hread : schema.IsRead document)
    (havoids : Sdl.AvoidsBuiltIn document) : ∃ own, schema.HasOwnDirectives own := by
  obtain ⟨rest, hfirsts, -, hunmarked⟩ := exists_firsts_marks_append document
  have hbuiltIn := notMem_directiveNames_of_avoids havoids
  have hdirectives := (directivesOf?_eq hbuiltIn).symm.trans hread.isOf.directives
  rw [hfirsts, Sdl.Document.directiveDefinitions, List.filterMap_append] at hdirectives hbuiltIn
  rw [List.mapM_append, List.mapM_append] at hdirectives
  simp only [Option.bind_eq_bind, Option.bind_eq_some_iff, pure, Option.some.injEq] at hdirectives
  obtain ⟨_, ⟨marked, hmarked, own, hown, rfl⟩, builtIn, hbuilt, hall⟩ := hdirectives
  have hnames : own.map (·.name) = rest.directiveDefinitions.map (·.name) :=
    Results.map_eq_of_mapM hown fun d _ made hmade => by
      obtain ⟨_, -, rfl⟩ := Option.map_eq_some_iff.1 hmade
      rfl
  have hnamed : ∀ d ∈ own, d.name ∈ rest.directiveDefinitions.map (·.name) :=
    fun d hd => hnames ▸ List.mem_map_of_mem hd
  refine ⟨own, ?_, ?_, ?_⟩
  · cases hmarked
    cases hbuilt
    exact hall.symm
  · intro d hd
    obtain ⟨other, hother, heq⟩ := List.mem_map.1 (hnamed d hd)
    exact heq ▸ hunmarked other hother
  · intro d hd
    obtain ⟨other, hother, heq⟩ := List.mem_map.1 (hnamed d hd)
    exact heq ▸ hbuiltIn other (List.mem_append_right _ hother)

theorem IsRead.isSound_directives [Runtime] (hread : schema.IsRead document) :
    ∀ d ∈ schema.directives, d.IsSound ∧ ∀ input ∈ d.arguments, input.HasConstant := by
  have hrule := Sdl.Document.satisfies hread.isOf.isValid
    Sdl.Document.hasUniqueArgumentDefinitions (by simp [Sdl.Document.rules])
  refine forall_mem_of_mapM hread.isOf.directives fun d hd made hmade => ?_
  have hboth : d.IsSound ∧ (d.arguments.map (·.name)).Nodup := by
    rcases List.mem_append.1 hd with hd | hbuiltIn
    · refine ⟨?_, of_decide_eq_true (List.all_eq_true.1 (Bool.and_eq_true_iff.1 hrule).1 d hd)⟩
      obtain ⟨definition, hmem, heq⟩ := List.mem_filterMap.1 hd
      have hsound := hread.isSound_definitions definition hmem
      cases definition <;> cases heq
      exact hsound
    · exact BuiltIn.isSound_directiveDefinitions d (List.mem_of_mem_filter hbuiltIn)
  obtain ⟨hsound, -, hconstants⟩ := of_directive? hboth.1 hboth.2 hmade
  exact ⟨hsound, hconstants⟩

theorem IsRead.nodup_names_directives [Runtime] (hread : schema.IsRead document) :
    (schema.directives.map (·.name)).Nodup := by
  have hrule := Sdl.Document.satisfies hread.isOf.isValid Sdl.Document.hasUniqueDirectives
    (by simp [Sdl.Document.rules])
  rw [Results.map_eq_of_mapM hread.isOf.directives fun d _ made hmade => by
    obtain ⟨_, -, rfl⟩ := Option.map_eq_some_iff.1 hmade
    rfl, List.map_append, List.nodup_append']
  have hbuiltIn : (Sdl.BuiltIn.directives.map (·.name)).Nodup := by decide
  refine ⟨of_decide_eq_true hrule, hbuiltIn.sublist (List.filter_sublist.map _), ?_⟩
  intro name hown hremains
  obtain ⟨d, hd, rfl⟩ := List.mem_map.1 hown
  obtain ⟨other, hother, hname⟩ := List.mem_map.1 hremains
  have hnone := (List.mem_filter.1 hother).2
  rw [Bool.not_eq_true', List.any_eq_false] at hnone
  exact hnone d hd (decide_eq_true hname.symm)

/-- What the specification asks of root types: there is one for queries, and all are objects. -/
structure HasValidRoots (schema : Schema) : Prop where
  query : schema.roots.query.isSome = true
  objects : ∀ name ∈ schema.roots.names, schema.isKind (· = .object) name = true

theorem IsRead.isPlainText_description [Runtime] (hread : schema.IsRead document) :
    IsPlainText schema.description := by
  rw [hread.isOf.description, descriptionOf]
  intro found hfound
  obtain ⟨definition, hmem, heq⟩ := List.exists_of_findSome?_eq_some hfound
  have hsound := hread.isSound_definitions definition hmem
  cases definition <;> try contradiction
  exact isPlainText_textOf hsound found heq

theorem IsRead.isSound [Runtime] (hread : schema.IsRead document) (hroots : schema.HasValidRoots) :
    schema.IsSound where
  description := hread.isPlainText_description
  types := fun _ htype => (hread.isSound_types htype).1
  nodup := hread.isOf.nodup_names_types
  directives := fun d hd => (hread.isSound_directives d hd).1
  isWellKinded := hread.isOf.isWellKinded
  roots := hroots.objects

theorem IsRead.hasConstant [Runtime] (hread : schema.IsRead document) :
    ∀ input ∈ schema.inputValues, input.HasConstant := by
  intro input hinput
  rcases List.mem_append.1 hinput with hinput | hinput
  · obtain ⟨d, hd, hinput⟩ := List.mem_flatMap.1 hinput
    exact (hread.isSound_directives d hd).2 input hinput
  · obtain ⟨type, htype, hinput⟩ := List.mem_flatMap.1 hinput
    exact (hread.isSound_types htype).2 input hinput

end Schema

end ConfigSchema
