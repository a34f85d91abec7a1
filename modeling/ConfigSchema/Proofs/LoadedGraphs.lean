import ConfigSchema.Proofs.DocumentParts
import ConfigSchema.Proofs.OutlineOutcome
import ConfigSchema.Proofs.SchemaGraph
import ConfigSchema.Sources.Loading

/-!
# Graphs of loaded sources

A graph that is made of loaded sources knows all that its types refer to but the types of
introspection, which sources may name and graphs leave out.  So a schema document or a fragment
fails at a name exactly if a type of introspection is met on the way, unless there is no room to
come to it; a schema document needs very little room.
-/

namespace ConfigSchema

namespace Schema

variable {schema : Schema} {name last : String} {type : TypeDef}

theorem notMem_names_of_introspection (hname : name ∈ Sdl.BuiltIn.introspectionNames) :
    name ∉ schema.toGraph.index.names := by
  intro hmem
  exact (mem_names_toGraph_iff.1 hmem).2.1 hname

/-- A name is looked up, or it is that of a type of introspection. -/
def IsKnown (schema : Schema) (name : String) : Prop :=
  name ∈ schema.toGraph.index.names ∨ name ∈ Sdl.BuiltIn.introspectionNames

theorem isKnown_of_references (hwell : schema.isWellKinded = true)
    (htype : type ∈ schema.toGraph.types) (hmem : name ∈ type.references) :
    schema.IsKnown name := by
  by_cases hname : name ∈ Sdl.BuiltIn.introspectionNames
  · exact .inr hname
  · exact .inl ((mem_names_iff_of_references hwell htype hmem).2 hname)

theorem mem_types_of_get? (hget : schema.toGraph.index.get? name = some type) :
    type ∈ schema.toGraph.types :=
  ((isIndexed_toGraph schema name type).1 hget).1

/-! ## Expansions -/

theorem isKnown_of_expands (hwell : schema.isWellKinded = true)
    (hstep : schema.toGraph.Expands name last) : schema.IsKnown last := by
  rcases hstep.cases with ⟨type, members, hget, hshape, hmem⟩ | ⟨type, htype, rfl⟩
  · exact isKnown_of_references hwell (mem_types_of_get? hget)
      (TypeDef.mem_references_iff.2 (.inr (.inr ⟨members, hshape, hmem⟩)))
  · have hget := (isIndexed_toGraph schema).get?_name (TypeGraph.mem_objects_iff.1 htype).1
    exact .inl (Entries.mem_names_of_get? hget)

theorem isObject_of_expands (hwell : schema.isWellKinded = true)
    (hstep : schema.toGraph.Expands name last) (hget : schema.toGraph.index.get? last = some type) :
    type.isObject = true := by
  rcases hstep.cases with ⟨union, members, hunion, hshape, hmember⟩ | ⟨object, hobject, rfl⟩
  · have hfits := fitsKinds_of_mem hwell (mem_types_of_get? hunion)
    exact isObject_of_isKind (hfits.members members hshape last hmember) hget
  · obtain ⟨htype, hkind⟩ := TypeGraph.mem_objects_iff.1 hobject
    rw [(isIndexed_toGraph schema).get?_name htype, Option.some.injEq] at hget
    rw [← hget]
    exact hkind

/-- Members are object types, so no expansion goes on after one step. -/
theorem not_expands_twice (hwell : schema.isWellKinded = true) {first second third : String}
    (hfirst : schema.toGraph.Expands first second) : ¬ schema.toGraph.Expands second third := by
  intro hsecond
  obtain ⟨type, variants, hget, hvariants, hmem⟩ := hsecond
  have hobject := isObject_of_expands hwell hfirst hget
  exact TypeGraph.not_expands_of_isObject hget hobject ⟨type, variants, hget, hvariants, hmem⟩

theorem isExpandable_toGraph (hwell : schema.isWellKinded = true) :
    schema.toGraph.IsExpandable where
  isNamed := (isIndexed_toGraph schema).isNamed
  finite := by
    intro name hcycle
    obtain ⟨next, hfirst, hrest⟩ := Relation.TransGen.head'_iff.1 hcycle
    rcases Relation.ReflTransGen.cases_head hrest with rfl | ⟨third, hsecond, -⟩
    · exact not_expands_twice hwell hfirst hfirst
    · exact not_expands_twice hwell hfirst hsecond

theorem expandsIn_cases (hwell : schema.isWellKinded = true) {steps : Nat}
    (hpath : schema.toGraph.ExpandsIn steps name last) :
    steps = 0 ∧ name = last ∨ steps = 1 ∧ schema.toGraph.Expands name last := by
  cases steps with
  | zero => exact .inl ⟨rfl, hpath⟩
  | succ steps =>
      obtain ⟨next, hfirst, hrest⟩ := hpath
      cases steps with
      | zero =>
          have hnext : next = last := hrest
          rw [hnext] at hfirst
          exact .inr ⟨rfl, hfirst⟩
      | succ steps =>
          obtain ⟨third, hsecond, -⟩ := hrest
          exact absurd hsecond (not_expands_twice hwell hfirst)

/-- A name stands for a type of introspection or for a union that lists one. -/
def MeetsIntrospection (schema : Schema) (name : String) : Prop :=
  ∃ other ∈ Sdl.BuiltIn.introspectionNames, name = other ∨ schema.toGraph.Lists name other

/-- No expansion takes more than four calls. -/
theorem length_le_of_reachesBy (hwell : schema.isWellKinded = true) {calls : List Call}
    (hpath : schema.toGraph.ReachesBy name last calls) : calls.length ≤ 4 := by
  obtain ⟨steps, hsteps, hlength⟩ := hpath.exists_expandsIn
  rcases expandsIn_cases hwell hsteps with ⟨rfl, -⟩ | ⟨rfl, -⟩ <;> omega

section Nodes

variable [Runtime] {under : List Call}

theorem not_hasRoomFor_of_leadsTooFar (hwell : schema.isWellKinded = true)
    (hfar : schema.toGraph.LeadsTooFar under name) : ¬ Runtime.HasRoomFor (4 + under.length) := by
  obtain ⟨last, calls, hpath, hfull⟩ := hfar
  refine Runtime.not_hasRoomFor hfull ?_
  have hlength := length_le_of_reachesBy hwell hpath
  rw [List.length_append]
  omega

theorem node_outcome (hwell : schema.isWellKinded = true) (describe : Bool)
    (hname : schema.IsKnown name) (under : List Call) :
    (∃ node, schema.toGraph.node describe name under = .ok node) ∧
        ¬ schema.MeetsIntrospection name ∨
      schema.toGraph.node describe name under = .error .tooDeep ∧
        ¬ Runtime.HasRoomFor (4 + under.length) ∨
      schema.MeetsIntrospection name ∧ ∃ other ∈ Sdl.BuiltIn.introspectionNames,
        schema.toGraph.node describe name under = .error (.unknownType other) := by
  have houtcome := TypeGraph.node_outcome (isExpandable_toGraph hwell) describe name under
  cases hnode : schema.toGraph.node describe name under with
  | ok node =>
      rw [hnode] at houtcome
      cases houtcome with
      | finished _ hall =>
          refine .inl ⟨⟨node, rfl⟩, ?_⟩
          rintro ⟨other, hother, rfl | hlists⟩
          · exact notMem_names_of_introspection hother (hall name _ (.here name))
          · exact notMem_names_of_introspection hother
              (hall other _ (.variant hlists.expands (.here other)))
  | error e =>
      rw [hnode] at houtcome
      cases houtcome with
      | tooDeep hfar => exact .inr (.inl ⟨rfl, not_hasRoomFor_of_leadsTooFar hwell hfar⟩)
      | unknown last calls hpath hunknown =>
          obtain ⟨steps, hsteps, -⟩ := hpath.exists_expandsIn
          refine .inr (.inr ?_)
          rcases expandsIn_cases hwell hsteps with ⟨-, rfl⟩ | ⟨-, hstep⟩
          · have hother := hname.resolve_left hunknown
            exact ⟨⟨name, hother, .inl rfl⟩, name, hother, rfl⟩
          · have hother := (isKnown_of_expands hwell hstep).resolve_left hunknown
            rcases hstep.cases with hlists | ⟨type, htype, rfl⟩
            · exact ⟨⟨last, hother, .inr hlists⟩, last, hother, rfl⟩
            · have hget := (isIndexed_toGraph schema).get?_name
                (TypeGraph.mem_objects_iff.1 htype).1
              exact absurd (Entries.mem_names_of_get? hget) hunknown

end Nodes

/-! ## Documents and fragments -/

theorem isKnown_of_leadsTo (hwell : schema.isWellKinded = true)
    (htype : type ∈ schema.toGraph.types) (hleads : schema.toGraph.LeadsTo type name) :
    schema.IsKnown name := by
  have hparts : ∀ owner ∈ schema.toGraph.types, ∀ part ∈ owner.parts,
      schema.IsKnown part.target := by
    intro owner howner part hpart
    exact isKnown_of_references hwell howner (TypeDef.target_mem_references hpart)
  induction hleads with
  | here hpart => exact hparts type htype _ hpart
  | deeper _ hget _ hpart _ => exact hparts _ (mem_types_of_get? hget) _ hpart

section Documents

variable [Runtime]

theorem not_hasRoomFor_of_isTooDeep (hwell : schema.isWellKinded = true)
    (hdeep : schema.toGraph.IsTooDeep) : ¬ Runtime.HasRoomFor 7 := by
  cases hdeep with
  | compile hfull => exact Runtime.not_hasRoomFor hfull (by decide)
  | object _ hfull => exact Runtime.not_hasRoomFor hfull (by decide)
  | field _ _ hfar => exact not_hasRoomFor_of_leadsTooFar hwell hfar

theorem objectProperties_outcome (hwell : schema.isWellKinded = true) (describe : Bool) :
    (∃ built, schema.toGraph.objectProperties describe = .ok built) ∧
        (∀ type ∈ schema.toGraph.objects, ∀ field ∈ type.fields,
          ¬ schema.MeetsIntrospection field.type.base) ∨
      schema.toGraph.objectProperties describe = .error .tooDeep ∧ ¬ Runtime.HasRoomFor 7 ∨
      (∃ type ∈ schema.toGraph.objects, ∃ field ∈ type.fields,
          schema.MeetsIntrospection field.type.base) ∧
        ∃ other ∈ Sdl.BuiltIn.introspectionNames,
          schema.toGraph.objectProperties describe = .error (.unknownType other) := by
  have hknown : ∀ type ∈ schema.toGraph.objects, ∀ field ∈ type.fields,
      schema.IsKnown field.type.base := by
    intro type htype field hfield
    exact isKnown_of_references hwell (TypeGraph.mem_objects_iff.1 htype).1
      (TypeDef.base_mem_references hfield)
  cases hbuilt : schema.toGraph.objectProperties describe with
  | ok built =>
      refine .inl ⟨⟨built, rfl⟩, ?_⟩
      intro type htype field hfield
      obtain ⟨node, hnode⟩ := TypeGraph.exists_node_of_objectProperties hbuilt htype hfield
      rcases node_outcome hwell describe (hknown type htype field hfield)
        TypeGraph.whileResolving with ⟨-, hfree⟩ | ⟨hdeep, -⟩ | ⟨-, other, -, herror⟩
      · exact hfree
      · rw [hnode] at hdeep
        contradiction
      · rw [hnode] at herror
        contradiction
  | error e =>
      rcases TypeGraph.cause_of_objectProperties_eq_error hbuilt with
        ⟨hdeep, rfl⟩ | ⟨type, htype, field, hfield, hnode⟩
      · exact .inr (.inl ⟨rfl, not_hasRoomFor_of_isTooDeep hwell hdeep⟩)
      rcases node_outcome hwell describe (hknown type htype field hfield)
        TypeGraph.whileResolving with ⟨⟨node, hok⟩, -⟩ | ⟨hdeep, hfull⟩ |
          ⟨hmeets, other, hother, herror⟩
      · rw [hnode] at hok
        contradiction
      · rw [hnode] at hdeep
        cases hdeep
        exact .inr (.inl ⟨rfl, hfull⟩)
      · rw [hnode] at herror
        cases herror
        exact .inr (.inr ⟨⟨type, htype, field, hfield, hmeets⟩, other, hother, rfl⟩)

theorem fragments_outcome (hwell : schema.isWellKinded = true) (settings : Settings) :
    (∃ fragments, schema.toGraph.fragments settings = .ok fragments) ∧
        (∀ type ∈ schema.toGraph.documented, ∀ name ∈ Sdl.BuiltIn.introspectionNames,
          ¬ schema.toGraph.LeadsTo type name) ∨
      schema.toGraph.fragments settings = .error .tooDeep ∨
      ∃ type ∈ schema.toGraph.documented, ∃ name ∈ Sdl.BuiltIn.introspectionNames,
        schema.toGraph.LeadsTo type name ∧
          schema.toGraph.fragments settings = .error (.unknownType name) := by
  rcases TypeGraph.fragments_outcome (isIndexed_toGraph schema) settings with
    ⟨hok, hall⟩ | hdeep | ⟨type, htype, name, hleads, hunknown, herror⟩
  · refine .inl ⟨hok, ?_⟩
    intro type htype name hname hleads
    exact notMem_names_of_introspection hname (hall type htype name hleads)
  · exact .inr (.inl hdeep)
  · have hmem := (TypeGraph.mem_objects_iff.1 (List.mem_of_mem_filter htype)).1
    have hname := (isKnown_of_leadsTo hwell hmem hleads).resolve_left hunknown
    exact .inr (.inr ⟨type, htype, name, hname, hleads, herror⟩)

end Documents

theorem isWellKinded_of_ofDocument? [Runtime] {document : Sdl.Document}
    (hok : ofDocument? document = some schema) : schema.isWellKinded = true := by
  unfold ofDocument? at hok
  split at hok
  · contradiction
  · simp only [Option.bind_eq_bind, Option.bind_eq_some_iff] at hok
    obtain ⟨types, -, directives, -, hschema⟩ := hok
    split at hschema
    · next hchecked =>
        rw [Bool.and_eq_true] at hchecked
        cases hschema
        exact hchecked.1
    · contradiction

end Schema

namespace Sources

theorem exists_document_of_load [Runtime] {around : Surroundings} {sources : List String}
    {schema : Schema} (hload : (load around sources).result = .ok schema) :
    ∃ document, Schema.ofDocument? document = some schema := by
  unfold load at hload
  simp only [Traced.result_bind, Results.bind_eq_ok_iff] at hload
  obtain ⟨documents, -, -, -, document, -, found, hfound, -, -, hschema⟩ := hload
  rw [Traced.result_pure, Except.ok.injEq] at hschema
  subst hschema
  have hmade : schemaOf document = .ok found := hfound
  unfold schemaOf at hmade
  split at hmade
  · next other hother =>
      cases hmade
      exact ⟨document, hother⟩
  · contradiction

/-- What loaded sources refer to is known but for the types of introspection, and just these make
documents and fragments fail at a name. -/
theorem load_misses_introspection [Runtime] {around : Surroundings} {sources : List String}
    {schema : Schema} (hload : (load around sources).result = .ok schema) :
    let graph := schema.toGraph
    (∀ type ∈ graph.types, ∀ name ∈ type.references,
        (name ∈ graph.index.names ↔ name ∉ Sdl.BuiltIn.introspectionNames)) ∧
      (∀ type ∈ graph.types, ∀ name ∈ type.interfaces, name ∈ graph.index.names) ∧
      (∀ settings asked, graph.document settings asked ≠ .error (.graph .tooDeep) →
        ((∃ name, graph.document settings asked = .error (.graph (.unknownType name))) ↔
          ∃ type ∈ graph.objects, ∃ field ∈ type.fields,
            schema.MeetsIntrospection field.type.base)) ∧
      (∀ settings asked cause, graph.document settings asked = .error (.graph cause) →
        cause = .tooDeep ∧ ¬ Runtime.HasRoomFor 7 ∨
          ∃ name ∈ Sdl.BuiltIn.introspectionNames, cause = .unknownType name) ∧
      (∀ settings, graph.fragments settings ≠ .error .tooDeep →
        ((∃ name, graph.fragments settings = .error (.unknownType name)) ↔
          ∃ type ∈ graph.documented, ∃ name ∈ Sdl.BuiltIn.introspectionNames,
            graph.LeadsTo type name)) ∧
      ∀ settings name, graph.fragments settings = .error (.unknownType name) →
        name ∈ Sdl.BuiltIn.introspectionNames := by
  intro graph
  obtain ⟨document, hdocument⟩ := exists_document_of_load hload
  have hwell := Schema.isWellKinded_of_ofDocument? hdocument
  refine ⟨?_, ?_, ?_, ?_, ?_, ?_⟩
  · intro type htype name hname
    exact Schema.mem_names_iff_of_references hwell htype hname
  · intro type htype name hname
    have hkind := (Schema.fitsKinds_of_mem hwell htype).interfaces name hname
    have hmem := TypeDef.mem_references_iff.2 (.inr (.inl hname))
    exact (Schema.mem_names_iff_of_references hwell htype hmem).2
      (Schema.isInterface_notMem_introspectionNames hkind)
  · intro settings asked hshallow
    rw [ne_eq, TypeGraph.document_eq_graph_error_iff] at hshallow
    simp only [TypeGraph.document_eq_graph_error_iff]
    rcases Schema.objectProperties_outcome hwell settings.describeVariants.isTruthy with
      ⟨⟨built, hbuilt⟩, hfree⟩ | ⟨hdeep, -⟩ | ⟨hmeets, other, hother, herror⟩
    · constructor
      · rintro ⟨name, herror⟩
        rw [hbuilt] at herror
        contradiction
      · rintro ⟨type, htype, field, hfield, hmeets⟩
        exact absurd hmeets (hfree type htype field hfield)
    · exact absurd hdeep hshallow
    · exact ⟨fun _ => hmeets, fun _ => ⟨other, herror⟩⟩
  · intro settings asked cause hcause
    rw [TypeGraph.document_eq_graph_error_iff] at hcause
    rcases Schema.objectProperties_outcome hwell settings.describeVariants.isTruthy with
      ⟨⟨built, hbuilt⟩, -⟩ | ⟨hdeep, hfull⟩ | ⟨-, other, hother, herror⟩
    · rw [hbuilt] at hcause
      contradiction
    · rw [hdeep, Except.error.injEq] at hcause
      exact .inl ⟨hcause.symm, hfull⟩
    · rw [herror, Except.error.injEq] at hcause
      exact .inr ⟨other, hother, hcause.symm⟩
  · intro settings hshallow
    rcases Schema.fragments_outcome hwell settings with
      ⟨⟨fragments, hok⟩, hfree⟩ | hdeep | ⟨type, htype, name, hname, hleads, herror⟩
    · constructor
      · rintro ⟨name, herror⟩
        rw [hok] at herror
        contradiction
      · rintro ⟨type, htype, name, hname, hleads⟩
        exact absurd hleads (hfree type htype name hname)
    · exact absurd hdeep hshallow
    · exact ⟨fun _ => ⟨type, htype, name, hname, hleads⟩, fun _ => ⟨name, herror⟩⟩
  · intro settings name hname
    rcases Schema.fragments_outcome hwell settings with
      ⟨⟨fragments, hok⟩, -⟩ | hdeep | ⟨type, htype, other, hother, -, herror⟩
    · rw [hok] at hname
      contradiction
    · rw [hdeep, Except.error.injEq] at hname
      contradiction
    · rw [herror, Except.error.injEq, GraphError.unknownType.injEq] at hname
      rw [← hname]
      exact hother

/-- Surroundings in which only what a source itself says can be read. -/
def bareSurroundings : Surroundings :=
  { files := { root := .folder [] }, web := fun _ => .unreachable
    asking := { timeout := .int 30 } }

/-- A field of an enumeration of introspection, in a type that is documented. -/
def kindSource : String :=
  "type Query @md \x7b kind: __TypeKind \x7d"

section Usual

attribute [local instance] Runtime.usual

theorem kindSource_misses_introspection :
    ∃ schema, (load bareSurroundings [kindSource]).result = .ok schema ∧
      "__TypeKind" ∉ schema.toGraph.index.names ∧
      (∃ type ∈ schema.toGraph.types, "__TypeKind" ∈ type.references) ∧
      (∀ settings asked, ∃ name,
        schema.toGraph.document settings asked = .error (.graph (.unknownType name))) ∧
      ∀ settings, ∃ name, schema.toGraph.fragments settings = .error (.unknownType name) := by
  have hchecked : (match (load bareSurroundings [kindSource]).result with
      | .ok schema =>
          schema.toGraph.documented.map (·.fields) ==
            [[{ name := "kind", type := .named "__TypeKind" }]]
      | .error _ => false) = true := by decide +kernel
  cases hload : (load bareSurroundings [kindSource]).result with
  | error e =>
      rw [hload] at hchecked
      contradiction
  | ok schema =>
      simp only [hload, beq_iff_eq] at hchecked
      obtain ⟨type, hdocumented, hfields⟩ := List.map_eq_singleton_iff.1 hchecked
      have htype : type ∈ schema.toGraph.documented := by
        rw [hdocumented]
        exact List.mem_singleton_self type
      have hobject := List.mem_of_mem_filter htype
      obtain ⟨hmem, hkind⟩ := TypeGraph.mem_objects_iff.1 hobject
      obtain ⟨-, -, hdocument, hcauses, hfragments, -⟩ := load_misses_introspection hload
      have hname : "__TypeKind" ∈ Sdl.BuiltIn.introspectionNames := by decide
      have hmissing : "__TypeKind" ∉ schema.toGraph.index.names :=
        Schema.notMem_names_of_introspection hname
      have hmeets : schema.MeetsIntrospection "__TypeKind" := ⟨_, hname, .inl rfl⟩
      have hparts : type.parts = [.field { name := "kind", type := .named "__TypeKind" }] := by
        rw [TypeDef.parts_of_isObject hkind, hfields]
        rfl
      have hleads : schema.toGraph.LeadsTo type "__TypeKind" := by
        unfold TypeGraph.LeadsTo
        rw [hparts]
        exact .here List.mem_cons_self
      have hfragment : schema.toGraph.fragmentOf type [.render] =
          .error (.unknownType "__TypeKind") := by
        rw [TypeGraph.fragmentOf_of_isObject hkind, hparts,
          TypeGraph.outline_of_unknown (by decide) (Entries.get?_eq_none_iff.2 hmissing)]
        rfl
      obtain ⟨field, hfield, hbase⟩ : ∃ field ∈ type.fields, field.type.base = "__TypeKind" := by
        rw [hfields]
        exact ⟨_, List.mem_cons_self, rfl⟩
      refine ⟨schema, rfl, hmissing, ⟨type, hmem, ?_⟩, ?_, ?_⟩
      · exact TypeDef.mem_references_iff.2 (.inl ⟨field, hfield, hbase⟩)
      · intro settings asked
        rw [← hbase] at hmeets
        refine (hdocument settings asked ?_).2 ⟨type, hobject, field, hfield, hmeets⟩
        intro hdeep
        rcases hcauses settings asked _ hdeep with ⟨-, hfull⟩ | ⟨name, -, hcause⟩
        · exact hfull (Runtime.hasRoomFor_usual (by decide))
        · contradiction
      · intro settings
        refine (hfragments settings ?_).2 ⟨type, htype, "__TypeKind", hname, hleads⟩
        unfold TypeGraph.fragments
        rw [TypeGraph.inRoom_of_hasRoom (by decide), hdocumented, List.mapM_cons, hfragment]
        simp [Except.map, bind, Except.bind]

end Usual

end Sources

end ConfigSchema
