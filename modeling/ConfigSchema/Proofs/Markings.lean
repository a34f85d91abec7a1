import ConfigSchema.Proofs.RepeatedDefinitions

/-!
# Extensions that mark a type

An extension may do nothing but apply a directive to an object type.  Wherever it is put in a
valid document that does not apply the directive to the type yet, the document stays valid and
says the same otherwise.
-/

namespace ConfigSchema

namespace Sdl

variable {before after document : Document} {name mark : String}

/-- An extension that does nothing but mark an object type. -/
def marking (name mark : String) : Definition :=
  .typeExtension { name, directives := [{ name := mark }], body := .object [] [] }

/-- A directive for object types that takes no arguments and may be applied once. -/
structure IsMark (document : Document) (mark : String) : Prop where
  isSingle : document.isSingle mark = true
  definition : ∃ d, document.directive? mark = some d ∧ Location.object ∈ d.locations ∧
    d.arguments = []

theorem places_marking (name mark : String) :
    (marking name mark).places =
      [⟨some (.type name), .object, [{ name := mark }]⟩] := rfl

section

variable (before after name mark)

theorem flatMap_marking {β : Type} {f : Definition → List β}
    (hnone : f (marking name mark) = []) :
    (before ++ marking name mark :: after).flatMap f = (before ++ after).flatMap f := by
  rw [List.flatMap_append, List.flatMap_append, List.flatMap_cons, hnone, List.nil_append]

theorem filterMap_marking {β : Type} {f : Definition → Option β}
    (hnone : f (marking name mark) = none) :
    (before ++ marking name mark :: after).filterMap f = (before ++ after).filterMap f := by
  rw [List.filterMap_append, List.filterMap_append, List.filterMap_cons_none hnone]

theorem all_marking (test : Definition → Bool) :
    (before ++ marking name mark :: after).all test =
      (test (marking name mark) && (before ++ after).all test) := by
  simp only [List.all_append, List.all_cons]
  cases before.all test <;> cases test (marking name mark) <;> rfl

theorem any_marking {test : Definition → Bool} (hnot : test (marking name mark) = false) :
    (before ++ marking name mark :: after).any test = (before ++ after).any test := by
  rw [List.any_append, List.any_append, List.any_cons, hnot, Bool.false_or]

theorem definedTypes_marking :
    Document.definedTypes (before ++ marking name mark :: after) =
      Document.definedTypes (before ++ after) :=
  filterMap_marking before after name mark rfl

theorem directiveDefinitions_marking :
    Document.directiveDefinitions (before ++ marking name mark :: after) =
      Document.directiveDefinitions (before ++ after) :=
  filterMap_marking before after name mark rfl

theorem directive?_marking :
    Document.directive? (before ++ marking name mark :: after) =
      Document.directive? (before ++ after) := by
  funext found
  rw [Document.directive?, directiveDefinitions_marking]
  rfl

end

/-- What counts for a type is applied to its definition or to an extension. -/
theorem mem_appliedBy_of_ownedNames (hvalid : document.isValid = true)
    (howned : (Owner.type name, mark) ∈ document.flatMap fun d =>
      d.places.flatMap (ownedNames document)) : mark ∈ appliedBy document name := by
  obtain ⟨d, hd, hplaces⟩ := List.mem_flatMap.1 howned
  obtain ⟨place, hplace, hnames⟩ := List.mem_flatMap.1 hplaces
  have hplaceOwner : place.owner = some (.type name) ∧ mark ∈ place.directives.map (·.name) := by
    unfold ownedNames at hnames
    cases howner : place.owner with
    | none =>
        rw [howner] at hnames
        contradiction
    | some owner =>
        rw [howner] at hnames
        obtain ⟨found, hfound, hpair⟩ := List.mem_map.1 hnames
        rw [Prod.mk.injEq] at hpair
        obtain ⟨rfl, rfl⟩ := hpair
        exact ⟨rfl, List.mem_of_mem_filter hfound⟩
  obtain ⟨howner, hmark⟩ := hplaceOwner
  have hnode : ∀ {node : TypeNode} {isExtension : Bool}, place ∈ node.places isExtension →
      node.name = name ∧ mark ∈ node.directives.map (·.name) := by
    intro node isExtension hin
    rcases List.mem_cons.1 hin with rfl | hbody
    · exact ⟨by simpa using howner, hmark⟩
    · rw [owner_of_mem_bodyPlaces hbody] at howner
      contradiction
  have hpart : ∃ part ∈ partsOf document name, mark ∈ part.directives.map (·.name) := by
    cases d with
    | type about node =>
        obtain ⟨rfl, happlied⟩ := hnode hplace
        refine ⟨node, List.mem_append_left _ ?_, happlied⟩
        rw [definition?_of_mem hvalid hd]
        exact List.mem_singleton_self node
    | typeExtension node =>
        obtain ⟨rfl, happlied⟩ := hnode hplace
        exact ⟨node, List.mem_append_right _ (mem_extensionsOf_iff.2 ⟨hd, rfl⟩), happlied⟩
    | schema about directives operations =>
        rw [List.mem_singleton.1 hplace] at howner
        simp at howner
    | schemaExtension directives operations =>
        rw [List.mem_singleton.1 hplace] at howner
        simp at howner
    | directive definition =>
        obtain ⟨argument, -, rfl⟩ := List.mem_map.1 hplace
        contradiction
    | operation definition =>
        rw [owner_of_mem_operationPlaces hplace] at howner
        contradiction
    | fragment definition =>
        rw [owner_of_mem_fragmentPlaces hplace] at howner
        contradiction
  obtain ⟨part, hin, happlied⟩ := hpart
  rw [appliedBy, List.map_flatMap]
  exact List.mem_flatMap.2 ⟨part, hin, happlied⟩

section

variable (hmark : IsMark (before ++ after) mark)
variable (hdefined : ∃ about node, Definition.type about node ∈ before ++ after ∧
  node.name = name ∧ node.body.kind = .object)

theorem all_places_marking (test : Place → Bool) :
    (Document.places (before ++ marking name mark :: after)).all test =
      (test ⟨some (.type name), .object, [{ name := mark }]⟩ &&
        (Document.places (before ++ after)).all test) := by
  rw [Document.places, Document.places, List.all_flatMap, List.all_flatMap, all_marking,
    places_marking, List.all_cons, List.all_nil, Bool.and_true]

theorem all_applications_marking (test : Directive → Bool) :
    (Document.applications (before ++ marking name mark :: after)).all test =
      (test { name := mark } && (Document.applications (before ++ after)).all test) := by
  rw [Document.applications, Document.applications, List.all_flatMap, List.all_flatMap,
    all_places_marking, List.all_cons, List.all_nil, Bool.and_true]

include hmark hdefined

theorem steadyRule_marking {rule : Document → Bool} (hrule : rule ∈ steadyRules)
    (hkept : rule (before ++ after) = true) :
    rule (before ++ marking name mark :: after) = true := by
  have htypes := definedTypes_marking before after name mark
  have hdefinitions := directiveDefinitions_marking before after name mark
  have hdirective := directive?_marking before after name mark
  obtain ⟨d, hfound, hlocation, harguments⟩ := hmark.definition
  simp only [steadyRules, List.mem_cons, List.not_mem_nil, or_false] at hrule
  rcases hrule with rfl | rfl | rfl | rfl | rfl | rfl | rfl | rfl | rfl | rfl
  · rw [Document.hasUniqueTypes, htypes]
    exact hkept
  · have hnodes : ∀ test : TypeNode → Bool,
        (Document.typeNodes (before ++ marking name mark :: after)).all test =
          (test { name, directives := [{ name := mark }], body := .object [] [] } &&
            (Document.typeNodes (before ++ after)).all test) := by
      intro test
      simp only [Document.typeNodes, marking, List.filterMap_append, List.filterMap_cons,
        List.all_append, List.all_cons, Bool.and_left_comm]
    rw [Document.hasUniqueArgumentDefinitions, hdefinitions, hnodes]
    exact hkept
  · rw [Document.hasUniqueDirectives, hdefinitions]
    exact hkept
  · rw [Document.hasKnownTypes, htypes, all_marking]
    exact hkept
  · rw [Document.hasKnownDirectives, hdirective, all_places_marking, Bool.and_eq_true]
    refine ⟨?_, hkept⟩
    simp [hfound, hlocation]
  · rw [Document.hasPossibleExtensions, all_marking, Bool.and_eq_true]
    constructor
    · obtain ⟨about, node, hnode, hname, hkind⟩ := hdefined
      have hstill : Definition.type about node ∈ before ++ marking name mark :: after := by
        rw [List.mem_append] at hnode ⊢
        exact hnode.imp_right (List.mem_cons_of_mem _)
      refine List.any_eq_true.2 ⟨_, hstill, ?_⟩
      dsimp only
      rw [hname, hkind]
      simp [TypeBody.kind]
    · refine Eq.trans ?_ hkept
      rw [Document.hasPossibleExtensions]
      congr 1
      funext definition
      cases definition with
      | typeExtension node => exact any_marking before after name mark rfl
      | _ => rfl
  · rw [Document.hasKnownArguments, hdirective, all_applications_marking, Bool.and_eq_true]
    refine ⟨?_, hkept⟩
    simp [hfound]
  · rw [Document.hasUniqueArguments, all_marking, Bool.and_eq_true]
    exact ⟨rfl, hkept⟩
  · rw [Document.hasUniqueObjectFields, all_marking, Bool.and_eq_true]
    exact ⟨rfl, hkept⟩
  · rw [Document.hasRequiredArguments, hdirective, all_applications_marking, Bool.and_eq_true]
    refine ⟨?_, hkept⟩
    simp [hfound, harguments]

/-- A type may be marked anywhere in a valid document, if the mark is not applied to it yet. -/
theorem isValid_marking (hvalid : Document.isValid (before ++ after) = true)
    (hnew : mark ∉ appliedBy (before ++ after) name) :
    Document.isValid (before ++ marking name mark :: after) = true := by
  obtain ⟨hsteady, hone, hoperations, hvalues, hfields, happlications⟩ := (isValid_iff _).1 hvalid
  refine (isValid_iff _).2 ⟨?_, ?_, ?_, ?_, ?_, ?_⟩
  · exact fun rule hrule => steadyRule_marking hmark hdefined hrule (hsteady rule hrule)
  · rw [Document.hasOneSchema, List.countP_append, List.countP_cons_of_neg (by simp [marking]),
      ← List.countP_append]
    exact hone
  · rw [hasUniqueOperations_eq] at hoperations ⊢
    rw [flatMap_marking before after name mark rfl]
    exact hoperations
  · rw [hasUniqueEnumValues_eq] at hvalues ⊢
    rw [flatMap_marking before after name mark rfl]
    exact hvalues
  · rw [hasUniqueFields_eq] at hfields ⊢
    rw [flatMap_marking before after name mark rfl]
    exact hfields
  · have hisSingle : Document.isSingle (before ++ marking name mark :: after) =
        Document.isSingle (before ++ after) := by
      funext found
      rw [Document.isSingle, directive?_marking]
      rfl
    have hsingle : Document.singleNames (before ++ marking name mark :: after) =
        Document.singleNames (before ++ after) := by
      funext place
      rw [Document.singleNames, hisSingle]
      rfl
    have howned : ownedNames (before ++ marking name mark :: after) =
        ownedNames (before ++ after) := by
      funext place
      rw [ownedNames, hsingle]
      rfl
    have hself : (marking name mark).places.flatMap (ownedNames (before ++ after)) =
        [(.type name, mark)] := by
      simp [places_marking, ownedNames, Document.singleNames, hmark.isSingle]
    rw [hasUniqueApplications_eq, Bool.and_eq_true] at happlications
    rw [hasUniqueApplications_eq, hsingle, howned, all_marking, Bool.and_eq_true]
    refine ⟨?_, ?_⟩
    · rw [Bool.and_eq_true]
      exact ⟨by simp [places_marking], happlications.1⟩
    · have hnodup := of_decide_eq_true happlications.2
      have hapart : (Owner.type name, mark) ∉ (before ++ after).flatMap fun d =>
          d.places.flatMap (ownedNames (before ++ after)) :=
        fun hmem => hnew (mem_appliedBy_of_ownedNames hvalid hmem)
      apply decide_eq_true
      rw [List.flatMap_append] at hnodup hapart ⊢
      rw [List.flatMap_cons, hself]
      exact List.nodup_middle.2 (List.nodup_cons.2 ⟨hapart, hnodup⟩)

end

section

variable (before after name mark)

theorem findSome?_marking {β : Type} {f : Definition → Option β}
    (hnone : f (marking name mark) = none) :
    (before ++ marking name mark :: after).findSome? f = (before ++ after).findSome? f := by
  rw [← List.head?_filterMap, ← List.head?_filterMap, filterMap_marking _ _ _ _ hnone]

theorem extensionsOf_marking (other : String) :
    Schema.extensionsOf (before ++ marking name mark :: after) other =
      Schema.extensionsOf before other ++
        ((if name = other then
          [{ name, directives := [{ name := mark }], body := .object [] [] }] else []) ++
          Schema.extensionsOf after other) := by
  by_cases hname : name = other <;> simp [Schema.extensionsOf, marking, hname]

/-- A marking says nothing but its mark. -/
theorem flatMap_extensionsOf_marking {β : Type} {f : TypeNode → List β}
    (hnil : ∀ directives, f { name, directives, body := .object [] [] } = []) (other : String) :
    (Schema.extensionsOf (before ++ marking name mark :: after) other).flatMap f =
      (Schema.extensionsOf (before ++ after) other).flatMap f := by
  have happend : Schema.extensionsOf (before ++ after) other =
      Schema.extensionsOf before other ++ Schema.extensionsOf after other :=
    List.filterMap_append
  rw [extensionsOf_marking, happend]
  split <;> simp [hnil]

theorem definition?_marking (other : String) :
    definition? (before ++ marking name mark :: after) other =
      definition? (before ++ after) other :=
  findSome?_marking before after name mark rfl

theorem mem_appliedBy_marking {other applied : String} :
    applied ∈ appliedBy (before ++ marking name mark :: after) other ↔
      applied ∈ appliedBy (before ++ after) other ∨ other = name ∧ applied = mark := by
  have happend : Schema.extensionsOf (before ++ after) other =
      Schema.extensionsOf before other ++ Schema.extensionsOf after other :=
    List.filterMap_append
  rw [appliedBy, appliedBy, partsOf, partsOf, definition?_marking, extensionsOf_marking, happend]
  by_cases hname : name = other
  · subst hname
    simp only [if_true, List.flatMap_append, List.map_append, List.mem_append, List.flatMap_cons,
      List.flatMap_nil, List.map_cons, List.map_nil, List.append_nil, List.mem_singleton]
    tauto
  · simp [hname, Ne.symm hname]

end

theorem relists_marking (hvalid : Document.isValid (before ++ after) = true)
    (hmark : IsMark (before ++ after) mark)
    (hdefined : ∃ about node, Definition.type about node ∈ before ++ after ∧ node.name = name ∧
      node.body.kind = .object)
    (hnew : mark ∉ appliedBy (before ++ after) name) :
    Relists (before ++ after) (before ++ marking name mark :: after) := by
  have hoperations : Document.operations (before ++ marking name mark :: after) =
      Document.operations (before ++ after) := flatMap_marking before after name mark rfl
  have hlisted : ∀ other, listedBy (before ++ marking name mark :: after) other =
      listedBy (before ++ after) other := by
    intro other
    rw [listedBy, listedBy, partsOf, partsOf, List.flatMap_append, List.flatMap_append,
      definition?_marking, flatMap_extensionsOf_marking before after name mark fun _ => rfl]
  refine ⟨?_, filterMap_marking before after name mark rfl,
    directiveDefinitions_marking before after name mark, ?_,
    findSome?_marking before after name mark rfl,
    flatMap_extensionsOf_marking before after name mark fun _ => rfl,
    flatMap_extensionsOf_marking before after name mark fun _ => rfl,
    flatMap_extensionsOf_marking before after name mark fun _ => rfl, ?_⟩
  · rw [isValid_marking hmark hdefined hvalid hnew, hvalid]
  · rw [Schema.rootsOf, any_marking before after name mark rfl, hoperations, definedTypes_marking]
    rfl
  · intro other
    rw [hlisted]
    exact .refl _

end Sdl

end ConfigSchema
