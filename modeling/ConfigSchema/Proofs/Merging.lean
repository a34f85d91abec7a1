import ConfigSchema.Proofs.FirstDefinitions
import ConfigSchema.Proofs.PrintedTypes
import ConfigSchema.Proofs.LoadFailures
import ConfigSchema.Sdl.Merge

/-!
# What a merge keeps

A merge succeeds exactly if all definitions of a type are written alike.  It keeps the first
definition of every type and of every directive, and all other definitions, in order; so what is
said anywhere about a type is its first definition and all extensions.
-/

namespace ConfigSchema

namespace Sdl

variable {form : Option Literal → TypeNode → String} {met : Met} {name : String}
variable {document kept : Document}

/-- The name of a type and the form of its definition. -/
def Definition.written? (form : Option Literal → TypeNode → String) :
    Definition → Option (String × String)
  | .type about node => some (node.name, form about node)
  | _ => none

/-- All definitions of a type have one form. -/
def Agrees (form : Option Literal → TypeNode → String) (document : Document) : Prop :=
  ∀ one ∈ document.filterMap (Definition.written? form),
    ∀ other ∈ document.filterMap (Definition.written? form), one.1 = other.1 → one.2 = other.2

/-! ## Merges -/

/-- Whether something of the title of a definition was met. -/
def Met.holds (met : Met) : Definition → Bool
  | .type _ node => (met.types.lookup node.name).isSome
  | .directive d => met.directives.contains d.name
  | _ => false

/-- Types have the forms in which they were met. -/
def Met.Allows (form : Option Literal → TypeNode → String) (met : Met) (document : Document) :
    Prop :=
  ∀ one ∈ document.filterMap (Definition.written? form), ∀ first,
    met.types.lookup one.1 = some first → first = one.2

/-- What a definition that is kept adds to what is met. -/
def Met.with (form : Option Literal → TypeNode → String) (met : Met) : Definition → Met
  | .type about node => { met with types := (node.name, form about node) :: met.types }
  | .directive d => { met with directives := d.name :: met.directives }
  | _ => met

theorem Met.holds_with (met : Met) (definition other : Definition) :
    (met.with form definition).holds other =
      (met.holds other || haveSameTitle other definition) := by
  cases definition <;> cases other <;>
    simp [Met.with, Met.holds, haveSameTitle, List.lookup_cons, Bool.or_comm]
  next about node other another =>
    by_cases hname : another.name = node.name
    · simp [hname]
    · have hne : (another.name == node.name) = false := by simpa using hname
      simp [hne, hname]

theorem mem_filterMap_written_cons {definition : Definition} {one : String × String} :
    one ∈ (definition :: document).filterMap (Definition.written? form) ↔
      definition.written? form = some one ∨
        one ∈ document.filterMap (Definition.written? form) := by
  simp only [List.mem_filterMap, List.mem_cons, exists_eq_or_imp]

/-- The definitions of a document have the form of a definition of their type. -/
def AgreesWith (form : Option Literal → TypeNode → String) (definition : Definition)
    (document : Document) : Prop :=
  ∀ one, definition.written? form = some one →
    ∀ other ∈ document.filterMap (Definition.written? form), one.1 = other.1 → one.2 = other.2

theorem agrees_cons_iff {definition : Definition} :
    Agrees form (definition :: document) ↔
      AgreesWith form definition document ∧ Agrees form document := by
  constructor
  · intro hagrees
    refine ⟨?_, ?_⟩
    · intro one hone other hother
      exact hagrees one (mem_filterMap_written_cons.2 (.inl hone)) other
        (mem_filterMap_written_cons.2 (.inr hother))
    · intro one hone other hother
      exact hagrees one (mem_filterMap_written_cons.2 (.inr hone)) other
        (mem_filterMap_written_cons.2 (.inr hother))
  · rintro ⟨hwith, hagrees⟩ one hone other hother hname
    rcases mem_filterMap_written_cons.1 hone with hone | hone
    · rcases mem_filterMap_written_cons.1 hother with hother | hother
      · rw [hone, Option.some.injEq] at hother
        rw [hother]
      · exact hwith one hone other hother hname
    · rcases mem_filterMap_written_cons.1 hother with hother | hother
      · exact (hwith other hother one hone hname.symm).symm
      · exact hagrees one hone other hother hname

/-- A document that defines no type twice agrees with itself. -/
theorem agrees_of_nodup (hnodup : document.definedTypes.Nodup) : Agrees form document := by
  induction document with
  | nil => exact fun one hone => nomatch hone
  | cons definition rest ih =>
      refine agrees_cons_iff.2
        ⟨?_, ih (hnodup.sublist ((List.sublist_cons_self _ _).filterMap _))⟩
      intro one hone other hother hname
      cases definition with
      | type about node =>
          cases hone
          obtain ⟨another, hanother, hwritten⟩ := List.mem_filterMap.1 hother
          cases another <;> cases hwritten
          dsimp only at hname
          have hdefined : node.name ∈ Document.definedTypes rest :=
            List.mem_filterMap.2 ⟨_, hanother, congrArg some hname.symm⟩
          exact absurd hdefined (List.nodup_cons.1 hnodup).1
      | _ => cases hone

namespace Met

variable {definition : Definition}

/-- The definition of a type has the form in which the type was met. -/
def Admits (form : Option Literal → TypeNode → String) (met : Met) (definition : Definition) :
    Prop :=
  ∀ one, definition.written? form = some one → ∀ first,
    met.types.lookup one.1 = some first → first = one.2

theorem allows_cons_iff :
    met.Allows form (definition :: document) ↔
      met.Admits form definition ∧ met.Allows form document := by
  simp only [Allows, Admits, mem_filterMap_written_cons]
  constructor
  · intro hallows
    exact ⟨fun one hone => hallows one (.inl hone), fun one hone => hallows one (.inr hone)⟩
  · rintro ⟨hadmits, hallows⟩ one (hone | hone)
    · exact hadmits one hone
    · exact hallows one hone

theorem lookup_of_not_holds (hnew : met.holds definition = false) {one : String × String}
    (hone : definition.written? form = some one) : met.types.lookup one.1 = none := by
  cases definition with
  | type about node =>
      cases hone
      simpa [holds] using hnew
  | _ => contradiction

theorem admits_of_not_holds (hnew : met.holds definition = false) :
    met.Admits form definition := by
  intro one hone first hfirst
  rw [lookup_of_not_holds hnew hone] at hfirst
  contradiction

theorem agreesWith_of_holds (hheld : met.holds definition = true)
    (hadmits : met.Admits form definition) (hallows : met.Allows form document) :
    AgreesWith form definition document := by
  intro one hone other hother hname
  cases definition with
  | type about node =>
      cases hone
      obtain ⟨first, hfirst⟩ := Option.isSome_iff_exists.1 hheld
      have hother' := hallows other hother first
      rw [← hname] at hother'
      rw [← hadmits _ rfl first hfirst]
      exact hother' hfirst
  | _ => contradiction

theorem allows_with_iff (hnew : met.holds definition = false) :
    (met.with form definition).Allows form document ↔
      AgreesWith form definition document ∧ met.Allows form document := by
  cases definition with
  | type about node =>
      have hwritten : (Definition.type about node).written? form =
          some (node.name, form about node) := rfl
      have hnone := lookup_of_not_holds hnew hwritten
      simp only [Allows, AgreesWith, Met.with, Definition.written?, List.lookup_cons]
      constructor
      · intro hallows
        refine ⟨?_, ?_⟩
        · rintro one hone other hother hname
          cases hone
          have hfirst := hallows other hother (form about node)
          rw [← hname] at hfirst
          exact hfirst (by simp)
        · intro other hother first hfirst
          have hne : (other.1 == node.name) = false := by
            rw [beq_eq_false_iff_ne]
            intro hname
            rw [hname, hnone] at hfirst
            contradiction
          have hbefore := hallows other hother first
          rw [hne] at hbefore
          exact hbefore hfirst
      · rintro ⟨hwith, hallows⟩ other hother first hfirst
        by_cases hname : other.1 = node.name
        · rw [hname] at hfirst
          simp only [beq_self_eq_true, Option.some.injEq] at hfirst
          rw [← hfirst]
          exact hwith _ rfl other hother hname.symm
        · have hne : (other.1 == node.name) = false := by simpa using hname
          rw [hne] at hfirst
          exact hallows other hother first hfirst
  | _ => simp [Allows, AgreesWith, Met.with, Definition.written?]

theorem judge_of_not_holds (hnew : met.holds definition = false) :
    met.judge form definition = (.kept, met.with form definition) := by
  cases definition with
  | type about node =>
      have hlookup : met.types.lookup node.name = none := by simpa [holds] using hnew
      simp [judge, hlookup, Met.with]
  | directive d =>
      have hcontains : met.directives.contains d.name = false := hnew
      rw [judge, hcontains]
      rfl
  | _ => rfl

theorem judge_of_holds (form : Option Literal → TypeNode → String)
    (hheld : met.holds definition = true) :
    met.Admits form definition ∧ met.judge form definition = (.repeated, met) ∨
      ¬ met.Admits form definition ∧
        ∃ name, met.judge form definition = (.conflicting name, met) := by
  cases definition with
  | type about node =>
      obtain ⟨first, hfirst⟩ := Option.isSome_iff_exists.1 hheld
      by_cases hsame : first = form about node
      · refine .inl ⟨?_, by simp [judge, hfirst, hsame]⟩
        rintro one hone other hother
        cases hone
        rw [hfirst, Option.some.injEq] at hother
        rw [← hother, hsame]
      · refine .inr ⟨?_, node.name, by simp [judge, hfirst, hsame]⟩
        intro hadmits
        exact hsame (hadmits _ rfl first hfirst)
  | directive d =>
      have hcontains : met.directives.contains d.name = true := hheld
      refine .inl ⟨fun one hone => by contradiction, ?_⟩
      rw [judge, hcontains]
      rfl
  | _ => contradiction

end Met

theorem mergeFrom_eq_ok_iff :
    mergeFrom form met document = .ok kept ↔
      met.Allows form document ∧ Agrees form document ∧
        kept = firsts (document.filter fun definition => !met.holds definition) := by
  induction document generalizing met kept with
  | nil => simp [mergeFrom, Met.Allows, Agrees, eq_comm]
  | cons definition rest ih =>
      rw [Met.allows_cons_iff, agrees_cons_iff]
      cases hheld : met.holds definition with
      | false =>
          have hrest : (rest.filter fun other => !(met.with form definition).holds other) =
              (rest.filter fun other => !met.holds other).filter fun other =>
                !haveSameTitle other definition := by
            simp only [List.filter_filter, Met.holds_with, Bool.not_or, Bool.and_comm]
          have hadmits : met.Admits form definition := Met.admits_of_not_holds hheld
          rw [mergeFrom, Met.judge_of_not_holds hheld, List.filter_cons_of_pos (by simp [hheld]),
            firsts_cons, ← hrest]
          simp only [Results.map_eq_ok_iff, ih, Met.allows_with_iff hheld, hadmits, true_and]
          constructor
          · rintro ⟨others, ⟨⟨hwith, hallows⟩, hagrees, rfl⟩, rfl⟩
            exact ⟨hallows, ⟨hwith, hagrees⟩, rfl⟩
          · rintro ⟨hallows, ⟨hwith, hagrees⟩, rfl⟩
            exact ⟨_, ⟨⟨hwith, hallows⟩, hagrees, rfl⟩, rfl⟩
      | true =>
          rw [mergeFrom, List.filter_cons_of_neg (by simp [hheld])]
          rcases Met.judge_of_holds form hheld with
            ⟨hadmits, hjudge⟩ | ⟨hadmits, other, hjudge⟩
          · rw [hjudge]
            simp only [ih, hadmits, true_and]
            constructor
            · rintro ⟨hallows, hagrees, hkept⟩
              exact ⟨hallows, ⟨Met.agreesWith_of_holds hheld hadmits hallows, hagrees⟩, hkept⟩
            · rintro ⟨hallows, ⟨-, hagrees⟩, hkept⟩
              exact ⟨hallows, hagrees, hkept⟩
          · rw [hjudge]
            simp [hadmits]

theorem mergeBy_eq_ok_iff {documents : List Document} :
    mergeBy form documents = .ok kept ↔
      Agrees form documents.flatten ∧ kept = firsts documents.flatten := by
  have hnone : (documents.flatten.filter fun definition => !Met.holds {} definition) =
      documents.flatten := by
    apply List.filter_eq_self.2
    intro definition _
    cases definition <;> rfl
  rw [mergeBy, mergeFrom_eq_ok_iff, hnone]
  constructor
  · rintro ⟨-, hagrees, hkept⟩
    exact ⟨hagrees, hkept⟩
  · rintro ⟨hagrees, hkept⟩
    exact ⟨fun _ _ _ hlookup => by contradiction, hagrees, hkept⟩

theorem merge_eq_ok_iff {documents : List Document} :
    merge documents = .ok kept ↔
      Agrees (fun about node => node.render about) documents.flatten ∧
        kept = firsts documents.flatten :=
  mergeBy_eq_ok_iff

/-! ## Kinds -/

theorem Agrees.kind_eq {about other : Option Literal} {one another : TypeNode}
    (hagrees : Agrees (fun about node => node.render about) document)
    (hone : .type about one ∈ document) (hother : .type other another ∈ document)
    (hname : one.name = another.name) : one.body.kind = another.body.kind := by
  have hform : ∀ {about node}, Definition.type about node ∈ document →
      (node.name, node.render about) ∈
        document.filterMap (Definition.written? fun about node => node.render about) :=
    fun hmem => List.mem_filterMap.2 ⟨_, hmem, rfl⟩
  exact TypeNode.kind_eq_of_render_eq (hagrees _ (hform hone) _ (hform hother) hname)

end Sdl

namespace Sources

variable {around : Surroundings} {sources : List String} {schema : Schema}

/-- All definitions of sources, in the order of the sources and their origins. -/
def definitions [Runtime] (around : Surroundings) (sources : List String) :
    Except LoadError Sdl.Document :=
  (sources.mapM fun source => (documents around source).result).map fun documents =>
    documents.flatten.flatten

/-- The written form of a type. -/
abbrev written (about : Option Sdl.Literal) (node : Sdl.TypeNode) : String :=
  node.render about

theorem agrees_marks_append_iff {document : Sdl.Document} :
    Sdl.Agrees written (marks ++ document) ↔ Sdl.Agrees written document :=
  Iff.rfl

/-- Sources load exactly if all definitions of a type are written alike and the definitions that
a merge keeps have a schema. -/
theorem load_eq_ok_iff [Runtime] :
    (load around sources).result = .ok schema ↔
      ∃ document, definitions around sources = .ok document ∧ Sdl.Agrees written document ∧
        Schema.ofDocument? (Sdl.firsts (marks ++ document)) = some schema := by
  have hschema : ∀ document, schemaOf document = .ok schema ↔
      Schema.ofDocument? document = some schema := by
    intro document
    unfold schemaOf
    cases Schema.ofDocument? document <;> simp
  have hmerged : ∀ {documents : List Sdl.Document} {document}, merged documents = .ok document ↔
      Sdl.Agrees written documents.flatten ∧
        document = Sdl.firsts (marks ++ documents.flatten) := by
    intro documents document
    have hmerge : merged documents = .ok document ↔
        Sdl.merge (marks :: documents) = .ok document := by
      unfold merged
      cases Sdl.merge (marks :: documents) <;> simp [Except.mapError]
    rw [hmerge, Sdl.merge_eq_ok_iff, List.flatten_cons]
    rfl
  rw [result_load, Results.bind_eq_ok_iff]
  simp only [definitions, Results.map_eq_ok_iff, Results.bind_eq_ok_iff, hmerged, hschema]
  constructor
  · rintro ⟨documents, hdocuments, document, ⟨hagrees, rfl⟩, hfound⟩
    exact ⟨_, ⟨documents, hdocuments, rfl⟩, hagrees, hfound⟩
  · rintro ⟨_, ⟨documents, hdocuments, rfl⟩, hagrees, hfound⟩
    exact ⟨documents, hdocuments, _, ⟨hagrees, rfl⟩, hfound⟩

end Sources

end ConfigSchema
