import ConfigSchema.Proofs.Merging

/-!
# The outcome of a merge

A merge fails exactly if two definitions of a type have different forms.  It then names the type
of the first definition whose form is not that of the first definition of its name: up to there
it knows, of every type, the form of its first definition.  Otherwise it keeps the first
definition of every type and of every directive, and all other definitions, where they stand.
-/

namespace ConfigSchema

namespace Sdl

variable {form : Option Literal → TypeNode → String} {met : Met} {name : String}
variable {document before after kept : Document} {definition : Definition}
variable {documents : List Document}

/-! ## Conflicts -/

/-- Two definitions of a type have different forms. -/
def HasConflict (form : Option Literal → TypeNode → String) (document : Document) : Prop :=
  ∃ about one other another,
    .type about one ∈ document ∧ .type other another ∈ document ∧ one.name = another.name ∧
      form about one ≠ form other another

def Definition.form? (form : Option Literal → TypeNode → String) : Definition → Option String
  | .type about node => some (form about node)
  | _ => none

/-- The form of the first definition of a type. -/
def firstForm? (form : Option Literal → TypeNode → String) (document : Document)
    (name : String) : Option String :=
  (document.find? (·.defines name)).bind (·.form? form)

theorem firstForm?_nil (form : Option Literal → TypeNode → String) (name : String) :
    firstForm? form [] name = none := rfl

theorem firstForm?_cons (definition : Definition) (rest : Document) :
    firstForm? form (definition :: rest) name =
      if definition.defines name = true then definition.form? form
      else firstForm? form rest name := by
  rw [firstForm?, List.find?_cons]
  cases definition.defines name <;> rfl

/-- Whether a definition has another form than the first definition of its type. -/
def Definition.deviates (form : Option Literal → TypeNode → String) (document : Document) :
    Definition → Bool
  | .type about node => firstForm? form document node.name ≠ some (form about node)
  | _ => false

theorem defines_type_iff {about : Option Literal} {node : TypeNode} :
    (Definition.type about node).defines name = true ↔ node.name = name := by
  simp [Definition.defines, Definition.definedType?]

theorem exists_eq_type_of_defines (hdefines : definition.defines name = true) :
    ∃ about node, definition = .type about node ∧ node.name = name := by
  cases definition with
  | type about node => exact ⟨about, node, rfl, defines_type_iff.1 hdefines⟩
  | _ => contradiction

theorem agrees_iff :
    Agrees form document ↔
      ∀ about one other another, .type about one ∈ document → .type other another ∈ document →
        one.name = another.name → form about one = form other another := by
  have hwritten : ∀ written, written ∈ document.filterMap (Definition.written? form) ↔
      ∃ about node, .type about node ∈ document ∧ written = (node.name, form about node) := by
    intro written
    rw [List.mem_filterMap]
    constructor
    · rintro ⟨definition, hmem, hform⟩
      cases definition with
      | type about node => exact ⟨about, node, hmem, (Option.some.inj hform).symm⟩
      | _ => contradiction
    · rintro ⟨about, node, hmem, rfl⟩
      exact ⟨_, hmem, rfl⟩
  simp only [Agrees, hwritten]
  constructor
  · intro hagrees about one other another hone hother hname
    exact hagrees _ ⟨about, one, hone, rfl⟩ _ ⟨other, another, hother, rfl⟩ hname
  · rintro hagrees _ ⟨about, one, hone, rfl⟩ _ ⟨other, another, hother, rfl⟩ hname
    exact hagrees about one other another hone hother hname

theorem not_agrees_iff : ¬ Agrees form document ↔ HasConflict form document := by
  rw [agrees_iff]
  unfold HasConflict
  push Not
  rfl

/-- Definitions with the forms of the first definitions of their types agree. -/
theorem agrees_of_not_deviates {part : Document}
    (hnone : ∀ definition ∈ part, definition.deviates form document = false) :
    Agrees form part := by
  have hfirst : ∀ {about node}, Definition.type about node ∈ part →
      firstForm? form document node.name = some (form about node) := by
    intro about node hmem
    simpa [Definition.deviates] using hnone _ hmem
  rw [agrees_iff]
  intro about one other another hone hother hname
  have hforms := hfirst hone
  rw [hname, hfirst hother] at hforms
  exact (Option.some.inj hforms).symm

/-- A definition that deviates is not the first one of its type. -/
theorem firstForm?_append_of_deviates {about : Option Literal} {node : TypeNode}
    (hdeviates : (Definition.type about node).deviates form
      (before ++ .type about node :: after) = true) :
    ∃ first, firstForm? form before node.name = some first ∧ first ≠ form about node := by
  have hne : firstForm? form (before ++ .type about node :: after) node.name ≠
      some (form about node) := by
    simpa [Definition.deviates] using hdeviates
  rw [firstForm?, List.find?_append] at hne
  cases hbefore : before.find? (·.defines node.name) with
  | none =>
      rw [hbefore, List.find?_cons_of_pos (defines_type_iff.2 rfl)] at hne
      exact absurd rfl hne
  | some first =>
      obtain ⟨other, another, rfl, -⟩ := exists_eq_type_of_defines (List.find?_some hbefore)
      rw [hbefore] at hne
      refine ⟨form other another, by rw [firstForm?, hbefore]; rfl, ?_⟩
      intro hsame
      exact hne (by rw [← hsame]; rfl)

/-! ## What is met on the way -/

/-- What is met after definitions. -/
def Met.past (form : Option Literal → TypeNode → String) (met : Met) (document : Document) :
    Met :=
  document.foldl (fun met definition => (met.judge form definition).2) met

theorem Met.judge_snd (met : Met) (definition : Definition) :
    (met.judge form definition).2 =
      if met.holds definition = true then met else met.with form definition := by
  cases hheld : met.holds definition with
  | false =>
      rw [judge_of_not_holds hheld]
      rfl
  | true =>
      rcases judge_of_holds form hheld with ⟨-, hjudge⟩ | ⟨-, other, hjudge⟩
      · rw [hjudge]
        rfl
      · rw [hjudge]
        rfl

/-- A step meets the form of a definition exactly if it is the first one of its type. -/
theorem Met.lookup_judge (met : Met) (definition : Definition) (name : String) :
    (met.judge form definition).2.types.lookup name =
      (met.types.lookup name).or (firstForm? form [definition] name) := by
  rw [judge_snd, firstForm?_cons, firstForm?_nil]
  cases definition with
  | type about node =>
      by_cases hname : node.name = name
      · rw [if_pos (defines_type_iff.2 hname), ← hname]
        cases hmet : met.types.lookup node.name with
        | none =>
            have hnew : met.holds (.type about node) = false := by simp [holds, hmet]
            rw [hnew, if_neg Bool.false_ne_true, Met.with, List.lookup_cons_self, Option.none_or]
            rfl
        | some first =>
            have hheld : met.holds (.type about node) = true := by simp [holds, hmet]
            rw [if_pos hheld, hmet, Option.some_or]
      · have hne : (name == node.name) = false := by
          rw [beq_eq_false_iff_ne]
          exact Ne.symm hname
        rw [if_neg fun hdefines => hname (defines_type_iff.1 hdefines), Option.or_none]
        split
        · rfl
        · rw [Met.with, List.lookup_cons, hne]
  | _ =>
      refine Eq.trans ?_ Option.or_none.symm
      split <;> rfl

/-- What is met of a type is the form of its first definition. -/
theorem Met.lookup_past (met : Met) (document : Document) (name : String) :
    (met.past form document).types.lookup name =
      (met.types.lookup name).or (firstForm? form document name) := by
  induction document generalizing met with
  | nil => rw [past, List.foldl_nil, firstForm?_nil, Option.or_none]
  | cons definition rest ih =>
      have hrest := ih (met.judge form definition).2
      rw [lookup_judge, Option.or_assoc] at hrest
      rw [past, List.foldl_cons]
      refine hrest.trans (congrArg _ ?_)
      rw [firstForm?_cons, firstForm?_cons, firstForm?_nil]
      cases hdefines : definition.defines name with
      | true =>
          obtain ⟨about, node, rfl, -⟩ := exists_eq_type_of_defines hdefines
          rfl
      | false => rfl

/-- Behind definitions that are merged a merge goes on with what they have met. -/
theorem mergeFrom_append (hbefore : mergeFrom form met before = .ok kept) (after : Document) :
    mergeFrom form met (before ++ after) =
      (mergeFrom form (met.past form before) after).map (kept ++ ·) := by
  induction before generalizing met kept with
  | nil =>
      obtain rfl : [] = kept := Except.ok.inj hbefore
      cases hafter : mergeFrom form met after with
      | error other => simp [Met.past, hafter, Except.map]
      | ok rest => simp [Met.past, hafter, Except.map]
  | cons definition rest ih =>
      rw [List.cons_append, mergeFrom, Met.past, List.foldl_cons]
      rw [mergeFrom] at hbefore
      rcases hjudge : met.judge form definition with ⟨verdict, next⟩
      rw [hjudge] at hbefore
      cases verdict with
      | kept =>
          obtain ⟨others, hrest, rfl⟩ := Results.map_eq_ok_iff.1 hbefore
          have hih := ih hrest
          dsimp only
          rw [hih, Met.past]
          cases mergeFrom form (rest.foldl _ next) after <;> rfl
      | repeated => exact ih hbefore
      | conflicting type => contradiction

theorem mergeFrom_eq_error_of_ne {about : Option Literal} {node : TypeNode} {first : String}
    (hmet : met.types.lookup node.name = some first) (hne : first ≠ form about node)
    (after : Document) :
    mergeFrom form met (.type about node :: after) = .error node.name := by
  have hjudge : met.judge form (.type about node) = (.conflicting node.name, met) := by
    simp [Met.judge, hmet, hne]
  rw [mergeFrom, hjudge]

/-! ## Failures -/

theorem mergeBy_eq_error_of_find? {first : Definition}
    (hfirst : documents.flatten.find? (·.deviates form documents.flatten) = some first) :
    ∃ about node, first = .type about node ∧ mergeBy form documents = .error node.name := by
  obtain ⟨hdeviates, before, after, hsplit, hbefore⟩ := List.find?_eq_some_iff_append.1 hfirst
  cases first with
  | type about node =>
      refine ⟨about, node, rfl, ?_⟩
      have hagrees : Agrees form before :=
        agrees_of_not_deviates fun definition hmem => by simpa using hbefore definition hmem
      have hmerged : mergeBy form [before] = .ok (firsts before) :=
        mergeBy_eq_ok_iff.2 (by simpa using hagrees)
      have hmerged' : mergeFrom form {} before = .ok (firsts before) := by
        simpa [mergeBy] using hmerged
      rw [hsplit] at hdeviates
      obtain ⟨one, hone, hne⟩ := firstForm?_append_of_deviates hdeviates
      have hmet : (Met.past form {} before).types.lookup node.name = some one := by
        rw [Met.lookup_past, hone]
        rfl
      rw [mergeBy, hsplit, mergeFrom_append hmerged', mergeFrom_eq_error_of_ne hmet hne]
      rfl
  | _ => contradiction

theorem mergeBy_eq_error_iff :
    mergeBy form documents = .error name ↔
      ∃ first, documents.flatten.find? (·.deviates form documents.flatten) = some first ∧
        first.definedType? = some name := by
  constructor
  · intro herror
    cases hfound : documents.flatten.find? (·.deviates form documents.flatten) with
    | none =>
        have hagrees : Agrees form documents.flatten :=
          agrees_of_not_deviates fun definition hmem => by
            simpa using List.find?_eq_none.1 hfound definition hmem
        rw [mergeBy_eq_ok_iff.2 ⟨hagrees, rfl⟩] at herror
        contradiction
    | some first =>
        obtain ⟨about, node, rfl, hnamed⟩ := mergeBy_eq_error_of_find? hfound
        rw [hnamed] at herror
        exact ⟨_, rfl, congrArg some (Except.error.inj herror)⟩
  · rintro ⟨first, hfound, hname⟩
    obtain ⟨about, node, rfl, hnamed⟩ := mergeBy_eq_error_of_find? hfound
    rw [hnamed, Option.some.inj hname]

theorem exists_mergeBy_eq_error_iff :
    (∃ name, mergeBy form documents = .error name) ↔ HasConflict form documents.flatten := by
  rw [← not_agrees_iff]
  constructor
  · rintro ⟨name, herror⟩ hagrees
    rw [mergeBy_eq_ok_iff.2 ⟨hagrees, rfl⟩] at herror
    contradiction
  · intro hconflict
    cases hmerged : mergeBy form documents with
    | error name => exact ⟨name, rfl⟩
    | ok kept => exact absurd (mergeBy_eq_ok_iff.1 hmerged).1 hconflict

/-! ## What is kept -/

/-- The first definition of every type and every directive is kept and all other definitions are,
each where it stands. -/
structure KeepsFirsts (document kept : Document) : Prop where
  places : kept = (document.zipIdx.filter (isNewAt document)).map Prod.fst
  sublist : kept.Sublist document
  untitled : kept.filter (·.isUntitled) = document.filter (·.isUntitled)
  types : ∀ name, kept.filter (·.defines name) = (document.find? (·.defines name)).toList
  directives : ∀ name,
    kept.filter (·.definesDirective name) = (document.find? (·.definesDirective name)).toList

theorem keepsFirsts_firsts (document : Document) : KeepsFirsts document (firsts document) where
  places := firsts_eq_map_places document
  sublist := firsts_sublist document
  untitled := filter_isUntitled_firsts document
  types _ := filter_firsts (fun _ hone => haveSameTitle_eq_defines hone) document
  directives _ := filter_firsts (fun _ hone => haveSameTitle_eq_definesDirective hone) document

end Sdl

namespace Sources

variable {documents : List Sdl.Document}

theorem merged_eq_error_iff {error : LoadError} :
    merged documents = .error error ↔
      ∃ name, error = .conflict name ∧
        Sdl.mergeBy written (marks :: documents) = .error name := by
  have hmerge : Sdl.merge (marks :: documents) = Sdl.mergeBy written (marks :: documents) := rfl
  rw [merged, hmerge]
  cases hmerged : Sdl.mergeBy written (marks :: documents) with
  | error name => simp [Except.mapError, eq_comm]
  | ok document => simp [Except.mapError]

/-- The definitions of the marks count, whatever is defined behind them. -/
theorem find?_definesDirective_marks {mark : Sdl.DirectiveDefinition}
    (hmark : .directive mark ∈ marks) (document : Sdl.Document) :
    (marks ++ document).find? (·.definesDirective mark.name) = some (.directive mark) := by
  simp only [marks, List.mem_cons, List.not_mem_nil, or_false, Sdl.Definition.directive.injEq]
    at hmark
  rcases hmark with rfl | rfl
  · rfl
  · rfl

theorem merge_outcome [Runtime] (form : Option Sdl.Literal → Sdl.TypeNode → String)
    (documents : List Sdl.Document) :
    ((∃ name, Sdl.mergeBy form documents = .error name) ↔
        Sdl.HasConflict form documents.flatten) ∧
      (∀ name, Sdl.mergeBy form documents = .error name ↔
        ∃ first, documents.flatten.find? (·.deviates form documents.flatten) = some first ∧
          first.definedType? = some name) ∧
      (∀ kept, Sdl.mergeBy form documents = .ok kept →
        Sdl.KeepsFirsts documents.flatten kept) ∧
      (∀ kept, Sdl.mergeBy form (marks :: documents) = .ok kept →
        ∀ mark, .directive mark ∈ marks →
          kept.filter (·.definesDirective mark.name) = [.directive mark]) ∧
      ∀ error, merged documents = .error error →
        ∃ name, Sdl.mergeBy written (marks :: documents) = .error name ∧
          error.message = some ("Conflicting definitions for type '" ++ name ++ "'") := by
  refine ⟨Sdl.exists_mergeBy_eq_error_iff, fun _ => Sdl.mergeBy_eq_error_iff, ?_, ?_, ?_⟩
  · intro kept hkept
    rw [(Sdl.mergeBy_eq_ok_iff.1 hkept).2]
    exact Sdl.keepsFirsts_firsts _
  · intro kept hkept mark hmark
    rw [(Sdl.mergeBy_eq_ok_iff.1 hkept).2, (Sdl.keepsFirsts_firsts _).directives, List.flatten_cons,
      find?_definesDirective_marks hmark]
    rfl
  · intro error herror
    obtain ⟨name, rfl, hnamed⟩ := merged_eq_error_iff.1 herror
    exact ⟨name, hnamed, rfl⟩

end Sources

end ConfigSchema
