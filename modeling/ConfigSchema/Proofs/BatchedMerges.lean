import ConfigSchema.Proofs.MergeOutcome

/-!
# Merges in batches

What a merge has met can be told from what it keeps: a definition that is dropped has the title
and the form of one that is kept.  So a merged document stands for the documents it was made of
in every further merge, and documents may be merged in any groups.
-/

namespace ConfigSchema

namespace Sdl

variable {form : Option Literal → TypeNode → String}
variable {document few many one other kept : Document} {documents : List Document}

/-! ## Documents that stand for others -/

/-- A document that has the types of another one in the same forms, and of which the same
definitions count. -/
structure StandsFor (form : Option Literal → TypeNode → String) (few many : Document) : Prop where
  forms : ∀ written, written ∈ few.filterMap (Definition.written? form) ↔
    written ∈ many.filterMap (Definition.written? form)
  counting : firsts few = firsts many

namespace StandsFor

theorem refl (document : Document) : StandsFor form document document := ⟨fun _ => Iff.rfl, rfl⟩

theorem append {fewer more : Document} (hfirst : StandsFor form few many)
    (hrest : StandsFor form fewer more) : StandsFor form (few ++ fewer) (many ++ more) where
  forms written := by
    rw [List.filterMap_append, List.filterMap_append, List.mem_append, List.mem_append,
      hfirst.forms, hrest.forms]
  counting := by rw [firsts_append_eq, firsts_append_eq, hfirst.counting, hrest.counting]

theorem agrees_iff (hstands : StandsFor form few many) : Agrees form few ↔ Agrees form many := by
  simp only [Agrees, hstands.forms]

/-- The definitions that a merge keeps stand for all of them. -/
theorem firsts_of_agrees (hagrees : Agrees form document) :
    StandsFor form (firsts document) document where
  forms written := by
    constructor
    · intro hwritten
      obtain ⟨definition, hmem, hform⟩ := List.mem_filterMap.1 hwritten
      exact List.mem_filterMap.2 ⟨definition, (firsts_sublist document).subset hmem, hform⟩
    · intro hwritten
      obtain ⟨definition, hmem, hform⟩ := List.mem_filterMap.1 hwritten
      cases definition with
      | type about node =>
          have hdefines : (Definition.type about node).defines node.name = true :=
            defines_type_iff.2 rfl
          have hsome := List.find?_isSome.2 ⟨_, hmem, hdefines⟩
          obtain ⟨first, hfirst⟩ := Option.isSome_iff_exists.1 hsome
          obtain ⟨before, another, rfl, hname⟩ :=
            exists_eq_type_of_defines (List.find?_some hfirst)
          have hkept : Definition.type before another ∈
              (firsts document).filter (·.defines node.name) := by
            rw [(keepsFirsts_firsts document).types, hfirst]
            exact List.mem_singleton_self _
          have hsame := Sdl.agrees_iff.1 hagrees before another about node
            (List.mem_of_find?_eq_some hfirst) hmem hname
          refine List.mem_filterMap.2 ⟨_, List.mem_of_mem_filter hkept, ?_⟩
          rw [← hform, Definition.written?, Definition.written?, hname, hsame]
      | _ => contradiction
  counting := firsts_firsts document

theorem mergeBy_eq_ok_iff {fewer more : List Document}
    (hstands : StandsFor form fewer.flatten more.flatten) :
    mergeBy form fewer = .ok kept ↔ mergeBy form more = .ok kept := by
  rw [Sdl.mergeBy_eq_ok_iff, Sdl.mergeBy_eq_ok_iff, hstands.agrees_iff, hstands.counting]

end StandsFor

theorem Agrees.of_append_left (hagrees : Agrees form (one ++ other)) : Agrees form one :=
  agrees_iff.2 fun about node another next hnode hnext =>
    agrees_iff.1 hagrees about node another next (List.mem_append_left _ hnode)
      (List.mem_append_left _ hnext)

theorem Agrees.of_append_right (hagrees : Agrees form (one ++ other)) : Agrees form other :=
  agrees_iff.2 fun about node another next hnode hnext =>
    agrees_iff.1 hagrees about node another next (List.mem_append_right _ hnode)
      (List.mem_append_right _ hnext)

/-! ## Results that stand for documents -/

/-- A result that is a document in place of another one, and a failure only if the definitions of
that one have a conflict. -/
structure ResultsFrom (form : Option Literal → TypeNode → String) (document : Document)
    (result : Except String Document) : Prop where
  stands : ∀ made, result = .ok made → StandsFor form made document
  succeeds : Agrees form document → ∃ made, result = .ok made

namespace ResultsFrom

theorem ok (document : Document) : ResultsFrom form document (.ok document) where
  stands made hmade := by
    obtain rfl := Except.ok.inj hmade
    exact .refl _
  succeeds _ := ⟨document, rfl⟩

theorem cons {result : Except String Document} {results : Except String (List Document)}
    (hfirst : ResultsFrom form one result)
    (hrest : ResultsFrom form other (results.map List.flatten)) :
    ResultsFrom form (one ++ other)
      ((result.bind fun made => results.map (made :: ·)).map List.flatten) where
  stands made hmade := by
    obtain ⟨_, hparts, rfl⟩ := Results.map_eq_ok_iff.1 hmade
    obtain ⟨first, hone, hparts⟩ := Results.bind_eq_ok_iff.1 hparts
    obtain ⟨parts, hothers, rfl⟩ := Results.map_eq_ok_iff.1 hparts
    exact (hfirst.stands first hone).append (hrest.stands parts.flatten (by rw [hothers]; rfl))
  succeeds hagrees := by
    obtain ⟨first, hone⟩ := hfirst.succeeds hagrees.of_append_left
    obtain ⟨_, hother⟩ := hrest.succeeds hagrees.of_append_right
    obtain ⟨parts, hothers, rfl⟩ := Results.map_eq_ok_iff.1 hother
    exact ⟨first ++ parts.flatten, by rw [hone, hothers]; rfl⟩

/-- What is merged from results stands for what they stand for. -/
theorem merged {results : Except String (List Document)}
    (hresults : ResultsFrom form document (results.map List.flatten)) :
    ResultsFrom form document (results.bind (mergeBy form)) where
  stands made hmade := by
    obtain ⟨parts, hparts, hmade⟩ := Results.bind_eq_ok_iff.1 hmade
    have hstands := hresults.stands parts.flatten (by rw [hparts]; rfl)
    obtain ⟨hagrees, rfl⟩ := mergeBy_eq_ok_iff.1 hmade
    refine ⟨fun written => ?_, ?_⟩
    · rw [(StandsFor.firsts_of_agrees hagrees).forms, hstands.forms]
    · rw [firsts_firsts, hstands.counting]
  succeeds hagrees := by
    obtain ⟨made, hmade⟩ := hresults.succeeds hagrees
    obtain ⟨parts, hparts, rfl⟩ := Results.map_eq_ok_iff.1 hmade
    have hstands := hresults.stands parts.flatten hmade
    exact ⟨firsts parts.flatten, by
      rw [hparts]
      exact mergeBy_eq_ok_iff.2 ⟨hstands.agrees_iff.2 hagrees, rfl⟩⟩

/-- A merge of results has the outcome of a merge of what they stand for. -/
theorem bind_mergeBy_eq_ok_iff {results : Except String (List Document)}
    (hresults : ResultsFrom form documents.flatten (results.map List.flatten)) :
    results.bind (mergeBy form) = .ok kept ↔ mergeBy form documents = .ok kept := by
  constructor
  · intro hkept
    obtain ⟨parts, hparts, hkept⟩ := Results.bind_eq_ok_iff.1 hkept
    have hstands := hresults.stands parts.flatten (by rw [hparts]; rfl)
    exact hstands.mergeBy_eq_ok_iff.1 hkept
  · intro hkept
    obtain ⟨made, hmade⟩ := hresults.succeeds (mergeBy_eq_ok_iff.1 hkept).1
    obtain ⟨parts, hparts, rfl⟩ := Results.map_eq_ok_iff.1 hmade
    rw [hparts]
    exact (hresults.stands parts.flatten hmade).mergeBy_eq_ok_iff.2 hkept

end ResultsFrom

/-! ## Groups -/

/-- Sources in groups, which may be made of groups in turn. -/
inductive Grouping where
  | source (document : Document)
  | group (parts : List Grouping)

mutual

def Grouping.sources : Grouping → List Document
  | .source document => [document]
  | .group parts => sourcesOf parts

def sourcesOf : List Grouping → List Document
  | [] => []
  | part :: rest => part.sources ++ sourcesOf rest

end

mutual

/-- What is made of a group: its parts are made, in order, and then merged. -/
def Grouping.outcome (form : Option Literal → TypeNode → String) :
    Grouping → Except String Document
  | .source document => .ok document
  | .group parts => (outcomes form parts).bind (mergeBy form)

def outcomes (form : Option Literal → TypeNode → String) :
    List Grouping → Except String (List Document)
  | [] => .ok []
  | part :: rest =>
      (part.outcome form).bind fun made => (outcomes form rest).map (made :: ·)

end

mutual

theorem resultsFrom_outcome :
    (whole : Grouping) → ResultsFrom form whole.sources.flatten (whole.outcome form)
  | .source document => by
      rw [Grouping.sources, Grouping.outcome, List.flatten_singleton]
      exact .ok document
  | .group parts => by
      rw [Grouping.sources, Grouping.outcome]
      exact (resultsFrom_outcomes parts).merged

theorem resultsFrom_outcomes :
    (parts : List Grouping) →
      ResultsFrom form (sourcesOf parts).flatten ((outcomes form parts).map List.flatten)
  | [] => by
      rw [sourcesOf, outcomes]
      exact .ok []
  | part :: rest => by
      rw [sourcesOf, List.flatten_append, outcomes]
      exact (resultsFrom_outcome part).cons (resultsFrom_outcomes rest)

end

/-- In whatever groups sources are merged, what is made of them is made by one merge of all. -/
theorem outcome_group_eq_ok_iff {parts : List Grouping} :
    (Grouping.group parts).outcome form = .ok kept ↔
      mergeBy form (sourcesOf parts) = .ok kept := by
  rw [Grouping.outcome]
  exact (resultsFrom_outcomes parts).bind_mergeBy_eq_ok_iff

/-! ## Batches -/

theorem sourcesOf_map_source (documents : List Document) :
    sourcesOf (documents.map .source) = documents := by
  induction documents with
  | nil => rfl
  | cons document rest ih => rw [List.map_cons, sourcesOf, ih, Grouping.sources]; rfl

theorem outcomes_map_source (documents : List Document) :
    outcomes form (documents.map .source) = .ok documents := by
  induction documents with
  | nil => rfl
  | cons document rest ih => rw [List.map_cons, outcomes, ih, Grouping.outcome]; rfl

/-- Documents that are merged in two batches. -/
def batches (one other : List Document) : List Grouping :=
  [.group (one.map .source), .group (other.map .source)]

theorem sourcesOf_batches (one other : List Document) :
    sourcesOf (batches one other) = one ++ other := by
  simp only [batches, sourcesOf, Grouping.sources, sourcesOf_map_source, List.append_nil]

theorem outcomes_batches_eq_ok_iff {one other made : List Document} :
    outcomes form (batches one other) = .ok made ↔
      ∃ first second, mergeBy form one = .ok first ∧ mergeBy form other = .ok second ∧
        made = [first, second] := by
  simp only [batches, outcomes, Grouping.outcome, outcomes_map_source, Results.bind_eq_ok_iff,
    Results.map_eq_ok_iff, Except.ok.injEq, exists_eq_left']
  constructor
  · rintro ⟨first, hfirst, _, ⟨second, hsecond, rfl⟩, rfl⟩
    exact ⟨first, second, hfirst, hsecond, rfl⟩
  · rintro ⟨first, second, hfirst, hsecond, rfl⟩
    exact ⟨first, hfirst, _, ⟨second, hsecond, rfl⟩, rfl⟩

theorem mergeBy_append_eq_ok_iff {one other : List Document} :
    mergeBy form (one ++ other) = .ok kept ↔
      ∃ first second, mergeBy form one = .ok first ∧ mergeBy form other = .ok second ∧
        mergeBy form [first, second] = .ok kept := by
  rw [← sourcesOf_batches, ← outcome_group_eq_ok_iff, Grouping.outcome, Results.bind_eq_ok_iff]
  simp only [outcomes_batches_eq_ok_iff]
  constructor
  · rintro ⟨_, ⟨first, second, hfirst, hsecond, rfl⟩, hkept⟩
    exact ⟨first, second, hfirst, hsecond, hkept⟩
  · rintro ⟨first, second, hfirst, hsecond, hkept⟩
    exact ⟨_, ⟨first, second, hfirst, hsecond, rfl⟩, hkept⟩

/-- What is merged may be merged again. -/
theorem mergeBy_mergeBy (documents : List Document) :
    ((mergeBy form documents).bind fun kept => mergeBy form [kept]) =
      mergeBy form documents := by
  cases hmerged : mergeBy form documents with
  | error name => rfl
  | ok kept =>
      obtain ⟨hagrees, rfl⟩ := mergeBy_eq_ok_iff.1 hmerged
      have hstands := StandsFor.firsts_of_agrees hagrees
      rw [← List.flatten_singleton (l := firsts documents.flatten)] at hstands
      exact hstands.mergeBy_eq_ok_iff.2 hmerged

theorem mergeBy_split (front back : List Document) (one other : Document) :
    mergeBy form (front ++ (one ++ other) :: back) =
      mergeBy form (front ++ one :: other :: back) := by
  simp only [mergeBy, List.flatten_append, List.flatten_cons, List.append_assoc]

theorem merge_in_batches (form : Option Literal → TypeNode → String) :
    (∀ documents more kept, mergeBy form (documents ++ more) = .ok kept ↔
        ∃ first second, mergeBy form documents = .ok first ∧ mergeBy form more = .ok second ∧
          mergeBy form [first, second] = .ok kept) ∧
      (∀ documents, ((mergeBy form documents).bind fun kept => mergeBy form [kept]) =
        mergeBy form documents) ∧
      (∀ front back one other, mergeBy form (front ++ (one ++ other) :: back) =
        mergeBy form (front ++ one :: other :: back)) ∧
      ∀ parts kept, (Grouping.group parts).outcome form = .ok kept ↔
        mergeBy form (sourcesOf parts) = .ok kept :=
  ⟨fun _ _ _ => mergeBy_append_eq_ok_iff, mergeBy_mergeBy, mergeBy_split,
    fun _ _ => outcome_group_eq_ok_iff⟩

end Sdl

end ConfigSchema
