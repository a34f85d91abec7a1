import ConfigSchema.Proofs.DeclaredTypes
import ConfigSchema.Proofs.RepeatedDefinitions

/-!
# Repeated sources

A source that is read again brings all of its definitions again.  Main statement: which lists of
sources with repetitions load, and what their graphs list again.
-/

namespace ConfigSchema

/-- A type that says what another one says, and lists some of its interfaces or members again. -/
structure TypeDef.RepeatsAs (more : List String) (one other : TypeDef) : Prop where
  name : other.name = one.name
  description : other.description = one.description
  directives : ∀ applied, applied ∈ other.directives ↔ applied ∈ one.directives
  shape : other.shape = one.shape.relisted other.shape.listed
  listed : Repeats more one.shape.listed other.shape.listed

theorem TypeShape.relisted_listed (shape : TypeShape) : shape.relisted shape.listed = shape := by
  cases shape <;> rfl

/-- A shape that lists nothing has no place for a list. -/
theorem TypeShape.listed_relisted {shape : TypeShape} {listed : List String}
    (hnone : shape.listed = [] → listed = []) : (shape.relisted listed).listed = listed := by
  cases shape <;> first | rfl | exact (hnone rfl).symm

theorem TypeDef.RepeatsAs.shape_eq_iff {more : List String} {one other : TypeDef}
    (hrepeats : one.RepeatsAs more other) : other.shape = one.shape ↔ more = [] := by
  rw [← hrepeats.listed.eq_iff]
  constructor
  · intro hshape
    rw [hshape]
  · intro hlisted
    rw [hrepeats.shape, hlisted, TypeShape.relisted_listed]

/-- What extensions of a type list; nothing is listed for a built-in type. -/
def Sdl.listedAgain (document : Sdl.Document) (name : String) : List String :=
  if name ∈ Sdl.BuiltIn.typeNames then []
  else (Schema.extensionsOf document name).flatMap (·.body.listed)

namespace Schema

variable {schema : Schema} {document more few many : Sdl.Document} {name : String}
variable {type : TypeDef}

theorem IsOf.relisted_eq [Runtime] (hof : schema.IsOf document) :
    schema.relisted document = schema := by
  have htypes : schema.types.map (NamedType.relisted document) = schema.types := by
    conv_rhs => rw [← List.map_id schema.types]
    exact List.map_congr_left fun type htype => relisted_of_mem hof.isValid hof.types htype
  rw [relisted, htypes]

theorem toGraph_of_repeats [Runtime] (hof : schema.IsOf few) (hrepeats : Repeats more few many)
    (huntitled : ∀ d ∈ more, d.isUntitled = true) (hmay : ∀ d ∈ more, d.mayRepeat few = true) :
    List.Forall₂ (fun one other : TypeDef => one.RepeatsAs (Sdl.listedAgain more one.name) other)
      schema.toGraph.types (schema.relisted many).toGraph.types := by
  have hown := toGraph_relisted hof (.refl few)
  rw [hof.relisted_eq] at hown
  rw [toGraph_relisted hof (Sdl.relists_of_repeats hrepeats huntitled hmay),
    List.forall₂_map_right_iff, List.forall₂_same]
  intro type htype
  have hsame : type.relisted few = type :=
    List.map_inj_left.1 (hown.symm.trans (List.map_id _).symm) type htype
  by_cases hname : type.name ∈ Sdl.BuiltIn.typeNames
  · rw [TypeDef.relisted, if_pos hname, Sdl.listedAgain, if_pos hname]
    exact ⟨rfl, rfl, fun _ => Iff.rfl, (TypeShape.relisted_listed _).symm, .none _⟩
  · have hlisted := Sdl.listedBy_of_repeats hrepeats huntitled type.name
    rw [← hof.listed_of_mem htype hname] at hlisted
    rw [TypeDef.relisted, if_neg hname] at hsame ⊢
    have happlied : Sdl.appliedBy few type.name = type.directives := by
      conv_rhs => rw [← hsame]
    have hplace : (type.shape.relisted (Sdl.listedBy many type.name)).listed =
        Sdl.listedBy many type.name := by
      apply TypeShape.listed_relisted
      intro hnil
      rw [hnil] at hlisted
      rw [List.eq_nil_iff_forall_not_mem]
      intro applied hmem
      exact List.not_mem_nil (hlisted.mem_iff.1 hmem)
    refine ⟨rfl, rfl, fun applied => ?_, ?_, ?_⟩
    · dsimp only
      rw [Sdl.mem_appliedBy_of_repeats hrepeats huntitled, happlied]
    · dsimp only
      rw [hplace]
    · dsimp only
      rw [hplace, Sdl.listedAgain, if_neg hname]
      exact hlisted

/-- The graph lists nothing again exactly if no extension that is repeated lists anything. -/
theorem shapes_of_repeats [Runtime] (hof : schema.IsOf few)
    (hmore : ∀ name, ∀ extension ∈ extensionsOf more name, extension ∈ extensionsOf few name)
    {types : List TypeDef}
    (htypes : List.Forall₂
      (fun one other : TypeDef => one.RepeatsAs (Sdl.listedAgain more one.name) other)
      schema.toGraph.types types) :
    List.Forall₂ (fun one other : TypeDef => other.shape = one.shape) schema.toGraph.types types ↔
      ∀ name, Sdl.listedAgain more name = [] := by
  constructor
  · intro hshapes name
    rw [List.eq_nil_iff_forall_not_mem]
    intro listed hmem
    have hextended := hmem
    rw [Sdl.listedAgain] at hextended
    split at hextended
    · contradiction
    · next hname =>
        obtain ⟨extension, hextension, hlists⟩ := List.mem_flatMap.1 hextended
        obtain ⟨type, htype, rfl⟩ := hof.exists_of_mem_partsOf
          (List.mem_append_right _ (hmore name extension hextension))
          (Sdl.TypeBody.kind_ne_input_of_mem_listed hlists) hname
        obtain ⟨other, hshape, hrepeats⟩ := Results.exists_right_of_both hshapes htypes htype
        rw [hrepeats.shape_eq_iff.1 hshape] at hmem
        contradiction
  · intro hnone
    refine htypes.imp fun one other hrepeats => ?_
    exact hrepeats.shape_eq_iff.2 (hnone one.name)

end Schema

namespace Sdl

variable {document : Document}

theorem forall_mayRepeat_filter_iff {more : Document} :
    (∀ d ∈ more.filter (·.isUntitled), d.mayRepeat document = true) ↔
      ∀ d ∈ more, d.mayRepeat document = true := by
  simp only [List.mem_filter, and_imp]
  apply forall₂_congr
  intro d _
  cases d <;> simp [Definition.isUntitled, Definition.mayRepeat]

theorem extensionsOf_filter_isUntitled (document : Document) (name : String) :
    Schema.extensionsOf (document.filter (·.isUntitled)) name =
      Schema.extensionsOf document name := by
  rw [Schema.extensionsOf, List.filterMap_filter]
  apply List.filterMap_congr
  intro d _
  cases d <;> rfl

end Sdl

/-- A merge of definitions that are repeated has a schema exactly if each of them may be. -/
theorem Schema.ofDocument?_of_repeats [Runtime] {schema : Schema} {more few many : Sdl.Document}
    (hschema : Schema.ofDocument? (Sdl.firsts few) = some schema)
    (hrepeats : Repeats more few many) {other : Schema} :
    Schema.ofDocument? (Sdl.firsts many) = some other ↔
      (∀ d ∈ more, d.mayRepeat (Sdl.firsts few) = true) ∧
        schema.relisted (Sdl.firsts many) = other := by
  have hkept := Sdl.repeats_firsts hrepeats
  have huntitled : ∀ d ∈ more.filter (·.isUntitled), d.isUntitled = true :=
    fun d hd => (List.mem_filter.1 hd).2
  rw [← Sdl.forall_mayRepeat_filter_iff]
  constructor
  · intro hother
    have hvalid := (Schema.ofDocument?_eq_some_iff.1 hother).isValid
    have hmay := ((Sdl.isValid_of_repeats hkept huntitled).1 hvalid).2
    rw [Schema.ofDocument?_relisted (Sdl.relists_of_repeats hkept huntitled hmay), hschema,
      Option.map_some, Option.some.injEq] at hother
    exact ⟨hmay, hother⟩
  · rintro ⟨hmay, rfl⟩
    rw [Schema.ofDocument?_relisted (Sdl.relists_of_repeats hkept huntitled hmay), hschema]
    rfl

namespace Sources

variable {around : Surroundings} {sources more longer : List String} {schema : Schema}

/-- The definitions that a source brings, none if it cannot be read. -/
def brought [Runtime] (around : Surroundings) (source : String) : Sdl.Document :=
  match (documents around source).result with
  | .ok found => found.flatten
  | .error _ => []

theorem definitions_eq_ok_iff [Runtime] {document : Sdl.Document} :
    definitions around sources = .ok document ↔
      (∀ source ∈ sources, ∃ found, (documents around source).result = .ok found) ∧
        document = sources.flatMap (brought around) := by
  rw [definitions, Results.map_eq_ok_iff]
  simp only [Results.mapM_eq_ok_iff]
  induction sources generalizing document with
  | nil => simp [eq_comm]
  | cons source rest ih =>
      simp only [List.forall₂_cons_left_iff, List.forall_mem_cons, List.flatMap_cons]
      constructor
      · rintro ⟨_, ⟨found, others, hfound, hothers, rfl⟩, rfl⟩
        obtain ⟨hrest, heq⟩ := ih.1 ⟨others, hothers, rfl⟩
        refine ⟨⟨⟨found, hfound⟩, hrest⟩, ?_⟩
        rw [List.flatten_cons, List.flatten_append, heq, brought, hfound]
      · rintro ⟨⟨⟨found, hfound⟩, hrest⟩, rfl⟩
        obtain ⟨others, hothers, heq⟩ := ih.2 ⟨hrest, rfl⟩
        refine ⟨_, ⟨found, others, hfound, hothers, rfl⟩, ?_⟩
        rw [List.flatten_cons, List.flatten_append, heq, brought, hfound]

/-- The definitions of sources with repetitions are those of the sources with repetitions. -/
theorem definitions_of_repeats [Runtime] {document : Sdl.Document}
    (hdefinitions : definitions around sources = .ok document)
    (hrepeats : Repeats more sources longer) :
    ∃ again whole, definitions around more = .ok again ∧ definitions around longer = .ok whole ∧
      Repeats again document whole := by
  obtain ⟨hfound, rfl⟩ := definitions_eq_ok_iff.1 hdefinitions
  refine ⟨_, _, definitions_eq_ok_iff.2 ⟨?_, rfl⟩, definitions_eq_ok_iff.2 ⟨?_, rfl⟩,
    hrepeats.flatMap _⟩
  · exact fun source hsource => hfound source (hrepeats.mem_of_mem_more hsource)
  · exact fun source hsource => hfound source (hrepeats.mem_iff.1 hsource)

theorem agrees_of_repeats {document again whole : Sdl.Document}
    (hagrees : Sdl.Agrees written document) (hrepeats : Repeats again document whole) :
    Sdl.Agrees written whole := by
  have hwritten := hrepeats.filterMap (Sdl.Definition.written? written)
  intro one hone other hother
  exact hagrees one (hwritten.mem_iff.1 hone) other (hwritten.mem_iff.1 hother)

/-- Sources load again with repetitions exactly if every definition that is brought again may
stand there again.  Types, directives, operations and fragments may; a definition of the schema
may not; extensions may only if they add neither operations, fields, values nor a directive that
may be applied once.  The graph then lists the interfaces and members of repeated extensions
again, and is the same otherwise. -/
theorem load_of_repeats [Runtime] (hload : (load around sources).result = .ok schema)
    (hrepeats : Repeats more sources longer) :
    ∃ document again, definitions around sources = .ok document ∧
      definitions around more = .ok again ∧
      ((∃ other, (load around longer).result = .ok other) ↔
        ∀ d ∈ again, d.mayRepeat (Sdl.firsts (marks ++ document)) = true) ∧
      ∀ other, (load around longer).result = .ok other →
        other.toGraph.directives = schema.toGraph.directives ∧
          List.Forall₂
            (fun one another : TypeDef => one.RepeatsAs (Sdl.listedAgain again one.name) another)
            schema.toGraph.types other.toGraph.types ∧
          (List.Forall₂ (fun one another : TypeDef => another.shape = one.shape)
              schema.toGraph.types other.toGraph.types ↔
            ∀ name, Sdl.listedAgain again name = []) := by
  obtain ⟨document, hdefinitions, hagrees, hschema⟩ := load_eq_ok_iff.1 hload
  obtain ⟨again, whole, hagain, hwhole, hbrought⟩ := definitions_of_repeats hdefinitions hrepeats
  have hloads : ∀ other, (load around longer).result = .ok other ↔
      (∀ d ∈ again, d.mayRepeat (Sdl.firsts (marks ++ document)) = true) ∧
        schema.relisted (Sdl.firsts (marks ++ whole)) = other := by
    intro other
    rw [load_eq_ok_iff, ← Schema.ofDocument?_of_repeats hschema (hbrought.append_left marks)]
    constructor
    · rintro ⟨found, hfound, -, hother⟩
      rw [hwhole, Except.ok.injEq] at hfound
      rw [hfound]
      exact hother
    · exact fun hother => ⟨whole, hwhole, agrees_of_repeats hagrees hbrought, hother⟩
  refine ⟨document, again, hdefinitions, hagain, ?_, ?_⟩
  · simp only [hloads, exists_and_left, exists_eq', and_true]
  · intro other hother
    obtain ⟨hmay, rfl⟩ := (hloads other).1 hother
    have hof := Schema.ofDocument?_eq_some_iff.1 hschema
    have hkept := Sdl.repeats_firsts (hbrought.append_left marks)
    have htypes := Schema.toGraph_of_repeats hof hkept (fun d hd => (List.mem_filter.1 hd).2)
      (Sdl.forall_mayRepeat_filter_iff.2 hmay)
    have hmore : ∀ name, ∀ extension ∈ Schema.extensionsOf again name,
        extension ∈ Schema.extensionsOf (Sdl.firsts (marks ++ document)) name := by
      intro name extension hextension
      rw [← Sdl.extensionsOf_filter_isUntitled] at hextension
      obtain ⟨hrepeated, hself⟩ := Sdl.mem_extensionsOf_iff.1 hextension
      exact Sdl.mem_extensionsOf_iff.2 ⟨hkept.mem_of_mem_more hrepeated, hself⟩
    simp only [Sdl.listedAgain, Sdl.extensionsOf_filter_isUntitled] at htypes
    exact ⟨rfl, htypes, Schema.shapes_of_repeats hof hmore htypes⟩

/-- A source that extends a type of its own. -/
def extendingSource : String :=
  "type Query \x7b shelf: Int \x7d extend type Query \x7b size: Int \x7d"

section Usual

attribute [local instance] Runtime.usual

theorem extendingSource_loads_once :
    (∃ schema, (load bareSurroundings [extendingSource]).result = .ok schema) ∧
      ¬ ∃ other, (load bareSurroundings [extendingSource, extendingSource]).result = .ok other := by
  have hloaded : ((load bareSurroundings [extendingSource]).result matches .ok _) = true := by
    decide +kernel
  have hrefused : (match definitions bareSurroundings [extendingSource] with
      | .ok document => document.any fun d => !d.mayRepeat (Sdl.firsts (marks ++ document))
      | .error _ => false) = true := by decide +kernel
  cases hload : (load bareSurroundings [extendingSource]).result with
  | error e =>
      rw [hload] at hloaded
      contradiction
  | ok schema =>
      have hrepeats : Repeats [extendingSource] [extendingSource]
          ([extendingSource] ++ [extendingSource]) :=
        .again (.none [extendingSource]) List.mem_cons_self
      obtain ⟨document, again, hdefinitions, hagain, hexact, -⟩ := load_of_repeats hload hrepeats
      rw [hdefinitions, Except.ok.injEq] at hagain
      subst hagain
      simp only [hdefinitions, List.any_eq_true, Bool.not_eq_true'] at hrefused
      obtain ⟨d, hd, hnot⟩ := hrefused
      refine ⟨⟨schema, rfl⟩, fun hother => ?_⟩
      rw [hexact.1 hother d hd] at hnot
      contradiction

end Usual

end Sources

end ConfigSchema
