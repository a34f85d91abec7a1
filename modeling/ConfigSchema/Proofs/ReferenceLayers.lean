import ConfigSchema.Proofs.DeclaredTypes
import ConfigSchema.Proofs.OutputAgreement
import ConfigSchema.Proofs.TokenReading

/-!
# Layers of references

A reference is a name under a row of layers.  Taking the layers off one by one, going down them and
labelling them tell the same of this row: how many lists there are, and whether what is outermost is
required.  The row is the one that the notation of the reference spells, and that of a declared
field comes to the graph as it is.  Only a reference with more layers than an outline may spend has
no label; none that is written in a source has so many.
-/

namespace ConfigSchema

namespace TypeRef

inductive Layer where
  | list
  | required
  deriving DecidableEq

/-- The layers over the name, from the outside in. -/
def row : TypeRef → List Layer
  | .named _ => []
  | .list of => .list :: of.row
  | .required of => .required :: of.row

def Layer.around : Layer → TypeRef → TypeRef
  | .list => .list
  | .required => .required

/-- The reference with a row of layers over a name. -/
def ofRow (row : List Layer) (name : String) : TypeRef :=
  row.foldr Layer.around (.named name)

/-- Takes the layers off from the outside, remembering whether one of them was a list. -/
def unwrap (sawList : Bool) : TypeRef → String × Bool
  | .named name => (name, sawList)
  | .list of => of.unwrap true
  | .required of => of.unwrap sawList

/-- Nothing is required twice in a row. -/
def IsProper : TypeRef → Prop
  | .named _ => True
  | .list of => of.IsProper
  | .required of => of.isRequired = false ∧ of.IsProper

/-! ## Rows -/

theorem ofRow_row (ref : TypeRef) : ofRow ref.row ref.base = ref := by
  induction ref with
  | named name => rfl
  | list of ih => exact congrArg TypeRef.list ih
  | required of ih => exact congrArg TypeRef.required ih

@[simp] theorem row_ofRow (row : List Layer) (name : String) : (ofRow row name).row = row := by
  induction row with
  | nil => rfl
  | cons layer rest ih => cases layer <;> exact congrArg (List.cons _) ih

@[simp] theorem base_ofRow (row : List Layer) (name : String) : (ofRow row name).base = name := by
  induction row with
  | nil => rfl
  | cons layer rest ih => cases layer <;> exact ih

@[simp] theorem length_row (ref : TypeRef) : ref.row.length = ref.layers := by
  induction ref with
  | named name => rfl
  | list of ih => rw [row, List.length_cons, ih, layers]
  | required of ih => rw [row, List.length_cons, ih, layers]

@[simp] theorem count_list_row (ref : TypeRef) : ref.row.count .list = ref.listDepth := by
  induction ref with
  | named name => rfl
  | list of ih => rw [row, List.count_cons_self, ih, listDepth]
  | required of ih => rw [row, List.count_cons_of_ne (by decide), ih, listDepth]

theorem isRequired_iff_head?_row (ref : TypeRef) :
    ref.isRequired = true ↔ ref.row.head? = some .required := by
  cases ref <;> simp [isRequired, row]

/-- What the layers leave when they are taken off is what going down them tells. -/
theorem unwrap_eq (sawList : Bool) (ref : TypeRef) :
    ref.unwrap sawList = (ref.base, sawList || ref.isList) := by
  induction ref generalizing sawList with
  | named name => rw [unwrap, isList, Bool.or_false, base]
  | list of ih => rw [unwrap, ih, isList, Bool.true_or, Bool.or_true, base]
  | required of ih => rw [unwrap, ih, isList, base]

/-- Between two required layers there is a list. -/
theorem IsProper.layers_le {ref : TypeRef} (hproper : ref.IsProper) :
    ref.layers ≤ 2 * ref.listDepth + if ref.isRequired then 1 else 0 := by
  induction ref with
  | named name => exact Nat.zero_le _
  | list of ih =>
      have hbelow := ih hproper
      rw [layers, listDepth]
      split at hbelow <;> omega
  | required of ih =>
      have hbelow := ih hproper.2
      rw [hproper.1] at hbelow
      simpa [layers, listDepth, isRequired] using hbelow

/-! ## Labels -/

theorem layered_eq_join (base : String) (depth : Nat) :
    TypeGraph.layered base depth = String.join (List.replicate depth "Array<") ++ base ++
      String.join (List.replicate depth ">") := by
  induction depth with
  | zero => simp [TypeGraph.layered]
  | succ depth ih =>
      rw [TypeGraph.layered, ih, List.replicate_succ, List.replicate_succ']
      simp [String.append_assoc]

/-- The notation of a reference. -/
def tokens : TypeRef → List Sdl.Token
  | .named name => [.name name]
  | .list of => .mark '[' :: (of.tokens ++ [.mark ']'])
  | .required of => of.tokens ++ [.mark '!']

end TypeRef

/-! ## Notations -/

namespace Sdl.Reader

variable {room : Nat} {inner : Reader TypeRef} {ref : TypeRef} {tokens rest : List Token}

/-- The tokens start with the notation of a reference that nests no deeper than there is room, and
that the tokens behind it do not go on with. -/
structure Spells (room : Nat) (ref : TypeRef) (tokens rest : List Token) : Prop where
  tokens_eq : tokens = ref.tokens ++ rest
  isProper : ref.IsProper
  listDepth_le : ref.listDepth ≤ room
  ends : ref.isRequired = false → rest.head? ≠ some (.mark '!')

/-- A reader of what stands before a mark reads the notations without one. -/
def ReadsUnmarked (room : Nat) (inner : Reader TypeRef) : Prop :=
  ∀ ⦃tokens : List Token⦄ ⦃ref : TypeRef⦄ ⦃rest : List Token⦄, inner tokens = some (ref, rest) ↔
    ref.isRequired = false ∧ tokens = ref.tokens ++ rest ∧ ref.IsProper ∧ ref.listDepth ≤ room

theorem withMark_eq_some_iff (hinner : ReadsUnmarked room inner) :
    typeRefWithin.withMark inner tokens = some (ref, rest) ↔ Spells room ref tokens rest := by
  have hread : typeRefWithin.withMark inner tokens = some (ref, rest) ↔
      (∃ of, ref = .required of ∧ inner tokens = some (of, .mark '!' :: rest)) ∨
        inner tokens = some (ref, rest) ∧ rest.head? ≠ some (.mark '!') := by
    unfold typeRefWithin.withMark
    simp only [bind_eq_some_iff, skip?_eq_some_iff]
    constructor
    · rintro ⟨of, behind, hof, isMarked, later, ⟨rfl, rfl⟩ | ⟨rfl, rfl, hend⟩, hpure⟩
      · obtain ⟨rfl, rfl⟩ := pure_eq_some_iff.1 hpure
        exact .inl ⟨of, rfl, hof⟩
      · obtain ⟨rfl, rfl⟩ := pure_eq_some_iff.1 hpure
        exact .inr ⟨hof, hend⟩
    · rintro (⟨of, rfl, hof⟩ | ⟨hof, hend⟩)
      · exact ⟨of, _, hof, true, rest, .inl ⟨rfl, rfl⟩, pure_eq_some_iff.2 ⟨rfl, rfl⟩⟩
      · exact ⟨ref, rest, hof, false, rest, .inr ⟨rfl, rfl, hend⟩, pure_eq_some_iff.2 ⟨rfl, rfl⟩⟩
  rw [hread, hinner]
  constructor
  · rintro (⟨of, rfl, hof⟩ | ⟨⟨-, htokens, hproper, hdepth⟩, hend⟩)
    · obtain ⟨hplain, htokens, hproper, hdepth⟩ := hinner.1 hof
      refine ⟨?_, ⟨hplain, hproper⟩, hdepth,
        fun hmarked => absurd hmarked (by simp [TypeRef.isRequired])⟩
      rw [htokens, TypeRef.tokens, List.append_assoc]
      rfl
    · exact ⟨htokens, hproper, hdepth, fun _ => hend⟩
  · rintro ⟨htokens, hproper, hdepth, hend⟩
    cases ref with
    | required of =>
        refine .inl ⟨of, rfl, hinner.2 ⟨hproper.1, ?_, hproper.2, hdepth⟩⟩
        rw [htokens, TypeRef.tokens, List.append_assoc]
        rfl
    | named name => exact .inr ⟨⟨rfl, htokens, hproper, hdepth⟩, hend rfl⟩
    | list of => exact .inr ⟨⟨rfl, htokens, hproper, hdepth⟩, hend rfl⟩

theorem named_eq_some_iff : (TypeRef.named <$> name) tokens = some (ref, rest) ↔
    ∃ text, ref = .named text ∧ tokens = .name text :: rest := by
  rw [map_eq_some_iff]
  constructor
  · rintro ⟨text, hname, rfl⟩
    exact ⟨text, rfl, name_eq_some_iff.1 hname⟩
  · rintro ⟨text, rfl, htokens⟩
    exact ⟨text, name_eq_some_iff.2 htokens, rfl⟩

/-- Types are read as their notations spell them. -/
theorem typeRefWithin_eq_some_iff (room : Nat) :
    ∀ {tokens : List Token} {ref : TypeRef} {rest : List Token},
      typeRefWithin room tokens = some (ref, rest) ↔ Spells room ref tokens rest := by
  induction room with
  | zero =>
      intro tokens ref rest
      refine withMark_eq_some_iff fun tokens ref rest => ?_
      rw [named_eq_some_iff]
      constructor
      · rintro ⟨text, rfl, rfl⟩
        exact ⟨rfl, rfl, trivial, le_rfl⟩
      · rintro ⟨hplain, rfl, hproper, hdepth⟩
        cases ref with
        | named text => exact ⟨text, rfl, rfl⟩
        | list of => exact absurd hdepth (Nat.not_succ_le_zero _)
        | required of => contradiction
  | succ room ih =>
      intro tokens ref rest
      refine withMark_eq_some_iff fun tokens ref rest => ?_
      rw [bind_eq_some_iff]
      simp only [skip?_eq_some_iff]
      constructor
      · rintro ⟨isList, behind, ⟨rfl, rfl⟩ | ⟨rfl, rfl, -⟩, hread⟩
        · simp only [if_true, bind_eq_some_iff, ih, skip_eq_some_iff] at hread
          obtain ⟨item, later, ⟨rfl, hproper, hdepth, -⟩, -, last, rfl, hpure⟩ := hread
          obtain ⟨rfl, rfl⟩ := pure_eq_some_iff.1 hpure
          refine ⟨rfl, ?_, hproper, Nat.succ_le_succ hdepth⟩
          simp [TypeRef.tokens]
        · obtain ⟨text, rfl, rfl⟩ := named_eq_some_iff.1 hread
          exact ⟨rfl, rfl, trivial, Nat.zero_le _⟩
      · rintro ⟨hplain, rfl, hproper, hdepth⟩
        cases ref with
        | named text =>
            refine ⟨false, _, .inr ⟨rfl, rfl, by simp [TypeRef.tokens]⟩, ?_⟩
            exact named_eq_some_iff.2 ⟨text, rfl, rfl⟩
        | list item =>
            refine ⟨true, item.tokens ++ .mark ']' :: rest, .inl ⟨rfl, ?_⟩, ?_⟩
            · simp [TypeRef.tokens]
            · simp only [if_true, bind_eq_some_iff, ih, skip_eq_some_iff]
              exact ⟨item, _, ⟨rfl, hproper, Nat.le_of_succ_le_succ hdepth, by simp⟩, (), rest, rfl,
                pure_eq_some_iff.2 ⟨rfl, rfl⟩⟩
        | required of => contradiction

/-- What is written has no more layers than can be shown. -/
theorem layers_le_of_typeRef [Runtime] (hread : typeRef tokens = some (ref, rest)) :
    ref.layers ≤ 2 * Runtime.parsingDepth + 1 := by
  obtain ⟨-, hproper, hdepth, -⟩ := (typeRefWithin_eq_some_iff Runtime.parsingDepth).1 hread
  have hlayers := hproper.layers_le
  split at hlayers <;> omega

end Sdl.Reader

/-! ## Labels and declared types -/

namespace TypeGraph

variable {graph : TypeGraph} {ref : TypeRef} {type : TypeDef}

theorem label_eq [Runtime] (htype : graph.type ref.base = .ok type) (under : List Call) :
    graph.label ref under =
      if Runtime.hasRoom (.annotateNamed ref.base ::
          (List.replicate (ref.row.length + 1) .annotate ++ under)) then
        .ok (String.join (List.replicate (ref.row.count .list) "Array<") ++ type.label ++
          String.join (List.replicate (ref.row.count .list) ">"))
      else .error .tooDeep := by
  rw [label, htype, TypeRef.length_row, TypeRef.count_list_row, ← TypeRef.layered_eq_join,
    ← labelOver_eq]
  rfl

theorem label_named [Runtime] (htype : graph.type ref.base = .ok type) (under : List Call) :
    graph.label (.named ref.base) under =
      if Runtime.hasRoom (.annotateNamed ref.base :: .annotate :: under) then .ok type.label
      else .error .tooDeep := by
  have hplain : graph.type (TypeRef.named ref.base).base = .ok type := htype
  rw [label_eq hplain]
  simp [TypeRef.row, TypeRef.base]

end TypeGraph

namespace Sources

variable {around : Surroundings} {sources : List String} {schema : Schema}

/-- The fields of a graph are those that the sources declare, each with its layers. -/
theorem declared_fields_of_load [Runtime] (hload : (load around sources).result = .ok schema) :
    ∃ document, definitions around sources = .ok document ∧
      ∀ type ∈ schema.toGraph.types,
        List.Forall₂ (fun (declared : Sdl.FieldDefinition) (made : Field) =>
            made.name = declared.name ∧ made.type.row = declared.type.row ∧
              made.type.base = declared.type.base)
          (Sdl.fieldsOf document type.name) type.fields := by
  obtain ⟨document, hdefinitions, -, hschema⟩ := load_eq_ok_iff.1 hload
  have hof := Schema.ofDocument?_eq_some_iff.1 hschema
  have hfields : ∀ name, Sdl.fieldsOf (Sdl.firsts (marks ++ document)) name =
      Sdl.fieldsOf document name := by
    intro name
    rw [Sdl.fieldsOf, Sdl.fieldsOf, Sdl.partsOf_firsts]
    rfl
  refine ⟨document, hdefinitions, fun type htype => ?_⟩
  rw [(hof.says_of_mem htype).1, hfields, List.forall₂_map_right_iff, List.forall₂_same]
  exact fun declared _ => ⟨rfl, rfl, rfl⟩

/-- Taking off the layers of a reference and labelling it tell the same as its row of layers: each
list is shown once, the reference is a list if there is one in the row, and required if that comes
first.  The one exception are more layers than there is room to label.  The row is what the
notation of a type spells, and the fields of a graph have the rows that they are declared with. -/
theorem layers_show_alike [Runtime] :
    (∀ (graph : TypeGraph) (ref : TypeRef) (type : TypeDef), graph.type ref.base = .ok type →
      let arrays := ref.row.count .list
      TypeRef.ofRow ref.row ref.base = ref ∧
        ref.unwrap false = (ref.base, ref.isList) ∧
        (ref.isList = true ↔ 0 < arrays) ∧
        (ref.isRequired = true ↔ ref.row.head? = some .required) ∧
        ∀ under : List Call,
          graph.label (.named ref.base) under =
              (if Runtime.hasRoom (.annotateNamed ref.base :: .annotate :: under) then
                .ok type.label
              else .error .tooDeep) ∧
            graph.label ref under =
              if Runtime.hasRoom (.annotateNamed ref.base ::
                  (List.replicate (ref.row.length + 1) .annotate ++ under)) then
                .ok (String.join (List.replicate arrays "Array<") ++ type.label ++
                  String.join (List.replicate arrays ">"))
              else .error .tooDeep) ∧
      (∀ tokens ref rest, Sdl.Reader.typeRef tokens = some (ref, rest) ↔
        Sdl.Reader.Spells Runtime.parsingDepth ref tokens rest) ∧
      (∀ tokens ref rest, Sdl.Reader.typeRef tokens = some (ref, rest) →
        ref.row.length ≤ 2 * Runtime.parsingDepth + 1) ∧
      ∀ around sources schema, (load around sources).result = .ok schema →
        ∃ document, definitions around sources = .ok document ∧
          ∀ type ∈ schema.toGraph.types,
            List.Forall₂ (fun (declared : Sdl.FieldDefinition) (made : Field) =>
                made.name = declared.name ∧ made.type.row = declared.type.row ∧
                  made.type.base = declared.type.base)
              (Sdl.fieldsOf document type.name) type.fields := by
  refine ⟨?_, ?_, ?_, ?_⟩
  · intro graph ref type htype arrays
    have hlists : ref.isList = true ↔ 0 < arrays := by
      rw [TypeRef.isList_iff_listDepth_pos, ← TypeRef.count_list_row]
    exact ⟨TypeRef.ofRow_row ref, TypeRef.unwrap_eq false ref, hlists,
      TypeRef.isRequired_iff_head?_row ref,
      fun under => ⟨TypeGraph.label_named htype under, TypeGraph.label_eq htype under⟩⟩
  · intro tokens ref rest
    exact Sdl.Reader.typeRefWithin_eq_some_iff Runtime.parsingDepth
  · intro tokens ref rest hread
    rw [TypeRef.length_row]
    exact Sdl.Reader.layers_le_of_typeRef hread
  · intro around sources schema hload
    exact declared_fields_of_load hload

/-- A list of required lists, which is required itself. -/
def nestedRef : TypeRef :=
  .required (.list (.required (.list (.named "Int"))))

def nestedSource : List String :=
  ["type Query \x7b size: [[Int]!]! \x7d"]

section Usual

attribute [local instance] Runtime.usual

theorem nestedRef_shows_alike :
    (∃ label,
        (TypeGraph.ofTypes [{ name := "Int", shape := .scalar }]).label nestedRef = .ok label ∧
        label = "Array<Array<Int>>") ∧
      nestedRef.unwrap false = ("Int", true) ∧
      Sdl.Reader.Spells Runtime.parsingDepth nestedRef nestedRef.tokens [] ∧
      nestedRef.row.length ≤ 2 * Runtime.parsingDepth + 1 ∧
      ∃ schema, (load bareSurroundings nestedSource).result = .ok schema ∧
        ∃ document, definitions bareSurroundings nestedSource = .ok document ∧
          ∀ type ∈ schema.toGraph.types,
            List.Forall₂ (fun (declared : Sdl.FieldDefinition) (made : Field) =>
                made.name = declared.name ∧ made.type.row = declared.type.row ∧
                  made.type.base = declared.type.base)
              (Sdl.fieldsOf document type.name) type.fields := by
  obtain ⟨hlabels, hspells, hshort, hdeclared⟩ := layers_show_alike
  have htype : (TypeGraph.ofTypes [{ name := "Int", shape := .scalar }]).type nestedRef.base =
      .ok { name := "Int", shape := .scalar } := rfl
  have hread : Sdl.Reader.typeRef nestedRef.tokens = some (nestedRef, []) := by decide +kernel
  obtain ⟨-, hunwrap, -, -, hboth⟩ := hlabels _ nestedRef _ htype
  have hlabel := (hboth []).2
  rw [if_pos (by decide)] at hlabel
  refine ⟨⟨_, hlabel, by decide +kernel⟩, hunwrap, (hspells _ _ _).1 hread, hshort _ _ _ hread, ?_⟩
  have hloads : (load bareSurroundings nestedSource).result.isOk = true := by decide +kernel
  cases hload : (load bareSurroundings nestedSource).result with
  | error e =>
      rw [hload] at hloads
      contradiction
  | ok schema => exact ⟨schema, rfl, hdeclared _ _ _ hload⟩

/-- A list in so many others that it has no label. -/
def deepRef : TypeRef :=
  TypeRef.ofRow (List.replicate 2000 .list) "Int"

theorem deepRef_has_no_label :
    (TypeGraph.ofTypes [{ name := "Int", shape := .scalar }]).type deepRef.base =
        .ok { name := "Int", shape := .scalar } ∧
      (TypeGraph.ofTypes [{ name := "Int", shape := .scalar }]).label deepRef =
        .error .tooDeep := by
  have htype : (TypeGraph.ofTypes [{ name := "Int", shape := .scalar }]).type deepRef.base =
      .ok { name := "Int", shape := .scalar } := by
    rw [deepRef, TypeRef.base_ofRow]
    rfl
  refine ⟨htype, ?_⟩
  rw [TypeGraph.label_eq htype, deepRef, TypeRef.row_ofRow, List.length_replicate, if_neg]
  rw [Bool.not_eq_true, Runtime.hasRoom_usual_eq_false_iff, List.append_nil, List.length_cons,
    List.length_replicate]
  decide

end Usual

end Sources

end ConfigSchema
