import ConfigSchema.Introspection.Reader
import ConfigSchema.Proofs.DocumentParts
import ConfigSchema.Proofs.OutlineDepth

/-!
# Documents and outlines agree

The document and the fragment of an object type are made by two walks that know nothing of each
other: one refers to types, the other one lists them in place.  Still both say the same about every
field, its name, whether it is required, its list layers and the kind of its base type, down to the
variants of a union.
-/

namespace ConfigSchema

/-- A line of an outline, and the lines that stand below it. -/
structure OutlineBlock where
  first : Line
  below : List Line

def OutlineBlock.lines (block : OutlineBlock) : List Line :=
  block.first :: block.below

/-- The node of the items of an array; any other node stands for itself. -/
def Node.item : Node → Node
  | .array _ items => items
  | node => node

def Node.isArray : Node → Bool
  | .array _ _ => true
  | _ => false

namespace TypeGraph

variable {graph : TypeGraph} {chain : List String} {level : Int} {under : List Call}
  {item : Item}
  {items : List Item} {type : TypeDef} {block : OutlineBlock} {blocks : List OutlineBlock}

/-! ## Outlines in blocks -/

/-- The line of an item, and below it the outline of the type if the line opens it. -/
def IsBlockOf [Runtime] (graph : TypeGraph) (chain : List String) (level : Int) (item : Item)
    (block : OutlineBlock) : Prop :=
  ∃ type, graph.index.get? item.target = some type ∧
    block.first = { level, head := item.head type, ending := type.endingBelow chain } ∧
    (type.endingBelow chain ≠ .opened → block.below = []) ∧
    (type.endingBelow chain = .opened → ∃ under,
      graph.outline (type.name :: chain) (level + 1) under type.parts =
        { trail := block.below, result := .ok () })

theorem exists_blocks_cons [Runtime] {rest : List Item} {lines : List Line}
    (hblock : graph.IsBlockOf chain level item block)
    (hrest : ∃ blocks, lines = blocks.flatMap OutlineBlock.lines ∧
      List.Forall₂ (graph.IsBlockOf chain level) rest blocks) :
    ∃ blocks, block.first :: (block.below ++ lines) = blocks.flatMap OutlineBlock.lines ∧
      List.Forall₂ (graph.IsBlockOf chain level) (item :: rest) blocks := by
  rcases hrest with ⟨blocks, rfl, hblocks⟩
  exact ⟨block :: blocks, rfl, .cons hblock hblocks⟩

theorem isBlockOf_of_not_opened [Runtime] (hget : graph.index.get? item.target = some type)
    (hending : type.endingBelow chain ≠ .opened) :
    graph.IsBlockOf chain level item
      ⟨{ level, head := item.head type, ending := type.endingBelow chain }, []⟩ :=
  ⟨type, hget, rfl, fun _ => rfl, fun hopened => absurd hopened hending⟩

theorem exists_blocks [Runtime] (hok : (graph.outline chain level under items).result = .ok ()) :
    ∃ blocks, (graph.outline chain level under items).trail = blocks.flatMap OutlineBlock.lines ∧
      List.Forall₂ (graph.IsBlockOf chain level) items blocks := by
  fun_induction graph.outline chain level under items with
  | case1 chain level under => exact ⟨[], rfl, .nil⟩
  | case2 chain level under item rest hfull => contradiction
  | case3 chain level under item rest hroom hnone => contradiction
  | case4 chain level under item rest hroom type hget hparts ih =>
      have hending : type.endingBelow chain = .leaf := by
        simp [TypeDef.endingBelow, hparts]
      rw [Traced.bind_of_ok (by rfl : (Traced.leave _).result = .ok ()), ← hending] at hok ⊢
      exact exists_blocks_cons (isBlockOf_of_not_opened hget (by simp [hending])) (ih hok)
  | case5 chain level under item rest hroom type hget parts hparts hold ih =>
      have hending : type.endingBelow chain = .backReference type.name := by
        simp [TypeDef.endingBelow, hparts, hold]
      rw [Traced.bind_of_ok (by rfl : (Traced.leave _).result = .ok ()), ← hending] at hok ⊢
      exact exists_blocks_cons (isBlockOf_of_not_opened hget (by simp [hending])) (ih hok)
  | case6 chain level under item rest hroom type hget parts hparts hnew ihparts ih =>
      have hsame : type.parts = parts := by
        rw [TypeDef.parts, hparts]
        rfl
      have hending : type.endingBelow chain = .opened := by
        simp [TypeDef.endingBelow, hparts, hnew]
      rw [← hsame] at hok ⊢
      rw [Traced.bind_of_ok (by rfl : (Traced.leave _).result = .ok ()), ← hending] at hok ⊢
      cases hinside : graph.outline (type.name :: chain) (level + 1) (type.partsCalls ++ under)
          type.parts with
      | mk below result =>
          cases result with
          | error e =>
              rw [hinside, Traced.bind_of_error rfl] at hok
              contradiction
          | ok _ =>
              rw [hinside, Traced.bind_of_ok rfl] at hok
              rw [Traced.bind_of_ok rfl]
              have hblock : graph.IsBlockOf chain level item
                  ⟨{ level, head := item.head type, ending := type.endingBelow chain }, below⟩ :=
                ⟨type, hget, rfl, fun hclosed => absurd hending hclosed, fun _ => ⟨_, hinside⟩⟩
              exact exists_blocks_cons hblock (ih hok)

theorem IsBlockOf.level_lt [Runtime] (hblock : graph.IsBlockOf chain level item block) :
    ∀ line ∈ block.below, level < line.level := by
  rcases hblock with ⟨type, -, -, hclosed, hopen⟩
  intro line hline
  by_cases hending : type.endingBelow chain = .opened
  · rcases hopen hending with ⟨under, houtline⟩
    have hmem : line ∈ (graph.outline (type.name :: chain) (level + 1) under type.parts).trail := by
      rw [houtline]
      exact hline
    have hle := (nestsWithin_of_mem_outline hmem).le_level
    omega
  · rw [hclosed hending] at hline
    contradiction

/-- The lines of a level are the first lines of the blocks of that level. -/
theorem filter_level_eq [Runtime]
    (hblocks : List.Forall₂ (graph.IsBlockOf chain level) items blocks) :
    ((blocks.flatMap OutlineBlock.lines).filter fun line => line.level = level) =
      blocks.map (·.first) := by
  induction hblocks with
  | nil => rfl
  | @cons item block items blocks hblock _ ih =>
      have hbelow : (block.below.filter fun line => line.level = level) = [] := by
        rw [List.filter_eq_nil_iff]
        intro line hline
        have hlt := hblock.level_lt line hline
        simp only [decide_eq_true_eq]
        omega
      have hfirst : block.first.level = level := by
        rcases hblock with ⟨type, -, hfirst, -⟩
        rw [hfirst]
      rw [List.flatMap_cons, OutlineBlock.lines, List.filter_append,
        List.filter_cons_of_pos (by simpa using hfirst), hbelow, ih]
      rfl

/-! ## Agreement -/

/-- A label under a number of list layers. -/
def layered (base : String) : Nat → String
  | 0 => base
  | depth + 1 => "Array<" ++ layered base depth ++ ">"

/-- The line of a member. -/
def IsMemberLine (graph : TypeGraph) (member : String) (line : Line) : Prop :=
  ∃ type, graph.index.get? member = some type ∧ line.head = (Item.member member).head type

/-- The label of a type, what is listed below it and its node agree, whatever notes there are. -/
inductive AgreesOnType [Runtime] (graph : TypeGraph) (type : TypeDef) : String → List Line → Node →
    Prop
  | object {fields : List Field} {interfaces : List String} {below : List Line}
      {note : Option String} (hshape : type.shape = .object fields interfaces) :
      AgreesOnType graph type "object" below (.ref note type.name)
  | enum {values : List String} {below : List Line} {note : Option String}
      (hshape : type.shape = .enum values) :
      AgreesOnType graph type ("String (" ++ " | ".intercalate values ++ ")") below
        (.enum note values)
  | union {members : List String} {variants : List Node} {below : List Line}
      {note : Option String} (hshape : type.shape = .union members)
      (hvariants : List.Forall₂ (fun member variant => graph.node false member = .ok variant)
        members variants)
      (hlines : List.Forall₂ graph.IsMemberLine members
        (below.filter fun line => line.level = 1)) :
      AgreesOnType graph type "one of" below (.anyOf note variants)
  | interface {fields : List Field} {interfaces : List String} {below : List Line}
      {note : Option String} (hshape : type.shape = .interface fields interfaces) :
      AgreesOnType graph type type.name below
        (.anyOf note ((graph.implementors type.name).map (.ref none)))
  | scalar {below : List Line} {note : Option String} (hshape : type.shape = .scalar) :
      AgreesOnType graph type type.name below
        (((Node.ofScalar? type.name).getD Node.unknownObject).withNote note)
  | other {below : List Line} {note : Option String} (hshape : type.shape = .other) :
      AgreesOnType graph type type.name below (Node.unknownObject.withNote note)

/-- The line of a field with what is listed below it, and the property of the field, agree. -/
def Agrees [Runtime] (graph : TypeGraph) (fields : List Field) (required : List String)
    (block : OutlineBlock) (property : String × Node) : Prop :=
  ∃ field ∈ fields, ∃ type base description,
    property.1 = field.name ∧ graph.index.get? field.type.base = some type ∧
    block.first.level = 0 ∧
    block.first.head =
      .field property.1 (layered base field.type.listDepth) (decide (property.1 ∈ required))
        description ∧
    ("Array<".toList <+: (layered base field.type.listDepth).toList ↔
      property.2.isArray = true) ∧
    ¬ "Array<".toList <+: base.toList ∧
    graph.AgreesOnType type base block.below property.2.item

variable {describe : Bool} {name : String} {node : Node}

theorem labelOver_eq (base : String) (ref : TypeRef) :
    ref.labelOver base = layered base ref.listDepth := by
  induction ref with
  | named name => rfl
  | list of ih => rw [TypeRef.labelOver, TypeRef.listDepth, layered, ih]
  | required of ih => rw [TypeRef.labelOver, TypeRef.listDepth, ih]

theorem prefix_layered_iff {base : String} (hbase : ¬ "Array<".toList <+: base.toList)
    (depth : Nat) : "Array<".toList <+: (layered base depth).toList ↔ 0 < depth := by
  cases depth with
  | zero => simpa [layered] using hbase
  | succ depth =>
      rw [layered, String.append_assoc, String.toList_append]
      simp

theorem not_prefix_label (hname : Introspection.isName type.name = true) :
    ¬ "Array<".toList <+: type.label.toList := by
  have hbracket : '<' ∉ type.name.toList :=
    Introspection.notMem_of_isName hname (by decide)
  have hown : ¬ "Array<".toList <+: type.name.toList := fun hstarts =>
    hbracket (hstarts.subset (by decide))
  unfold TypeDef.label
  cases type.shape with
  | object fields interfaces => exact (by decide : ¬ "Array<".toList <+: "object".toList)
  | union members => exact (by decide : ¬ "Array<".toList <+: "one of".toList)
  | enum values =>
      intro hprefix
      rw [String.toList_append, String.toList_append, List.append_assoc] at hprefix
      have hheads := List.cons_prefix_cons.1 hprefix
      exact absurd hheads.1 (by decide)
  | interface fields interfaces => exact hown
  | scalar => exact hown
  | other => exact hown

theorem endingBelow_of_union {members : List String} (hshape : type.shape = .union members)
    (hnew : type.name ∉ chain) : type.endingBelow chain = .opened := by
  unfold TypeDef.endingBelow TypeDef.parts?
  simp [hshape, hnew]

/-- Below the line of a union stand the lines of its members. -/
theorem IsBlockOf.isMemberLine [Runtime] {members : List String}
    (hblock : graph.IsBlockOf chain level item block)
    (hget : graph.index.get? item.target = some type) (hshape : type.shape = .union members)
    (hnew : type.name ∉ chain) :
    List.Forall₂ graph.IsMemberLine members
      (block.below.filter fun line => line.level = level + 1) := by
  rcases hblock with ⟨other, hother, -, -, hopen⟩
  rw [hget, Option.some.injEq] at hother
  subst hother
  rcases hopen (endingBelow_of_union hshape hnew) with ⟨under, houtline⟩
  have hparts : type.parts = members.map .member := by
    unfold TypeDef.parts TypeDef.parts?
    simp [hshape]
  rw [hparts] at houtline
  have hok : (graph.outline (type.name :: chain) (level + 1) under
      (members.map .member)).result = .ok () := by
    rw [houtline]
  rcases exists_blocks hok with ⟨blocks, htrail, hblocks⟩
  rw [houtline] at htrail
  simp only at htrail
  rw [htrail, filter_level_eq hblocks, List.forall₂_map_right_iff]
  rw [List.forall₂_map_left_iff] at hblocks
  apply hblocks.imp
  rintro member lower ⟨memberType, hmember, hfirst, -⟩
  exact ⟨memberType, hmember, by rw [hfirst]⟩

theorem implementors_nodes [Runtime] (hindexed : graph.IsIndexed) {interface : String}
    {nodes : List Node}
    (hnodes : List.Forall₂ (fun variant node => graph.node false variant = .ok node)
      (graph.implementors interface) nodes) :
    nodes = (graph.implementors interface).map (.ref none) := by
  have hobject : ∀ variant ∈ graph.implementors interface, ∀ node,
      graph.node false variant = .ok node → node = .ref none variant := by
    intro variant hvariant node hnode
    rcases mem_implementors_iff.1 hvariant with ⟨type, htype, -, rfl⟩
    rcases mem_objects_iff.1 htype with ⟨hmem, hkind⟩
    rcases exists_type_of_node hindexed.isNamed hnode with ⟨found, hfound, hcases⟩
    rw [hindexed.get?_name hmem, Option.some.injEq] at hfound
    subst hfound
    have hnone : graph.variants? type = none := variants?_eq_none_of_isObject hkind
    rcases TypeDef.isObject_iff.1 hkind with ⟨fields, interfaces, hshape⟩
    rcases hcases with ⟨-, rfl⟩ | ⟨variants, nodes, hsome, -⟩
    · rw [leafNode, hshape]
    · rw [hnone] at hsome
      contradiction
  generalize graph.implementors interface = names at hnodes hobject
  induction hnodes with
  | nil => rfl
  | @cons variant node rest others hnode _ ih =>
      have hrest := ih fun other hother => hobject other (List.mem_cons_of_mem _ hother)
      rw [List.map_cons, ← hrest, hobject variant List.mem_cons_self node hnode]

/-- What is listed for a base type agrees with its node, whatever the note of the node. -/
theorem agreesOnType [Runtime] (hindexed : graph.IsIndexed)
    (hblock : graph.IsBlockOf chain 0 item block) (hget : graph.index.get? item.target = some type)
    (hunion : ∀ members, type.shape = .union members → type.name ∉ chain)
    (hnode : graph.node false item.target = .ok node) (note : Option String) :
    graph.AgreesOnType type type.label block.below (node.withNote note) := by
  rcases exists_type_of_node hindexed.isNamed hnode with ⟨found, hfound, hcases⟩
  rw [hget, Option.some.injEq] at hfound
  subst hfound
  rcases hcases with ⟨hnone, rfl⟩ | ⟨variants, nodes, hsome, hnodes, rfl⟩
  · unfold leafNode TypeDef.label
    cases hshape : type.shape with
    | object fields interfaces => exact .object hshape
    | enum values => exact .enum hshape
    | scalar => exact .scalar hshape
    | other => exact .other hshape
    | interface fields interfaces =>
        rw [variants?, hshape] at hnone
        contradiction
    | union members =>
        rw [variants?, hshape] at hnone
        contradiction
  · rcases variants?_eq_some_iff.1 hsome with ⟨fields, interfaces, hshape, rfl⟩ | hshape
    · unfold TypeDef.label
      rw [hshape, implementors_nodes hindexed hnodes]
      exact .interface hshape
    · unfold TypeDef.label
      rw [hshape]
      exact .union hshape hnodes (hblock.isMemberLine hget hshape (hunion variants hshape))

theorem AgreesOnType.isArray_eq_false [Runtime] {label : String} {below : List Line}
    (hagrees : graph.AgreesOnType type label below node) : node.isArray = false := by
  cases hagrees with
  | scalar hshape =>
      unfold Node.ofScalar?
      cases Node.scalarKinds.get? type.name with
      | none => rfl
      | some kind =>
          simp only [Option.map_some, Option.getD_some]
          split <;> rfl
  | _ => rfl

theorem AgreesOnType.item_eq [Runtime] {label : String} {below : List Line}
    (hagrees : graph.AgreesOnType type label below node) : node.item = node := by
  have hplain := hagrees.isArray_eq_false
  cases node with
  | array note items => contradiction
  | _ => rfl

theorem mem_requiredNames_iff {fields : List Field} (hnodup : (fields.map (·.name)).Nodup)
    {field : Field} (hfield : field ∈ fields) :
    field.name ∈ requiredNames fields ↔ field.type.isRequired = true := by
  rw [requiredNames, List.mem_map]
  constructor
  · rintro ⟨other, hother, hname⟩
    rcases List.mem_filter.1 hother with ⟨hmem, hrequired⟩
    rw [← List.inj_on_of_nodup_map hnodup hmem hfield hname]
    exact hrequired
  · intro hrequired
    exact ⟨field, List.mem_filter.2 ⟨hfield, hrequired⟩, rfl⟩

/-- The block of a field agrees with the property of the field. -/
theorem agrees_of_field [Runtime] (hindexed : graph.IsIndexed) {fields : List Field}
    (hnodup : (fields.map (·.name)).Nodup) {field : Field} (hfield : field ∈ fields)
    (hnames : ∀ other ∈ graph.types, Introspection.isName other.name = true)
    (hchain : ∀ other ∈ graph.types, ∀ members, other.shape = .union members → other.name ∉ chain)
    (hblock : graph.IsBlockOf chain 0 (.field field) block)
    (hnode : graph.fieldNode false field = .ok node) :
    graph.Agrees fields (requiredNames fields) block (field.name, node) := by
  have hsame := hblock
  rcases hsame with ⟨type, hget, hfirst, -, -⟩
  have hmem := ((hindexed _ _).1 hget).1
  rcases exists_base_of_fieldNode hnode with ⟨base, hbase, rfl⟩
  have hagrees := agreesOnType hindexed hblock hget (hchain type hmem) hbase
  have hplain := not_prefix_label (hnames type hmem)
  refine ⟨field, hfield, type, type.label, (field.description.map Text.oneLine).getD "", rfl, hget,
    by rw [hfirst], ?_, ?_, hplain, ?_⟩
  · rw [hfirst, ← labelOver_eq]
    simp only [Item.head, mem_requiredNames_iff hnodup hfield, Bool.decide_eq_true]
  · rw [prefix_layered_iff hplain, ← TypeRef.isList_iff_listDepth_pos]
    cases hlist : field.type.isList with
    | true => simp [Node.isArray]
    | false =>
        have hnot := (hagrees (mergedNote field.description base.note)).isArray_eq_false
        simp [hnot]
  · cases hlist : field.type.isList with
    | true =>
        have hown := hagrees base.note
        rw [Node.withNote_note] at hown
        exact hown
    | false =>
        have hown := hagrees (mergedNote field.description base.note)
        simp only [Bool.false_eq_true, if_false]
        rw [hown.item_eq]
        exact hown

/-! ## Texts of lines -/

/-- A text starts an item of a list that is not indented. -/
def startsItem (text : String) : Bool :=
  text.toList.head? = some '*'

theorem startsItem_render_iff (line : Line) : startsItem line.render = true ↔ line.level ≤ 0 := by
  unfold startsItem Line.render Line.indent
  rw [String.toList_append, String.toList_append, String.toList_append, String.toList_ofList]
  cases hlevel : 2 * line.level.toNat with
  | zero =>
      have hle : line.level ≤ 0 := by omega
      simp [hle]
  | succ blanks =>
      have hlt : ¬ line.level ≤ 0 := by omega
      simp [List.replicate_succ, hlt]

/-- The first lines of the blocks can be told apart from all that stands below them. -/
theorem filter_startsItem_eq [Runtime]
    (hblocks : List.Forall₂ (graph.IsBlockOf chain 0) items blocks) :
    ((blocks.flatMap OutlineBlock.lines).map Line.render).filter startsItem =
      blocks.map (·.first.render) := by
  have hlevels : ∀ line ∈ blocks.flatMap OutlineBlock.lines, 0 ≤ line.level := by
    intro line hline
    rcases List.mem_flatMap.1 hline with ⟨block, hmem, hin⟩
    rcases Results.exists_left_of_forall₂ hblocks hmem with ⟨item, -, hblock⟩
    rcases List.mem_cons.1 hin with rfl | hbelow
    · rcases hblock with ⟨type, -, hfirst, -⟩
      simp [hfirst]
    · have hlt := hblock.level_lt line hbelow
      omega
  have hsame : (blocks.flatMap OutlineBlock.lines).filter (startsItem ∘ Line.render) =
      (blocks.flatMap OutlineBlock.lines).filter fun line => line.level = 0 := by
    apply List.filter_congr
    intro line hline
    have hle := hlevels line hline
    rw [Bool.eq_iff_iff, Function.comp_apply, startsItem_render_iff, decide_eq_true_iff]
    omega
  rw [List.filter_map, hsame, filter_level_eq hblocks, List.map_map]
  rfl

/-! ## Both outputs -/

theorem fragmentOf_eq_error_iff [Runtime] (hresolved : graph.IsResolved)
    (htype : graph.Holds type) (hkind : type.isObject = true) {e : GraphError} :
    graph.fragmentOf type under = .error e ↔
      e = .tooDeep ∧ graph.LacksRoom (.renderType :: under) [type.name] type := by
  have hfields := TypeDef.fields?_of_isObject hkind
  rw [fragmentOf, Results.map_eq_error_iff]
  rcases fieldLines_outcome hresolved htype hfields [type.name] 0 (.renderType :: under) with
    ⟨hroom, hok, -⟩ | ⟨hlacks, herror⟩
  · simp [hok, hroom]
  · simp [herror, hlacks, eq_comm]

theorem document_eq_graph_error_iff_isTooDeep [Runtime] (hindexed : graph.IsIndexed)
    (hclosed : graph.IsClosed) (hunions : graph.HasFiniteUnions) {settings : Settings}
    {asked : Json} {e : GraphError} :
    graph.document settings asked = .error (.graph e) ↔ e = .tooDeep ∧ graph.IsTooDeep := by
  rw [document_eq_graph_error_iff]
  rcases objectProperties_outcome hindexed hclosed hunions
      settings.describeVariants.isTruthy with ⟨⟨built, hbuilt⟩, hshallow⟩ | ⟨hbuilt, hdeep⟩
  · simp [hbuilt, hshallow]
  · simp [hbuilt, hdeep, eq_comm]

/-! ## A ladder of objects -/

/-- The objects of a ladder; each has a field that leads to the one below it. -/
def rung : Nat → TypeDef
  | 0 => { name := floorName 0, directives := ["md"], shape := .object [] [] }
  | level + 1 =>
      { name := floorName (level + 1), directives := ["md"]
        shape := .object [{ name := "next", type := .named (floorName level) }] [] }

def ladder (height : Nat) : List TypeDef :=
  (List.range (height + 1)).map rung

@[simp] theorem name_rung (level : Nat) : (rung level).name = floorName level := by
  cases level <;> rfl

theorem isObject_rung (level : Nat) : (rung level).isObject = true := by
  cases level <;> rfl

theorem mem_ladder_iff {height : Nat} :
    type ∈ ladder height ↔ ∃ level ≤ height, type = rung level := by
  rw [ladder, List.mem_map]
  simp only [List.mem_range, Nat.lt_succ_iff, eq_comm]

theorem rung_mem_ladder {height level : Nat} (hle : level ≤ height) : rung level ∈ ladder height :=
  mem_ladder_iff.2 ⟨level, hle, rfl⟩

theorem nodup_names_ladder (height : Nat) : ((ladder height).map (·.name)).Nodup := by
  rw [ladder, List.map_map]
  apply List.Nodup.map _ List.nodup_range
  intro first second heq
  exact floorName_injective (by simpa using heq)

theorem nodup_fields_ladder (height : Nat) :
    ∀ type ∈ ladder height, (type.fields.map (·.name)).Nodup := by
  intro type htype
  rcases mem_ladder_iff.1 htype with ⟨level, -, rfl⟩
  cases level <;> simp [rung, TypeDef.fields, TypeDef.fields?]

theorem isName_floorName (level : Nat) : Introspection.isName (floorName level) = true := by
  rw [Introspection.isName, floorName, String.toList_ofList, List.replicate_succ]
  simp only [Bool.and_eq_true, List.all_eq_true]
  refine ⟨by decide, ?_⟩
  intro letter hletter
  rw [List.eq_of_mem_replicate hletter]
  decide

theorem isIndexed_ladder (height : Nat) : (ofTypes (ladder height)).IsIndexed :=
  isIndexed_ofTypes [] (nodup_names_ladder height)

theorem isClosed_ladder (height : Nat) : (ofTypes (ladder height)).IsClosed := by
  intro type htype name hname
  rcases mem_ladder_iff.1 htype with ⟨level, hle, rfl⟩
  cases level with
  | zero => simp [rung, TypeDef.references] at hname
  | succ level =>
      have heq : name = floorName level := by
        simpa [rung, TypeDef.references, TypeRef.base] using hname
      rw [heq, ← name_rung]
      exact Entries.mem_names_of_get?
        ((isIndexed_ladder height).get?_name (rung_mem_ladder (by omega)))

/-- Objects have no variants, so nothing is expanded in a ladder. -/
theorem not_expands_ladder {height : Nat} {first second : String} :
    ¬ (ofTypes (ladder height)).Expands first second := by
  rintro hstep
  rcases hstep with ⟨type, variants, hget, hvariants, hmem⟩
  rcases mem_ladder_iff.1 ((isIndexed_ladder height _ _).1 hget).1 with ⟨level, -, rfl⟩
  rw [variants?_eq_none_of_isObject (isObject_rung level)] at hvariants
  contradiction

theorem hasFiniteUnions_ladder (height : Nat) : (ofTypes (ladder height)).HasFiniteUnions := by
  intro name hcycle
  rcases Relation.TransGen.head'_iff.1 hcycle with ⟨next, hlists, -⟩
  exact not_expands_ladder hlists.expands

/-- In a ladder each name stands for an object with a field that leads to the name below it. -/
structure IsLadder (graph : TypeGraph) (height : Nat) (rungs : Nat → TypeDef) : Prop where
  name : ∀ level, (rungs level).name = floorName level
  get : ∀ level ≤ height, graph.index.get? (floorName level) = some (rungs level)
  calls : ∀ level, (rungs level).partsCalls.length = 3
  part : ∀ level, (rungs (level + 1)).parts[0]? =
    some (.field { name := "next", type := .named (floorName level) })

theorem isLadder_ladder (height : Nat) : (ofTypes (ladder height)).IsLadder height rung where
  name := name_rung
  get level hle := by
    rw [← name_rung]
    exact (isIndexed_ladder height).get?_name (rung_mem_ladder hle)
  calls level := by cases level <;> rfl
  part _ := rfl

namespace IsLadder

variable {height : Nat} {rungs : Nat → TypeDef}

theorem name_notMem_opened (hladder : graph.IsLadder height rungs) {level first : Nat}
    (steps : Nat) (hfirst : level < first) (htop : level < height) :
    (rungs level).name ∉
      ((List.range' first steps).map rungs).map (·.name) ++ [floorName height] := by
  rw [hladder.name, List.mem_append, List.mem_singleton, not_or, List.map_map, List.mem_map]
  constructor
  · rintro ⟨other, hother, heq⟩
    rw [Function.comp_apply, hladder.name] at heq
    have hsame := floorName_injective heq
    have hle := (List.mem_range'_1.1 hother).1
    omega
  · intro heq
    have hsame := floorName_injective heq
    omega

/-- The way down a ladder opens its objects one inside the other. -/
theorem exists_place (hladder : graph.IsLadder height rungs) {steps : Nat}
    (hsteps : steps < height) :
    ∃ way item, item.target = floorName (height - 1 - steps) ∧
      graph.Place [floorName height] (rungs height).parts way
        ((List.range' (height - steps) steps).map rungs) item := by
  induction steps with
  | zero =>
      rcases Nat.exists_eq_succ_of_ne_zero (Nat.ne_of_gt hsteps) with ⟨lower, rfl⟩
      exact ⟨[0], _, rfl, .first (hladder.part lower)⟩
  | succ steps ih =>
      rcases ih (by omega) with ⟨way, item, htarget, hplace⟩
      have hlower : ∃ lower, height = lower + 1 + (steps + 1) := ⟨height - 2 - steps, by omega⟩
      rcases hlower with ⟨lower, rfl⟩
      have hhere : lower + 1 + (steps + 1) - 1 - steps = lower + 1 := by omega
      have hnext : lower + 1 + (steps + 1) - 1 - (steps + 1) = lower := by omega
      have hopened : lower + 1 + (steps + 1) - (steps + 1) = lower + 1 := by omega
      have hbefore : lower + 1 + (steps + 1) - steps = lower + 1 + 1 := by omega
      rw [hhere] at htarget
      rw [hbefore] at hplace
      rw [hnext, hopened, List.range'_succ, List.map_cons]
      have hget := hladder.get (lower + 1) (by omega)
      rw [← htarget] at hget
      have hnew := hladder.name_notMem_opened steps (Nat.lt_succ_self (lower + 1))
        (by omega : lower + 1 < lower + 1 + (steps + 1))
      exact ⟨_, _, rfl, hplace.next hget hnew (hladder.part lower)⟩

theorem length_callsBelow_map (hladder : graph.IsLadder height rungs) (levels : List Nat)
    (item : Item) :
    (callsBelow (levels.map rungs) item).length = item.calls.length + 3 * levels.length := by
  rw [callsBelow, List.length_append, Nat.add_left_cancel_iff]
  induction levels with
  | nil => rfl
  | cons level levels ih =>
      rw [List.map_cons, List.flatMap_cons, List.length_append, ih, hladder.calls,
        List.length_cons]
      omega

/-- The way down a ladder takes three calls for each of its objects. -/
theorem lacksRoom [Runtime] (hladder : graph.IsLadder (height + 1) rungs)
    (hfull : ∀ calls : List Call, 3 * height < calls.length → Runtime.hasRoom calls = false)
    (under : List Call) :
    graph.LacksRoom under [floorName (height + 1)] (rungs (height + 1)) := by
  rcases hladder.exists_place (Nat.lt_succ_self height) with ⟨way, item, -, hplace⟩
  refine .place hplace (hfull _ ?_)
  rw [List.length_append, hladder.length_callsBelow_map, List.length_range']
  simp only [whileListing, List.length_cons]
  omega

end IsLadder

theorem isName_ladder (height : Nat) :
    ∀ type ∈ ladder height, Introspection.isName type.name = true := by
  intro type htype
  rcases mem_ladder_iff.1 htype with ⟨level, -, rfl⟩
  rw [name_rung]
  exact isName_floorName level

section Usual

attribute [local instance] Runtime.usual

theorem not_isTooDeep_ladder (height : Nat) : ¬ (ofTypes (ladder height)).IsTooDeep :=
  not_isTooDeep_of_not_expands fun _ _ => not_expands_ladder

theorem exists_top_of_ladder {height : Nat} (hheight : 993 ≤ 3 * height) :
    ∃ type ∈ (ofTypes (ladder (height + 1))).documented,
      (∃ document, (ofTypes (ladder (height + 1))).document {} (.str type.name) =
        .ok document) ∧
      ∀ text, (ofTypes (ladder (height + 1))).fragmentOf type [.render] ≠ .ok text := by
  have hindexed := isIndexed_ladder (height + 1)
  have hmem : rung (height + 1) ∈ ladder (height + 1) := rung_mem_ladder (Nat.le_refl _)
  have hobject : rung (height + 1) ∈ (ofTypes (ladder (height + 1))).objects :=
    mem_objects_iff.2 ⟨hmem, isObject_rung _⟩
  have hmarked : (rung (height + 1)).directives.contains docsDirective = true := by
    simp [rung, docsDirective]
  have hdocument := exists_document hindexed (isClosed_ladder _) (hasFiniteUnions_ladder _)
    (not_isTooDeep_ladder _) {} (Introspection.ne_empty_of_isName (isName_ladder _ _ hmem))
    ⟨_, hobject, rfl⟩
  have hresolved := (isClosed_ladder (height + 1)).isResolved hindexed
  have hlacks : (ofTypes (ladder (height + 1))).LacksRoom [.renderType, .render]
      [floorName (height + 1)] (rung (height + 1)) := by
    refine (isLadder_ladder (height + 1)).lacksRoom (fun calls hlength => ?_) _
    rw [Runtime.hasRoom_usual_eq_false_iff]
    omega
  rw [← name_rung] at hlacks
  have herror := (fragmentOf_eq_error_iff hresolved (.inl hmem) (isObject_rung _)).2 ⟨rfl, hlacks⟩
  refine ⟨_, List.mem_filter.2 ⟨hobject, hmarked⟩, hdocument, ?_⟩
  intro text hok
  rw [herror] at hok
  contradiction

end Usual

/-! ## A documented graph -/

/-- A documented object with a field of every kind. -/
def guideTypes : List TypeDef :=
  [{ name := "Query", directives := ["md"]
     shape := .object [
       { name := "shelves", type := .required (.list (.required (.named "Shelf"))) },
       { name := "state", type := .required (.named "State") },
       { name := "found", type := .list (.named "Thing"), description := some "what there is" },
       { name := "placed", type := .named "Placed" },
       { name := "size", type := .named "Int" }] [] },
    { name := "Shelf", shape := .object [{ name := "size", type := .named "Int" }] ["Placed"] },
    { name := "State", shape := .enum ["OPEN", "CLOSED"] },
    { name := "Thing", shape := .union ["Shelf", "Query"] },
    { name := "Placed", shape := .interface [{ name := "size", type := .named "Int" }] [] },
    { name := "Int", shape := .scalar }]

def guideRank (name : String) : Nat :=
  if name = "Thing" ∨ name = "Placed" then 1 else 0

theorem nodup_names_guideTypes : (guideTypes.map (·.name)).Nodup := by decide

theorem isClosed_guideTypes : (ofTypes guideTypes).IsClosed := by decide

theorem ranksVariants_guideTypes : (ofTypes guideTypes).RanksVariants guideRank := by decide

section Usual

attribute [local instance] Runtime.usual

theorem not_isTooDeep_guideTypes : ¬ (ofTypes guideTypes).IsTooDeep := by
  apply ranksVariants_guideTypes.not_isTooDeep
  intro name
  unfold guideRank
  split <;> omega

theorem not_lacksRoom_guideTypes :
    ¬ (ofTypes guideTypes).LacksRoom [.renderType, .render] ["Query"] guideTypes[0] := by
  have hindexed : (ofTypes guideTypes).IsIndexed := isIndexed_ofTypes [] nodup_names_guideTypes
  have hlayers : ∀ other ∈ guideTypes, ∀ part ∈ other.parts, part.calls.length ≤ 5 := by decide
  have hnames : (ofTypes guideTypes).openNames.length ≤ 4 := by decide
  refine not_lacksRoom_of_few hindexed (by decide) hlayers (Runtime.hasRoomFor_usual ?_) _
  simp only [List.length_cons, List.length_nil]
  omega

end Usual

/-! ## Both outputs together -/

/-- What the document and the fragment of an object type have in common. -/
structure OutputsAgree [Runtime] (graph : TypeGraph) (root : Json) (type : TypeDef)
    (document : SchemaDocument) (text : String) (blocks : List OutlineBlock)
    (properties : Properties) : Prop where
  text_eq : text = fragmentText type.description
    ((blocks.flatMap OutlineBlock.lines).map Line.render)
  top_lines : ((blocks.flatMap OutlineBlock.lines).filter fun line => line.level = 0) =
    blocks.map (·.first)
  top_texts : ((blocks.flatMap OutlineBlock.lines).map Line.render).filter startsItem =
    blocks.map (·.first.render)
  shows : ShowsProperties document root type properties
  names : properties.nodes.names = type.fields.map (·.name)
  agrees : List.Forall₂ (graph.Agrees type.fields properties.required) blocks properties.nodes

/-- Unless one of the walks goes too deep for the room that there is, the document and the fragments
say the same about every field of a documented type. -/
theorem document_agrees_with_fragment [Runtime] {types : List TypeDef} {directives : List String}
    (hnodup : (types.map (·.name)).Nodup)
    (hfields : ∀ type ∈ types, (type.fields.map (·.name)).Nodup)
    (hnames : ∀ type ∈ types, Introspection.isName type.name = true)
    (hclosed : (ofTypes types directives).IsClosed)
    (hunions : (ofTypes types directives).HasFiniteUnions) {settings : Settings}
    (hdescribe : settings.describeVariants.isTruthy = false) (asked : Json)
    (htype : type ∈ (ofTypes types directives).documented) (under : List Call) :
    let graph := ofTypes types directives
    (∀ e, graph.document settings asked = .error (.graph e) ↔ e = .tooDeep ∧ graph.IsTooDeep) ∧
      (∀ e, graph.fragmentOf type under = .error e ↔
        e = .tooDeep ∧ graph.LacksRoom (.renderType :: under) [type.name] type) ∧
      ∀ document text, graph.document settings asked = .ok document →
        graph.fragmentOf type under = .ok text →
        ∃ blocks properties,
          graph.OutputsAgree (rootFor asked settings) type document text blocks properties := by
  intro graph
  have hindexed : graph.IsIndexed := isIndexed_ofTypes directives hnodup
  have hobject : type ∈ graph.objects := List.mem_of_mem_filter htype
  rcases mem_objects_iff.1 hobject with ⟨hmem, hkind⟩
  refine ⟨?_, ?_, ?_⟩
  · intro e
    exact document_eq_graph_error_iff_isTooDeep hindexed hclosed hunions
  · intro e
    exact fragmentOf_eq_error_iff (hclosed.isResolved hindexed) (.inl hmem) hkind
  · intro document text hdocument hfragment
    rcases exists_properties_of_document hindexed hnodup hdocument hobject with
      ⟨properties, hproperties, hshows⟩
    rw [hdescribe] at hproperties
    rw [fragmentOf_of_isObject hkind, inRoom_eq_ok_iff] at hfragment
    rcases Results.map_eq_ok_iff.1 hfragment.2 with ⟨⟨⟩, hended, rfl⟩
    rcases exists_blocks hended with ⟨blocks, htrail, hblocks⟩
    have hunionNames : ∀ other ∈ graph.types, ∀ members, other.shape = .union members →
        other.name ∉ [type.name] := by
      intro other hother members hshape hmemName
      have hsame := hindexed.eq_of_name_eq hother hmem (List.mem_singleton.1 hmemName)
      rw [← hsame, TypeDef.isObject, hshape] at hkind
      contradiction
    have hnodes := forall₂_of_properties hproperties (hfields type hmem)
    have hrequired := required_of_properties hproperties
    refine ⟨blocks, properties, ?_, filter_level_eq hblocks, filter_startsItem_eq hblocks, hshows,
      names_of_properties hproperties (hfields type hmem), ?_⟩
    · rw [htrail]
    · rw [TypeDef.parts_of_isObject hkind, List.forall₂_map_left_iff] at hblocks
      apply Results.forall₂_of_common hblocks hnodes
      rintro field hfield block ⟨name, node⟩ hblock ⟨hnode, rfl⟩
      rw [hrequired]
      exact agrees_of_field hindexed (hfields type hmem) hfield hnames hunionNames hblock hnode

section Usual

attribute [local instance] Runtime.usual

theorem guideTypes_outputs_agree :
    ∃ document text blocks properties,
      (ofTypes guideTypes).document {} = .ok document ∧
        (ofTypes guideTypes).fragmentOf guideTypes[0] [.render] = .ok text ∧
        (ofTypes guideTypes).OutputsAgree (.str "Query") guideTypes[0] document text blocks
          properties := by
  have hindexed : (ofTypes guideTypes).IsIndexed := isIndexed_ofTypes [] nodup_names_guideTypes
  have hunions := ranksVariants_guideTypes.hasFiniteUnions
  have hfields : ∀ type ∈ guideTypes, (type.fields.map (·.name)).Nodup := by decide
  have hnames : ∀ type ∈ guideTypes, Introspection.isName type.name = true := by decide
  have htype : guideTypes[0] ∈ (ofTypes guideTypes).documented := by decide
  rcases document_agrees_with_fragment nodup_names_guideTypes hfields hnames isClosed_guideTypes
    hunions (rfl : ({} : Settings).describeVariants.isTruthy = false) .null htype [.render] with
    ⟨-, hfragment, hagrees⟩
  rcases exists_document hindexed isClosed_guideTypes hunions not_isTooDeep_guideTypes {}
    (by decide : "Query" ≠ "") (by decide) with ⟨document, hdocument⟩
  cases htext : (ofTypes guideTypes).fragmentOf guideTypes[0] [.render] with
  | error e => exact absurd ((hfragment e).1 htext).2 not_lacksRoom_guideTypes
  | ok text =>
      rcases hagrees document text hdocument htext with ⟨blocks, properties, hboth⟩
      exact ⟨document, text, blocks, properties, hdocument, rfl, hboth⟩

/-- The top of a ladder of 401 objects has properties and no fragment. -/
theorem ladder_has_no_fragment :
    ((ladder 400).map (·.name)).Nodup ∧
      (∀ type ∈ ladder 400, (type.fields.map (·.name)).Nodup) ∧
      (∀ type ∈ ladder 400, Introspection.isName type.name = true) ∧
      (ofTypes (ladder 400)).IsClosed ∧ (ofTypes (ladder 400)).HasFiniteUnions ∧
      ({} : Settings).describeVariants.isTruthy = false ∧
      ∃ type ∈ (ofTypes (ladder 400)).documented,
        (∃ document, (ofTypes (ladder 400)).document {} (.str type.name) = .ok document) ∧
        ∀ text, (ofTypes (ladder 400)).fragmentOf type [.render] ≠ .ok text :=
  ⟨nodup_names_ladder 400, nodup_fields_ladder 400, isName_ladder 400, isClosed_ladder 400,
    hasFiniteUnions_ladder 400, rfl, exists_top_of_ladder (by decide : 993 ≤ 3 * 399)⟩

end Usual

end TypeGraph

end ConfigSchema
