import ConfigSchema.Proofs.AlikeDocuments
import ConfigSchema.Proofs.AlikeOutlines
import ConfigSchema.Proofs.ExpansionLimits
import ConfigSchema.Proofs.References

/-!
# Graphs with types added

Types with new names may be added behind the types of a graph.  What its names stand for does not
change by that, and so neither do the outlines of its types.  Nodes change in one way only: an
interface has more implementors, and their references follow those that were there.
-/

namespace ConfigSchema

namespace TypeGraph

/-- A graph lists the types of another one and then more of them, and every name of the other one
stands for the same type in it. -/
structure Extends (bigger graph : TypeGraph) (more : List TypeDef) : Prop where
  types : bigger.types = graph.types ++ more
  get? : ∀ name type, graph.index.get? name = some type → bigger.index.get? name = some type

/-- References to the object types of some names. -/
def refs (names : List String) : List Node :=
  names.map (.ref none)

mutual

/-- The node of a name before and after types are added.  What an interface offers is followed by
the added objects that implement it. -/
inductive Grows (graph : TypeGraph) (more : List TypeDef) : String → Node → Node → Prop
  | leaf {name : String} {type : TypeDef} (hget : graph.index.get? name = some type)
      (hleaf : graph.variants? type = none) :
      Grows graph more name (leafNode false type) (leafNode false type)
  | interface {name : String} {type : TypeDef} {fields : List Field} {interfaces : List String}
      (hget : graph.index.get? name = some type)
      (hshape : type.shape = .interface fields interfaces) :
      Grows graph more name (.anyOf none (refs (graph.implementors name)))
        (.anyOf none (refs (graph.implementors name ++ (ofTypes more).implementors name)))
  | union {name : String} {type : TypeDef} {members : List String} {nodes others : List Node}
      (hget : graph.index.get? name = some type) (hshape : type.shape = .union members)
      (hmembers : GrowAll graph more members nodes others) :
      Grows graph more name (.anyOf none nodes) (.anyOf none others)

/-- The nodes of some names before and after types are added. -/
inductive GrowAll (graph : TypeGraph) (more : List TypeDef) :
    List String → List Node → List Node → Prop
  | nil : GrowAll graph more [] [] []
  | cons {name : String} {names : List String} {node other : Node} {nodes others : List Node}
      (hfirst : Grows graph more name node other) (hrest : GrowAll graph more names nodes others) :
      GrowAll graph more (name :: names) (node :: nodes) (other :: others)

end

/-- The node of a field before and after types are added. -/
def FieldGrows (graph : TypeGraph) (more : List TypeDef) (field : Field) (node other : Node) :
    Prop :=
  ∃ base base', graph.Grows more field.type.base base base' ∧
    node = nodeUnder field base ∧ other = nodeUnder field base'

/-- The property of a name before and after types are added. -/
def PropertyGrows (graph : TypeGraph) (more : List TypeDef) (fields : List Field) (name : String)
    (node other : Node) : Prop :=
  ∃ field, fieldNamed? fields name = some field ∧ graph.FieldGrows more field node other

/-- The properties of some fields before and after types are added. -/
structure PropertiesGrow (graph : TypeGraph) (more : List TypeDef) (fields : List Field)
    (properties others : Properties) : Prop where
  required : properties.required = others.required
  nodes : Entries.Related (graph.PropertyGrows more fields) properties.nodes others.nodes

/-- No added object type implements an interface of a graph. -/
def ImplementsNone (more : List TypeDef) (graph : TypeGraph) : Prop :=
  ∀ name type fields interfaces, graph.index.get? name = some type →
    type.shape = .interface fields interfaces → (ofTypes more).implementors name = []

variable {graph bigger : TypeGraph} {types more : List TypeDef} {chain : List String}
  {name : String} {node other : Node}

/-! ## What is looked up -/

theorem extends_ofTypes (hnames : ((types ++ more).map (·.name)).Nodup)
    (directives others : List String) :
    (ofTypes (types ++ more) others).Extends (ofTypes types directives) more where
  types := rfl
  get? := by
    intro name type hget
    rw [List.map_append] at hnames
    have hindexed := isIndexed_ofTypes directives hnames.of_append_left
    rw [← List.map_append] at hnames
    rcases (hindexed name type).1 hget with ⟨htype, hname⟩
    exact (isIndexed_ofTypes others hnames name type).2 ⟨List.mem_append_left more htype, hname⟩

namespace Extends

theorem objects_eq (hextends : bigger.Extends graph more) :
    bigger.objects = graph.objects ++ (ofTypes more).objects := by
  rw [objects, hextends.types, List.filter_append]
  rfl

theorem implementors_eq (hextends : bigger.Extends graph more) (interface : String) :
    bigger.implementors interface =
      graph.implementors interface ++ (ofTypes more).implementors interface := by
  rw [implementors, hextends.objects_eq, List.filter_append, List.map_append]
  rfl

theorem documented_eq (hextends : bigger.Extends graph more) :
    bigger.documented = graph.documented ++ (ofTypes more).documented := by
  rw [documented, hextends.objects_eq, List.filter_append]
  rfl

end Extends

/-! ## Items of both graphs -/

/-- The lines below names of the smaller graph do not see the added types. -/
theorem Extends.listAlike (hextends : bigger.Extends graph more) (hindexed : graph.IsIndexed)
    (hclosed : graph.IsClosed) :
    bigger.ListAlike (fun _ => False)
      (fun item another => item = another ∧ item.target ∈ graph.index.names) graph where
  calls := by
    rintro item another ⟨rfl, -⟩
    exact .inl rfl
  type := by
    rintro item another ⟨rfl, hmem⟩
    rcases Option.isSome_iff_exists.1 (Entries.get?_isSome_iff.2 hmem) with ⟨type, hget⟩
    have htype : type ∈ graph.types := ((hindexed _ type).1 hget).1
    refine .inr ⟨type, type, hextends.get? _ _ hget, hget, rfl, rfl, rfl, ?_⟩
    cases hparts : type.parts? with
    | none => exact .inl ⟨rfl, rfl⟩
    | some parts =>
        refine .inr ⟨parts, parts, rfl, rfl, List.forall₂_same.2 fun part hpart => ⟨rfl, ?_⟩⟩
        refine hclosed type htype part.target (TypeDef.target_mem_references ?_)
        rw [TypeDef.parts, hparts]
        exact hpart

/-! ## Nodes -/

theorem growAll_of_mapM {f g : String → Except GraphError Node} {names : List String}
    (hall : ∀ name ∈ names, ∀ other, g name = .ok other →
      ∃ node, f name = .ok node ∧ graph.Grows more name node other)
    {others : List Node} (hok : names.mapM g = .ok others) :
    ∃ nodes, names.mapM f = .ok nodes ∧ graph.GrowAll more names nodes others := by
  induction names generalizing others with
  | nil =>
      cases hok
      exact ⟨[], rfl, .nil⟩
  | cons name rest ih =>
      rcases Results.mapM_cons_eq_ok_iff.1 hok with ⟨other, later, hother, hlater, rfl⟩
      rcases hall name List.mem_cons_self other hother with ⟨node, hnode, hgrows⟩
      have hrest := fun next hnext => hall next (List.mem_cons_of_mem name hnext)
      rcases ih hrest hlater with ⟨nodes, hnodes, hgrow⟩
      exact ⟨node :: nodes, Results.mapM_cons_eq_ok_iff.2 ⟨node, nodes, hnode, hnodes, rfl⟩,
        .cons hgrows hgrow⟩

section

variable [Runtime] {under : List Call}

theorem nodeBelow_of_isObject {describe : Bool} {type : TypeDef} (hnew : name ∉ chain)
    (hroom : Runtime.hasRoom (.resolveType name :: under) = true)
    (hget : graph.index.get? name = some type) (hname : type.name = name)
    (hkind : type.isObject = true) :
    graph.nodeBelow describe under chain name = .ok (.ref none name) := by
  rw [nodeBelow_of_get?_eq_some hnew hroom hget hname, variants?_eq_none_of_isObject hkind]
  exact congrArg Except.ok (leafNode_eq_ref_iff.2 ⟨hkind, rfl, hname.symm⟩)

/-- Where the implementors of an interface are expanded below some names, they are referred to. -/
theorem nodes_of_implementors {describe : Bool} {interface : String} {nodes : List Node}
    (hindexed : graph.IsIndexed)
    (hok : (graph.implementors interface).mapM (graph.nodeBelow describe under chain) =
      .ok nodes) :
    nodes = refs (graph.implementors interface) := by
  have hobject : ∀ name ∈ graph.implementors interface,
      ∃ type ∈ graph.objects, interface ∈ type.interfaces ∧ type.name = name :=
    fun name hname => mem_implementors_iff.1 hname
  have hall := (List.forall₂_and_left _ nodes).2 ⟨hobject, Results.mapM_eq_ok_iff.1 hok⟩
  have hrefs : List.Forall₂ (fun node name => id node = Node.ref none name) nodes
      (graph.implementors interface) := by
    refine (hall.imp ?_).flip
    rintro name node ⟨⟨type, htype, -, rfl⟩, hnode⟩
    rcases bounds_of_nodeBelow hnode with ⟨hnew, hhasRoom⟩
    rcases mem_objects_iff.1 htype with ⟨hmem, hkind⟩
    rw [nodeBelow_of_isObject hnew hhasRoom (hindexed.get?_name hmem) rfl hkind] at hnode
    exact (Except.ok.inj hnode).symm
  rw [← List.map_id nodes]
  exact map_eq_map_of_forall₂ hrefs

namespace Extends

/-- What the implementors of an interface are expanded to in the smaller graph. -/
theorem implementors_mapM (hextends : bigger.Extends graph more) (hindexed : graph.IsIndexed)
    {interface : String} {nodes : List Node}
    (hok : (bigger.implementors interface).mapM (bigger.nodeBelow false under chain) = .ok nodes) :
    (graph.implementors interface).mapM (graph.nodeBelow false under chain) =
      .ok (refs (graph.implementors interface)) := by
  rw [Results.mapM_eq_ok_iff] at hok ⊢
  rw [refs, List.forall₂_map_right_iff]
  refine List.forall₂_same.2 fun name hname => ?_
  have hbigger : name ∈ bigger.implementors interface := by
    rw [hextends.implementors_eq]
    exact List.mem_append_left _ hname
  rcases Results.exists_right_of_forall₂ hok hbigger with ⟨node, -, hnode⟩
  rcases bounds_of_nodeBelow hnode with ⟨hnew, hhasRoom⟩
  rcases mem_implementors_iff.1 hname with ⟨type, htype, -, rfl⟩
  rcases mem_objects_iff.1 htype with ⟨hmem, hkind⟩
  exact nodeBelow_of_isObject hnew hhasRoom (hindexed.get?_name hmem) rfl hkind

/-- A node of the bigger graph was there before, and has grown. -/
theorem exists_grows (hextends : bigger.Extends graph more) (hindexed : graph.IsIndexed)
    (hclosed : graph.IsClosed) (hbigger : bigger.IsIndexed) (hname : name ∈ graph.index.names)
    (hok : bigger.nodeBelow false under chain name = .ok other) :
    ∃ node,
      graph.nodeBelow false under chain name = .ok node ∧ graph.Grows more name node other := by
  induction hroom : Chain.room graph.index.names chain using Nat.strongRecOn
    generalizing chain under name other with
  | ind room ih =>
      rcases bounds_of_nodeBelow hok with ⟨hnew, hhasRoom⟩
      rcases Option.isSome_iff_exists.1 (Entries.get?_isSome_iff.2 hname) with ⟨type, hget⟩
      have hown : type.name = name := hindexed.name_eq hget
      have hmem : type ∈ graph.types := ((hindexed name type).1 hget).1
      rw [nodeBelow_of_get?_eq_some hnew hhasRoom (hextends.get? _ _ hget) hown] at hok
      rw [nodeBelow_of_get?_eq_some hnew hhasRoom hget hown]
      have hless : Chain.room graph.index.names (name :: chain) < room := by
        rw [← hroom]
        exact Chain.room_cons_lt hname hnew
      cases hshape : type.shape with
      | interface fields interfaces =>
          have hvariants : bigger.variants? type = some (bigger.implementors name) := by
            rw [variants?, hshape, hown]
          have hbefore : graph.variants? type = some (graph.implementors name) := by
            rw [variants?, hshape, hown]
          rw [hvariants] at hok
          rw [hbefore]
          rcases Results.map_eq_ok_iff.1 hok with ⟨nodes, hnodes, rfl⟩
          have hrefs := nodes_of_implementors hbigger hnodes
          rw [hextends.implementors_eq] at hrefs
          rw [hrefs]
          have hsmall := hextends.implementors_mapM hindexed hnodes
          exact ⟨_, Results.map_eq_ok_iff.2 ⟨_, hsmall, rfl⟩, .interface hget hshape⟩
      | union members =>
          have hvariants : ∀ any : TypeGraph, any.variants? type = some members := by
            intro any
            rw [variants?, hshape]
          rw [hvariants] at hok ⊢
          rcases Results.map_eq_ok_iff.1 hok with ⟨others, hothers, rfl⟩
          have hmembers : ∀ member ∈ members, ∀ other,
              bigger.nodeBelow false (intoVariants name under) (name :: chain) member =
                .ok other →
                ∃ node, graph.nodeBelow false (intoVariants name under) (name :: chain) member =
                    .ok node ∧
                  graph.Grows more member node other := by
            intro member hmember other hother
            have hreference : member ∈ type.references :=
              TypeDef.mem_references_iff.2 (.inr (.inr ⟨members, hshape, hmember⟩))
            exact ih _ hless (hclosed type hmem member hreference) hother rfl
          rcases growAll_of_mapM hmembers hothers with ⟨nodes, hnodes, hgrow⟩
          exact ⟨_, Results.map_eq_ok_iff.2 ⟨nodes, hnodes, rfl⟩, .union hget hshape hgrow⟩
      | _ =>
          have hvariants : ∀ any : TypeGraph, any.variants? type = none := by
            intro any
            rw [variants?, hshape]
          rw [hvariants] at hok ⊢
          have hleaf := Except.ok.inj hok
          rw [← hleaf]
          exact ⟨_, rfl, .leaf hget (hvariants graph)⟩

/-! ## Properties -/

theorem exists_fieldGrows (hextends : bigger.Extends graph more) (hindexed : graph.IsIndexed)
    (hclosed : graph.IsClosed) (hbigger : bigger.IsIndexed) {field : Field}
    (hbase : field.type.base ∈ graph.index.names)
    (hok : bigger.fieldNode false field under = .ok other) :
    ∃ node,
      graph.fieldNode false field under = .ok node ∧ graph.FieldGrows more field node other := by
  rw [fieldNode_eq_map] at hok ⊢
  rcases Results.map_eq_ok_iff.1 hok with ⟨base', hbase', rfl⟩
  rcases hextends.exists_grows hindexed hclosed hbigger hbase hbase' with ⟨base, hnode, hgrows⟩
  exact ⟨_, Results.map_eq_ok_iff.2 ⟨base, hnode, rfl⟩, base, base', hgrows, rfl, rfl⟩

end Extends

/-- The names of properties are those of the fields, whatever the graph. -/
theorem names_nodes_eq {describe describe' : Bool} {fields : List Field}
    {properties others : Properties} (hok : graph.properties describe fields = .ok properties)
    (hother : bigger.properties describe' fields = .ok others) :
    properties.nodes.names = others.nodes.names := by
  rcases Results.map_eq_ok_iff.1 (inRoom_eq_ok_iff.1 hok).2 with ⟨pairs, hpairs, rfl⟩
  rcases Results.map_eq_ok_iff.1 (inRoom_eq_ok_iff.1 hother).2 with ⟨pairs', hpairs', rfl⟩
  have hcorrespond : Entries.Corresponds (fun _ _ => True) pairs pairs' := by
    refine Results.forall₂_of_common (Results.mapM_eq_ok_iff.1 hpairs)
      (Results.mapM_eq_ok_iff.1 hpairs') ?_
    intro field _ first second hfirst hsecond
    rcases Results.map_eq_ok_iff.1 hfirst with ⟨node, -, rfl⟩
    rcases Results.map_eq_ok_iff.1 hsecond with ⟨node', -, rfl⟩
    exact ⟨rfl, trivial⟩
  exact hcorrespond.ofList.names_eq

namespace Extends

theorem exists_propertiesGrow (hextends : bigger.Extends graph more) (hindexed : graph.IsIndexed)
    (hclosed : graph.IsClosed) (hbigger : bigger.IsIndexed) {fields : List Field}
    (hbases : ∀ field ∈ fields, field.type.base ∈ graph.index.names) {others : Properties}
    (hok : bigger.properties false fields = .ok others) :
    ∃ properties, graph.properties false fields = .ok properties ∧
      graph.PropertiesGrow more fields properties others := by
  have hfield : ∀ under, ∀ field ∈ fields, ∀ other,
      bigger.fieldNode false field under = .ok other →
      ∃ node, graph.fieldNode false field under = .ok node ∧
        graph.FieldGrows more field node other := by
    intro under field hmem other hother
    exact hextends.exists_fieldGrows hindexed hclosed hbigger (hbases field hmem) hother
  cases hproperties : graph.properties false fields with
  | error e =>
      rcases inRoom_eq_ok_iff.1 hok with ⟨hroom, hmade⟩
      rcases inRoom_eq_error_iff.1 hproperties with ⟨hfull, -⟩ | ⟨-, herror⟩
      · rw [hroom] at hfull
        contradiction
      rw [Results.map_eq_error_iff] at herror
      rcases Results.map_eq_ok_iff.1 hmade with ⟨pairs, hpairs, -⟩
      rcases Results.exists_error_of_mapM herror with ⟨field, hmem, hnone⟩
      rcases Results.exists_right_of_forall₂ (Results.mapM_eq_ok_iff.1 hpairs) hmem with
        ⟨pair, -, hpair⟩
      rcases Results.map_eq_ok_iff.1 hpair with ⟨other, hother, -⟩
      rcases hfield whileBuilding field hmem other hother with ⟨node, hnode, -⟩
      rw [hnode] at hnone
      contradiction
  | ok properties =>
      refine ⟨properties, rfl, ?_, ?_⟩
      · rw [required_of_properties hproperties, required_of_properties hok]
      · refine Entries.related_of_names (names_nodes_eq hproperties hok) ?_
        intro name node other hnode hother
        rcases (mem_nodes_iff hproperties).1 hnode with ⟨field, hnamed, hfieldNode⟩
        rcases (mem_nodes_iff hok).1 hother with ⟨same, hsame, hotherNode⟩
        rw [hnamed, Option.some.injEq] at hsame
        subst same
        have hmem := (mem_of_fieldNamed? hnamed).1
        rcases hfield [] field hmem other hotherNode with ⟨before, hbefore, hgrows⟩
        rw [hfieldNode, Except.ok.injEq] at hbefore
        subst before
        exact ⟨field, hnamed, hgrows⟩

/-! ## Outlines -/

theorem fieldLines_eq (hextends : bigger.Extends graph more) (hindexed : graph.IsIndexed)
    (hclosed : graph.IsClosed) {type : TypeDef} (htype : type ∈ graph.types) (level : Int)
    (chain : List String) (under : List Call) :
    bigger.fieldLines type level chain under = graph.fieldLines type level chain under := by
  cases hfields : type.fields? with
  | none => rw [fieldLines, fieldLines, hfields]
  | some fields =>
      have hparts : List.Forall₂
          (fun item another => item = another ∧ item.target ∈ graph.index.names)
          type.parts type.parts := by
        refine List.forall₂_same.2 fun part hpart => ⟨rfl, ?_⟩
        exact hclosed type htype part.target (TypeDef.target_mem_references hpart)
      have hlines := outline_agree (hextends.listAlike hindexed hclosed) hparts chain level
        (whileListing under)
      rw [fieldLines_eq_wholeTrail hfields, fieldLines_eq_wholeTrail hfields, hlines.eq_of_never]

theorem fragmentOf_eq (hextends : bigger.Extends graph more) (hindexed : graph.IsIndexed)
    (hclosed : graph.IsClosed) {type : TypeDef} (htype : type ∈ graph.types)
    (under : List Call) : bigger.fragmentOf type under = graph.fragmentOf type under := by
  rw [fragmentOf, fragmentOf, hextends.fieldLines_eq hindexed hclosed htype]

end Extends

end

/-! ## Where nothing is implemented -/

mutual

theorem Grows.eq_of_implementsNone (hnone : ImplementsNone more graph) {name : String}
    {node other : Node} : graph.Grows more name node other → node = other
  | .leaf _ _ => rfl
  | .interface hget hshape => by rw [hnone _ _ _ _ hget hshape, List.append_nil]
  | .union _ _ hmembers => by rw [GrowAll.eq_of_implementsNone hnone hmembers]

theorem GrowAll.eq_of_implementsNone (hnone : ImplementsNone more graph) {names : List String}
    {nodes others : List Node} : graph.GrowAll more names nodes others → nodes = others
  | .nil => rfl
  | .cons hfirst hrest => by
      rw [Grows.eq_of_implementsNone hnone hfirst, GrowAll.eq_of_implementsNone hnone hrest]

end

theorem PropertiesGrow.eq_of_implementsNone (hnone : ImplementsNone more graph)
    {fields : List Field} {properties others : Properties}
    (hgrow : graph.PropertiesGrow more fields properties others) : properties = others := by
  rcases properties with ⟨nodes, required⟩
  rcases others with ⟨nodes', required'⟩
  obtain rfl : required = required' := hgrow.required
  have hnodes : Entries.Corresponds Eq nodes nodes' := by
    refine hgrow.nodes.imp fun entry another hentry => ⟨hentry.1, ?_⟩
    rcases hentry.2 with ⟨field, -, base, base', hbase, hnode, hnode'⟩
    rw [hnode, hnode', hbase.eq_of_implementsNone hnone]
  rw [Entries.eq_of_corresponds hnodes]

end TypeGraph

end ConfigSchema
