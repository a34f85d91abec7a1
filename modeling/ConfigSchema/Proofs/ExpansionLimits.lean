import ConfigSchema.Proofs.DocumentParts
import Mathlib.Data.List.Dedup

/-!
# How deep expansions go

The expansion of a name follows the variants of unions and interfaces.  It comes to an end exactly
if no cycle of variants can be reached, and then no deeper than there are names; an expansion that
reaches a cycle is cut off at every depth that is allowed.  A run also cuts off an expansion that is
merely too deep for the room that there is.
-/

namespace ConfigSchema

/-- The causes that cut off what goes on for too long. -/
def GraphError.IsCutOff : GraphError → Prop
  | .endless _ => True
  | .tooDeep => True
  | _ => False

namespace TypeGraph

/-- The node of a name, if expansions may stand so many levels deep inside each other. -/
def nodeWithin (graph : TypeGraph) (describe : Bool) : Nat → String → Except GraphError Node
  | 0, _ => .error .tooDeep
  | levels + 1, name =>
      match graph.index.get? name with
      | none => .error (.unknownType name)
      | some type =>
          match graph.variants? type with
          | none => .ok (leafNode describe type)
          | some variants =>
              (variants.mapM (graph.nodeWithin describe levels)).map
                (.anyOf (variantNote describe "Any of: " variants))

/-- A cycle of variants can be reached from a name. -/
def ReachesCycle (graph : TypeGraph) (name : String) : Prop :=
  ∃ other, Relation.ReflTransGen graph.Expands name other ∧
    Relation.TransGen graph.Expands other other

/-- Types are looked up under their own names, and own names and references all stand for
types. -/
structure IsComplete (graph : TypeGraph) : Prop where
  isNamed : graph.IsNamed
  isResolved : graph.IsResolved
  own_mem : ∀ type ∈ graph.types, type.name ∈ graph.index.names

variable {graph : TypeGraph} {describe : Bool} {levels : Nat} {under : List Call}
  {chain : List String} {name variant last : String} {node : Node}

theorem IsClosed.isComplete (hclosed : graph.IsClosed) (hindexed : graph.IsIndexed) :
    graph.IsComplete where
  isNamed := hindexed.isNamed
  isResolved := hclosed.isResolved hindexed
  own_mem := by
    intro type htype
    exact Entries.mem_names_of_get? (hindexed.get?_name htype)

theorem IsComplete.mem_names_of_expands (hgraph : graph.IsComplete)
    (hstep : graph.Expands name variant) : variant ∈ graph.index.names := by
  rcases hstep.cases with ⟨type, members, hget, hshape, hmem⟩ | ⟨type, htype, rfl⟩
  · have hreference : variant ∈ type.references :=
      TypeDef.mem_references_iff.2 (.inr (.inr ⟨members, hshape, hmem⟩))
    exact hgraph.isResolved type (.inr ⟨name, hget⟩) variant hreference
  · exact hgraph.own_mem type (mem_objects_iff.1 htype).1

theorem IsComplete.base_mem (hgraph : graph.IsComplete) {type : TypeDef}
    (htype : type ∈ graph.objects) {field : Field} (hfield : field ∈ type.fields) :
    field.type.base ∈ graph.index.names := by
  have hholds : graph.Holds type := .inl (mem_objects_iff.1 htype).1
  exact hgraph.isResolved type hholds _ (TypeDef.base_mem_references hfield)

/-! ## Cycles -/

theorem ReachesCycle.of_expands (hstep : graph.Expands name variant)
    (hcycle : graph.ReachesCycle variant) : graph.ReachesCycle name := by
  obtain ⟨other, hreach, hloop⟩ := hcycle
  exact ⟨other, .head hstep hreach, hloop⟩

theorem ReachesCycle.of_self (hloop : Relation.TransGen graph.Expands name name) :
    graph.ReachesCycle name :=
  ⟨name, .refl, hloop⟩

theorem ExpandsIn.trans {first second : Nat} (hfirst : graph.ExpandsIn first name variant)
    (hsecond : graph.ExpandsIn second variant last) :
    graph.ExpandsIn (first + second) name last := by
  induction first generalizing name with
  | zero =>
      have hname : name = variant := hfirst
      rwa [hname, Nat.zero_add]
  | succ first ih =>
      obtain ⟨next, hstep, hrest⟩ := hfirst
      rw [Nat.add_right_comm]
      exact ⟨next, hstep, ih hrest⟩

theorem exists_expandsIn_of_reflTransGen
    (hreach : Relation.ReflTransGen graph.Expands name last) :
    ∃ steps, graph.ExpandsIn steps name last := by
  induction hreach using Relation.ReflTransGen.head_induction_on with
  | refl => exact ⟨0, rfl⟩
  | head hstep _ ih =>
      obtain ⟨steps, hpath⟩ := ih
      exact ⟨steps + 1, _, hstep, hpath⟩

/-- Around a cycle a name leads on for as many steps as are wanted. -/
theorem ReachesCycle.exists_expandsIn (hcycle : graph.ReachesCycle name) (least : Nat) :
    ∃ steps last, least ≤ steps ∧ graph.ExpandsIn steps name last := by
  obtain ⟨other, hreach, hloop⟩ := hcycle
  have hrounds : ∃ steps, least ≤ steps ∧ graph.ExpandsIn steps name other := by
    induction least with
    | zero =>
        obtain ⟨steps, hpath⟩ := exists_expandsIn_of_reflTransGen hreach
        exact ⟨steps, Nat.zero_le _, hpath⟩
    | succ least ih =>
        obtain ⟨steps, hle, hpath⟩ := ih
        obtain ⟨next, hstep, hback⟩ := Relation.TransGen.head'_iff.1 hloop
        obtain ⟨back, hback⟩ := exists_expandsIn_of_reflTransGen hback
        have hround : graph.ExpandsIn (back + 1) other other := ⟨next, hstep, hback⟩
        exact ⟨steps + (back + 1), by omega, hpath.trans hround⟩
  obtain ⟨steps, hle, hpath⟩ := hrounds
  exact ⟨steps, other, hle, hpath⟩

theorem transGen_cons (hchain : ∀ other ∈ chain, Relation.TransGen graph.Expands other name)
    (hstep : graph.Expands name variant) :
    ∀ other ∈ name :: chain, Relation.TransGen graph.Expands other variant := by
  intro other hother
  rcases List.mem_cons.1 hother with rfl | hother
  · exact .single hstep
  · exact (hchain other hother).tail hstep

/-- Without a cycle no name is met twice, so the names that are not on the chain bound the steps. -/
theorem steps_lt_room (hgraph : graph.IsComplete) (hmem : name ∈ graph.index.names)
    (hfree : ¬ graph.ReachesCycle name)
    (hchain : ∀ other ∈ chain, Relation.TransGen graph.Expands other name) {steps : Nat}
    (hpath : graph.ExpandsIn steps name last) :
    steps < Chain.room graph.index.names.dedup chain := by
  have hnew : name ∉ chain := fun hold => hfree (.of_self (hchain name hold))
  have hroom : Chain.room graph.index.names.dedup (name :: chain) <
      Chain.room graph.index.names.dedup chain :=
    Chain.room_cons_lt (List.mem_dedup.2 hmem) hnew
  induction steps generalizing name chain with
  | zero => omega
  | succ steps ih =>
      obtain ⟨next, hstep, hrest⟩ := hpath
      have hnext : next ∈ graph.index.names := hgraph.mem_names_of_expands hstep
      have hfree' : ¬ graph.ReachesCycle next := fun hcycle => hfree (hcycle.of_expands hstep)
      have hchain' := transGen_cons hchain hstep
      have hnew' : next ∉ name :: chain := fun hold => hfree' (.of_self (hchain' next hold))
      have hbelow := ih hnext hfree' hchain' hrest hnew'
        (Chain.room_cons_lt (List.mem_dedup.2 hnext) hnew')
      omega

theorem steps_lt_of_not_reachesCycle (hgraph : graph.IsComplete)
    (hmem : name ∈ graph.index.names) (hfree : ¬ graph.ReachesCycle name) {steps : Nat}
    (hpath : graph.ExpandsIn steps name last) : steps < graph.index.names.dedup.length := by
  have hnone : ∀ other ∈ [], Relation.TransGen graph.Expands other name := by simp
  have hroom := steps_lt_room hgraph hmem hfree hnone hpath
  simpa [Chain.room] using hroom

/-! ## Expansions of a limited depth -/

theorem nodeWithin_of_get?_eq_some {type : TypeDef} (hget : graph.index.get? name = some type) :
    graph.nodeWithin describe (levels + 1) name =
      match graph.variants? type with
      | none => .ok (leafNode describe type)
      | some variants =>
          (variants.mapM (graph.nodeWithin describe levels)).map
            (.anyOf (variantNote describe "Any of: " variants)) := by
  rw [nodeWithin]
  simp only [hget]

theorem exists_node_of_variant
    (hok : graph.nodeWithin describe (levels + 1) name = .ok node)
    (hstep : graph.Expands name variant) :
    ∃ sub, graph.nodeWithin describe levels variant = .ok sub := by
  obtain ⟨type, variants, hget, hvariants, hmem⟩ := hstep
  rw [nodeWithin_of_get?_eq_some hget] at hok
  simp only [hvariants] at hok
  obtain ⟨nodes, hnodes, -⟩ := Results.map_eq_ok_iff.1 hok
  obtain ⟨sub, -, hsub⟩ := Results.exists_right_of_forall₂ (Results.mapM_eq_ok_iff.1 hnodes) hmem
  exact ⟨sub, hsub⟩

theorem steps_lt_of_nodeWithin (hok : graph.nodeWithin describe levels name = .ok node)
    {steps : Nat} (hpath : graph.ExpandsIn steps name last) : steps < levels := by
  induction levels generalizing name node steps with
  | zero => contradiction
  | succ levels ih =>
      cases steps with
      | zero => exact Nat.succ_pos levels
      | succ steps =>
          obtain ⟨next, hstep, hrest⟩ := hpath
          obtain ⟨sub, hsub⟩ := exists_node_of_variant hok hstep
          exact Nat.succ_lt_succ (ih hsub hrest)

theorem nodeWithin_mono {more : Nat} (hle : levels ≤ more)
    (hok : graph.nodeWithin describe levels name = .ok node) :
    graph.nodeWithin describe more name = .ok node := by
  induction levels generalizing name node more with
  | zero => contradiction
  | succ levels ih =>
      obtain ⟨more, rfl⟩ : ∃ fewer, more = fewer + 1 := ⟨more - 1, by omega⟩
      cases hget : graph.index.get? name with
      | none =>
          rw [nodeWithin] at hok
          simp only [hget] at hok
          contradiction
      | some type =>
          rw [nodeWithin_of_get?_eq_some hget] at hok ⊢
          cases hvariants : graph.variants? type with
          | none => simpa only [hvariants] using hok
          | some variants =>
              simp only [hvariants] at hok ⊢
              obtain ⟨nodes, hnodes, hnode⟩ := Results.map_eq_ok_iff.1 hok
              have hmore : variants.mapM (graph.nodeWithin describe more) = .ok nodes := by
                apply Results.mapM_eq_ok_of_imp hnodes
                intro variant _ sub hsub
                exact ih (Nat.le_of_succ_le_succ hle) hsub
              exact Results.map_eq_ok_iff.2 ⟨nodes, hmore, hnode⟩

theorem nodeWithin_cases (hgraph : graph.IsComplete) (describe : Bool) (levels : Nat)
    (hmem : name ∈ graph.index.names) :
    (∃ node, graph.nodeWithin describe levels name = .ok node) ∨
      graph.nodeWithin describe levels name = .error .tooDeep := by
  induction levels generalizing name with
  | zero => exact .inr rfl
  | succ levels ih =>
      obtain ⟨type, hget⟩ := Option.isSome_iff_exists.1 (Entries.get?_isSome_iff.2 hmem)
      rw [nodeWithin_of_get?_eq_some hget]
      cases hvariants : graph.variants? type with
      | none => exact .inl ⟨_, rfl⟩
      | some variants =>
          simp only
          cases hnodes : variants.mapM (graph.nodeWithin describe levels) with
          | ok nodes => exact .inl ⟨_, rfl⟩
          | error e =>
              obtain ⟨variant, hvariant, herror⟩ := Results.exists_error_of_mapM hnodes
              have hstep : graph.Expands name variant := ⟨type, variants, hget, hvariants, hvariant⟩
              rcases ih (hgraph.mem_names_of_expands hstep) with ⟨sub, hsub⟩ | hdeep
              · rw [herror] at hsub
                contradiction
              · rw [herror, Except.error.injEq] at hdeep
                rw [hdeep]
                exact .inr rfl

/-- A name has a node of a limited depth exactly if it leads no further than that. -/
theorem exists_nodeWithin_iff (hgraph : graph.IsComplete) (hmem : name ∈ graph.index.names) :
    (∃ node, graph.nodeWithin describe levels name = .ok node) ↔
      ∀ steps last, graph.ExpandsIn steps name last → steps < levels := by
  constructor
  · rintro ⟨node, hok⟩ steps last hpath
    exact steps_lt_of_nodeWithin hok hpath
  · intro hshort
    induction levels generalizing name with
    | zero => exact absurd (hshort 0 name rfl) (Nat.lt_irrefl 0)
    | succ levels ih =>
        rcases nodeWithin_cases hgraph describe (levels + 1) hmem with hok | hdeep
        · exact hok
        obtain ⟨type, hget⟩ := Option.isSome_iff_exists.1 (Entries.get?_isSome_iff.2 hmem)
        rw [nodeWithin_of_get?_eq_some hget] at hdeep
        cases hvariants : graph.variants? type with
        | none =>
            simp only [hvariants] at hdeep
            contradiction
        | some variants =>
            simp only [hvariants, Results.map_eq_error_iff] at hdeep
            obtain ⟨variant, hvariant, herror⟩ := Results.exists_error_of_mapM hdeep
            have hstep : graph.Expands name variant := ⟨type, variants, hget, hvariants, hvariant⟩
            have hbelow : ∀ steps last, graph.ExpandsIn steps variant last → steps < levels := by
              intro steps last hpath
              exact Nat.lt_of_succ_lt_succ (hshort (steps + 1) last ⟨variant, hstep, hpath⟩)
            obtain ⟨sub, hsub⟩ := ih (hgraph.mem_names_of_expands hstep) hbelow
            rw [herror] at hsub
            contradiction

theorem nodeWithin_of_reachesCycle (hgraph : graph.IsComplete) (hmem : name ∈ graph.index.names)
    (hcycle : graph.ReachesCycle name) (levels : Nat) :
    graph.nodeWithin describe levels name = .error .tooDeep := by
  rcases nodeWithin_cases hgraph describe levels hmem with hok | hdeep
  · obtain ⟨steps, last, hle, hpath⟩ := hcycle.exists_expandsIn levels
    have hlt := (exists_nodeWithin_iff hgraph hmem).1 hok steps last hpath
    omega
  · exact hdeep

theorem exists_nodeWithin_of_not_reachesCycle (hgraph : graph.IsComplete) (describe : Bool)
    (hmem : name ∈ graph.index.names) (hfree : ¬ graph.ReachesCycle name) :
    ∃ node, ∀ levels, graph.index.names.dedup.length ≤ levels →
      graph.nodeWithin describe levels name = .ok node := by
  have hok : ∃ node, graph.nodeWithin describe graph.index.names.dedup.length name = .ok node := by
    apply (exists_nodeWithin_iff hgraph hmem).2
    intro steps last hpath
    exact steps_lt_of_not_reachesCycle hgraph hmem hfree hpath
  obtain ⟨node, hok⟩ := hok
  refine ⟨node, ?_⟩
  intro levels hle
  exact nodeWithin_mono hle hok

/-! ## The room that there is -/

variable [Runtime]

/-- A node that comes out has levels for all names that were not on the chain. -/
theorem nodeWithin_of_nodeBelow (hname : graph.IsNamed)
    (hok : graph.nodeBelow describe under chain name = .ok node) :
    graph.nodeWithin describe (Chain.room graph.index.names chain) name = .ok node := by
  induction hfree : Chain.room graph.index.names chain using Nat.strongRecOn
    generalizing under chain name node with
  | ind free ih =>
      obtain ⟨hnew, hroom⟩ := bounds_of_nodeBelow hok
      cases hget : graph.index.get? name with
      | none =>
          rw [nodeBelow_of_get?_eq_none hnew hroom hget] at hok
          contradiction
      | some type =>
          have hless : Chain.room graph.index.names (name :: chain) < free := by
            rw [← hfree]
            exact Chain.room_cons_lt (Entries.mem_names_of_get? hget) hnew
          obtain ⟨levels, rfl⟩ : ∃ levels, free = levels + 1 := ⟨free - 1, by omega⟩
          rw [nodeBelow_of_get?_eq_some hnew hroom hget (hname name type hget)] at hok
          rw [nodeWithin_of_get?_eq_some hget]
          cases hvariants : graph.variants? type with
          | none => simpa only [hvariants] using hok
          | some variants =>
              simp only [hvariants] at hok ⊢
              obtain ⟨nodes, hnodes, hnode⟩ := Results.map_eq_ok_iff.1 hok
              have hwithin : variants.mapM (graph.nodeWithin describe levels) = .ok nodes := by
                apply Results.mapM_eq_ok_of_imp hnodes
                intro variant _ sub hsub
                exact nodeWithin_mono (Nat.le_of_lt_succ hless) (ih _ hless hsub rfl)
              exact Results.map_eq_ok_iff.2 ⟨nodes, hwithin, hnode⟩

theorem nodeBelow_of_nodeWithin (hname : graph.IsNamed)
    (hnear : ¬ graph.LeadsTooFar under name)
    (hchain : ∀ other ∈ chain, Relation.TransGen graph.Expands other name)
    (hok : graph.nodeWithin describe levels name = .ok node) :
    graph.nodeBelow describe under chain name = .ok node := by
  induction levels generalizing under chain name node with
  | zero => contradiction
  | succ levels ih =>
      have hnew : name ∉ chain := by
        intro hold
        have hcycle : graph.ReachesCycle name := .of_self (hchain name hold)
        obtain ⟨steps, last, hle, hpath⟩ := hcycle.exists_expandsIn (levels + 1)
        have hlt := steps_lt_of_nodeWithin hok hpath
        omega
      have hroom : Runtime.hasRoom (.resolveType name :: under) = true := by
        rw [← Bool.not_eq_false]
        exact fun hfull => hnear ⟨name, _, .here name, hfull⟩
      cases hget : graph.index.get? name with
      | none =>
          rw [nodeWithin] at hok
          simp only [hget] at hok
          contradiction
      | some type =>
          rw [nodeWithin_of_get?_eq_some hget] at hok
          rw [nodeBelow_of_get?_eq_some hnew hroom hget (hname name type hget)]
          cases hvariants : graph.variants? type with
          | none => simpa only [hvariants] using hok
          | some variants =>
              simp only [hvariants] at hok ⊢
              obtain ⟨nodes, hnodes, hnode⟩ := Results.map_eq_ok_iff.1 hok
              have hbelow : variants.mapM
                  (graph.nodeBelow describe (intoVariants name under) (name :: chain)) =
                  .ok nodes := by
                apply Results.mapM_eq_ok_of_imp hnodes
                intro variant hvariant sub hsub
                have hstep : graph.Expands name variant :=
                  ⟨type, variants, hget, hvariants, hvariant⟩
                exact ih (fun hfar => hnear (hfar.of_expands hstep)) (transGen_cons hchain hstep)
                  hsub
              exact Results.map_eq_ok_iff.2 ⟨nodes, hbelow, hnode⟩

theorem not_leadsTooFar_of_nodeBelow (hname : graph.IsNamed)
    (hok : graph.nodeBelow describe under chain name = .ok node) :
    ¬ graph.LeadsTooFar under name := by
  rintro ⟨last, calls, hpath, hfull⟩
  induction hpath generalizing under chain node with
  | here name =>
      rw [List.singleton_append, (bounds_of_nodeBelow hok).2] at hfull
      contradiction
  | @variant name next last calls hstep hrest ih =>
      obtain ⟨hnew, hroom⟩ := bounds_of_nodeBelow hok
      obtain ⟨type, variants, hget, hvariants, hmem⟩ := hstep
      rw [nodeBelow_of_get?_eq_some hnew hroom hget (hname name type hget), hvariants] at hok
      obtain ⟨nodes, hnodes, -⟩ := Results.map_eq_ok_iff.1 hok
      obtain ⟨sub, -, hsub⟩ :=
        Results.exists_right_of_forall₂ (Results.mapM_eq_ok_iff.1 hnodes) hmem
      rw [List.append_assoc] at hfull
      exact ih hsub hfull

theorem node_eq_ok_iff (hname : graph.IsNamed) :
    graph.node describe name under = .ok node ↔
      ¬ graph.LeadsTooFar under name ∧
        ∃ levels, graph.nodeWithin describe levels name = .ok node := by
  constructor
  · intro hok
    exact ⟨not_leadsTooFar_of_nodeBelow hname hok, _, nodeWithin_of_nodeBelow hname hok⟩
  · rintro ⟨hnear, levels, hok⟩
    exact nodeBelow_of_nodeWithin hname hnear (by simp) hok

/-- An expansion that ends within some levels has room if there is room for three calls a level. -/
theorem node_of_nodeWithin (hname : graph.IsNamed)
    (hroom : Runtime.HasRoomFor (3 * levels + under.length))
    (hok : graph.nodeWithin describe levels name = .ok node) :
    graph.node describe name under = .ok node := by
  refine (node_eq_ok_iff hname).2 ⟨?_, levels, hok⟩
  rintro ⟨last, calls, hreach, hfull⟩
  obtain ⟨steps, hpath, hlength⟩ := hreach.exists_expandsIn
  have hsteps := steps_lt_of_nodeWithin hok hpath
  rw [hroom (calls ++ under) (by rw [List.length_append]; omega)] at hfull
  contradiction

theorem exists_node_iff (hgraph : graph.IsComplete) (hmem : name ∈ graph.index.names) :
    (∃ node, graph.node describe name under = .ok node) ↔
      ¬ graph.ReachesCycle name ∧ ¬ graph.LeadsTooFar under name := by
  simp only [node_eq_ok_iff hgraph.isNamed]
  constructor
  · rintro ⟨node, hnear, levels, hok⟩
    refine ⟨?_, hnear⟩
    intro hcycle
    rw [nodeWithin_of_reachesCycle hgraph hmem hcycle levels] at hok
    contradiction
  · rintro ⟨hfree, hnear⟩
    obtain ⟨node, hok⟩ := exists_nodeWithin_of_not_reachesCycle hgraph describe hmem hfree
    exact ⟨node, hnear, _, hok _ (Nat.le_refl _)⟩

theorem isCutOff_of_nodeBelow (hgraph : graph.IsComplete) (hmem : name ∈ graph.index.names)
    {e : GraphError} (herror : graph.nodeBelow describe under chain name = .error e) :
    e.IsCutOff := by
  induction hfree : Chain.room graph.index.names chain using Nat.strongRecOn
    generalizing under chain name with
  | ind free ih =>
      by_cases hnew : name ∈ chain
      · rw [nodeBelow, dif_pos hnew, Except.error.injEq] at herror
        rw [← herror]
        trivial
      cases hroom : Runtime.hasRoom (.resolveType name :: under) with
      | false =>
          rw [nodeBelow_of_full hnew hroom, Except.error.injEq] at herror
          rw [← herror]
          trivial
      | true =>
          obtain ⟨type, hget⟩ := Option.isSome_iff_exists.1 (Entries.get?_isSome_iff.2 hmem)
          rw [nodeBelow_of_get?_eq_some hnew hroom hget (hgraph.isNamed name type hget)] at herror
          cases hvariants : graph.variants? type with
          | none =>
              simp only [hvariants] at herror
              contradiction
          | some variants =>
              simp only [hvariants, Results.map_eq_error_iff] at herror
              obtain ⟨variant, hvariant, hbelow⟩ := Results.exists_error_of_mapM herror
              have hstep : graph.Expands name variant :=
                ⟨type, variants, hget, hvariants, hvariant⟩
              have hlt : Chain.room graph.index.names (name :: chain) < free := by
                rw [← hfree]
                exact Chain.room_cons_lt hmem hnew
              exact ih _ hlt (hgraph.mem_names_of_expands hstep) hbelow rfl

/-! ## Documents -/

theorem isCutOff_of_document (hgraph : graph.IsComplete) {settings : Settings} {asked : Json}
    {cause : GraphError} (herror : graph.document settings asked = .error (.graph cause)) :
    cause.IsCutOff := by
  rw [document_eq_graph_error_iff] at herror
  rcases cause_of_objectProperties_eq_error herror with
    ⟨-, rfl⟩ | ⟨type, htype, field, hfield, hnode⟩
  · trivial
  · exact isCutOff_of_nodeBelow hgraph (hgraph.base_mem htype hfield) hnode

theorem document_fails_iff (hgraph : graph.IsComplete) (settings : Settings) (asked : Json) :
    (∃ cause, graph.document settings asked = .error (.graph cause)) ↔
      graph.IsTooDeep ∨
        ∃ type ∈ graph.objects, ∃ field ∈ type.fields, graph.ReachesCycle field.type.base := by
  simp only [document_eq_graph_error_iff]
  constructor
  · rintro ⟨cause, herror⟩
    rcases cause_of_objectProperties_eq_error herror with
      ⟨hdeep, -⟩ | ⟨type, htype, field, hfield, hnode⟩
    · exact .inl hdeep
    · by_contra hends
      rw [not_or] at hends
      have hfree : ¬ graph.ReachesCycle field.type.base :=
        fun hcycle => hends.2 ⟨type, htype, field, hfield, hcycle⟩
      have hnear : ¬ graph.LeadsTooFar whileResolving field.type.base :=
        fun hfar => hends.1 (.field htype hfield hfar)
      obtain ⟨node, hok⟩ :=
        (exists_node_iff hgraph (hgraph.base_mem htype hfield)).2 ⟨hfree, hnear⟩
      rw [hnode] at hok
      contradiction
  · intro hfails
    cases hbuilt : graph.objectProperties settings.describeVariants.isTruthy with
    | error cause => exact ⟨cause, rfl⟩
    | ok built =>
        have hends : ∀ type ∈ graph.objects, ∀ field ∈ type.fields,
            ¬ graph.ReachesCycle field.type.base ∧
              ¬ graph.LeadsTooFar whileResolving field.type.base := by
          intro type htype field hfield
          exact (exists_node_iff hgraph (hgraph.base_mem htype hfield)).1
            (exists_node_of_objectProperties hbuilt htype hfield)
        rcases hfails with hdeep | ⟨type, htype, field, hfield, hcycle⟩
        · obtain ⟨type, htype, field, hfield, hfar⟩ := hdeep.exists_field hbuilt
          exact absurd hfar (hends type htype field hfield).2
        · exact absurd hcycle (hends type htype field hfield).1

end TypeGraph

end ConfigSchema
