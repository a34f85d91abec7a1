import ConfigSchema.JsonSchema.Expansion
import ConfigSchema.Proofs.GraphReferences
import ConfigSchema.Proofs.Results

/-!
# What an expansion comes to

The node of a name is told by the names that can be reached from it through variants.  Where no
name leads back to itself, an expansion fails only if one of the names reached stands for no type
or there is no room for the calls that lead to it, and then it does fail.  A node that comes out
depends neither on the chain nor on the calls below which it was made.
-/

namespace ConfigSchema

namespace TypeGraph

variable {graph : TypeGraph} {describe : Bool} {under : List Call} {chain : List String}
  {name : String}

/-- The node of a type that has no variants. -/
def leafNode (describe : Bool) (type : TypeDef) : Node :=
  match type.shape with
  | .scalar => (Node.ofScalar? type.name).getD Node.unknownObject
  | .enum values => .enum (variantNote describe "Allowed values: " values) values
  | .object .. => .ref none type.name
  | _ => Node.unknownObject

/-- A name leads to another one in a number of steps from types to their variants. -/
def ExpandsIn (graph : TypeGraph) : Nat → String → String → Prop
  | 0, name, last => name = last
  | steps + 1, name, last => ∃ next, graph.Expands name next ∧ graph.ExpandsIn steps next last

/-- The resolution of a name comes to another one by these calls. -/
inductive ReachesBy (graph : TypeGraph) : String → String → List Call → Prop
  | here (name : String) : ReachesBy graph name name [.resolveType name]
  | variant {name next last : String} {calls : List Call} (hstep : graph.Expands name next)
      (hrest : ReachesBy graph next last calls) :
      ReachesBy graph name last (calls ++ intoVariants name [])

/-- A name leads to another one by calls that there is no room for. -/
def LeadsTooFar [Runtime] (graph : TypeGraph) (under : List Call) (name : String) : Prop :=
  ∃ last calls, graph.ReachesBy name last calls ∧ Runtime.hasRoom (calls ++ under) = false

/-- Types are looked up under their own names, and no expansion leads back to its start. -/
structure IsExpandable (graph : TypeGraph) : Prop where
  isNamed : graph.IsNamed
  finite : ∀ name, ¬ Relation.TransGen graph.Expands name name

/-- What becomes of a name that is expanded by calls from `under`. -/
inductive Outcome [Runtime] (graph : TypeGraph) (under : List Call) (name : String) :
    Except GraphError Node → Prop
  | finished (node : Node)
      (hknown : ∀ last calls, graph.ReachesBy name last calls → last ∈ graph.index.names)
      (hnear : ¬ graph.LeadsTooFar under name) : Outcome graph under name (.ok node)
  | tooDeep (hfar : graph.LeadsTooFar under name) : Outcome graph under name (.error .tooDeep)
  | unknown (last : String) (calls : List Call) (hpath : graph.ReachesBy name last calls)
      (hunknown : last ∉ graph.index.names) :
      Outcome graph under name (.error (.unknownType last))

theorem expands_iff {type : TypeDef} (hget : graph.index.get? name = some type)
    {variant : String} :
    graph.Expands name variant ↔
      ∃ variants, graph.variants? type = some variants ∧ variant ∈ variants := by
  constructor
  · rintro ⟨other, variants, hother, hvariants, hmem⟩
    rw [hget, Option.some.injEq] at hother
    subst other
    exact ⟨variants, hvariants, hmem⟩
  · rintro ⟨variants, hvariants, hmem⟩
    exact ⟨type, variants, hget, hvariants, hmem⟩

theorem RanksVariants.steps_le {rank : String → Nat} (hrank : graph.RanksVariants rank)
    {steps : Nat} {last : String} (hpath : graph.ExpandsIn steps name last) :
    steps ≤ rank name := by
  induction steps generalizing name with
  | zero => exact Nat.zero_le _
  | succ steps ih =>
      obtain ⟨next, hstep, hrest⟩ := hpath
      have hbelow := ih hrest
      have hlt := hrank.lt_of_expands hstep
      omega

@[simp] theorem intoVariants_append (name : String) (calls under : List Call) :
    intoVariants name calls ++ under = intoVariants name (calls ++ under) := rfl

theorem sublist_intoVariants (name : String) (calls : List Call) :
    calls.Sublist (intoVariants name calls) :=
  .cons _ (.cons _ (.cons _ (.refl _)))

theorem intoVariants_sublist (name : String) {calls others : List Call}
    (hsub : calls.Sublist others) :
    (intoVariants name calls).Sublist (intoVariants name others) :=
  ((hsub.cons_cons _).cons_cons _).cons_cons _

/-- Every step through variants takes three calls. -/
theorem ExpandsIn.exists_calls {steps : Nat} {last : String}
    (hpath : graph.ExpandsIn steps name last) :
    ∃ calls, graph.ReachesBy name last calls ∧ calls.length = 3 * steps + 1 := by
  induction steps generalizing name with
  | zero =>
      have hlast : name = last := hpath
      subst last
      exact ⟨_, .here name, rfl⟩
  | succ steps ih =>
      obtain ⟨next, hstep, hrest⟩ := hpath
      obtain ⟨calls, hreach, hlength⟩ := ih hrest
      refine ⟨_, .variant hstep hreach, ?_⟩
      rw [List.length_append, hlength]
      simp only [intoVariants, List.length_cons, List.length_nil]
      omega

theorem ReachesBy.exists_expandsIn {last : String} {calls : List Call}
    (hreach : graph.ReachesBy name last calls) :
    ∃ steps, graph.ExpandsIn steps name last ∧ calls.length = 3 * steps + 1 := by
  induction hreach with
  | here name => exact ⟨0, rfl, rfl⟩
  | variant hstep _ ih =>
      obtain ⟨steps, hpath, hlength⟩ := ih
      refine ⟨steps + 1, ⟨_, hstep, hpath⟩, ?_⟩
      rw [List.length_append, hlength]
      simp only [intoVariants, List.length_cons, List.length_nil]
      omega

/-- The names of the variants of a type whose kind has some.  Those of a union are the members of
the type that its own name stands for. -/
def alternatives (graph : TypeGraph) (type : TypeDef) :
    Except GraphError (Option (List String)) :=
  match type.shape with
  | .interface .. => .ok (some (graph.implementors type.name))
  | .union _ => (graph.members type.name).map some
  | _ => .ok none

theorem alternatives_eq_variants? {type : TypeDef} (hget : graph.index.get? name = some type)
    (hname : type.name = name) : graph.alternatives type = .ok (graph.variants? type) := by
  rcases type with ⟨own, description, directives, shape⟩
  simp only at hname
  subst own
  cases shape with
  | union members =>
      have hmembers : graph.members name = .ok members := by simp [TypeGraph.members, hget]
      simp only [alternatives, variants?, hmembers, Except.map]
  | _ => rfl

/-! ## Graphs with different names -/

theorem finite_of_hasFiniteUnions (hindexed : graph.IsIndexed) (hunions : graph.HasFiniteUnions)
    (name : String) : ¬ Relation.TransGen graph.Expands name name := by
  have hobject : ∀ type ∈ graph.objects, ∀ variant, ¬ graph.Expands type.name variant := by
    intro type htype variant
    obtain ⟨hmem, hkind⟩ := mem_objects_iff.1 htype
    exact not_expands_of_isObject (hindexed.get?_name hmem) hkind
  have hpath : ∀ first second, Relation.TransGen graph.Expands first second →
      Relation.TransGen graph.Lists first second ∨ ∃ type ∈ graph.objects, type.name = second := by
    intro first second hreach
    induction hreach with
    | single hstep => exact hstep.cases.imp_left .single
    | tail _ hlast ih =>
        rcases ih with hlists | ⟨type, htype, rfl⟩
        · exact hlast.cases.imp_left hlists.tail
        · exact absurd hlast (hobject type htype _)
  intro hcycle
  rcases hpath name name hcycle with hlists | ⟨type, htype, rfl⟩
  · exact hunions name hlists
  · obtain ⟨next, hnext, -⟩ := Relation.TransGen.head'_iff.1 hcycle
    exact hobject type htype next hnext

theorem IsIndexed.isExpandable (hindexed : graph.IsIndexed) (hunions : graph.HasFiniteUnions) :
    graph.IsExpandable where
  isNamed := hindexed.isNamed
  finite := finite_of_hasFiniteUnions hindexed hunions

theorem IsClosed.mem_names_of_expands (hclosed : graph.IsClosed) (hindexed : graph.IsIndexed)
    {variant : String} (hstep : graph.Expands name variant) : variant ∈ graph.index.names := by
  rcases hstep.cases with ⟨type, members, hget, hshape, hmem⟩ | ⟨type, htype, rfl⟩
  · have htype : type ∈ graph.types := ((hindexed name type).1 hget).1
    exact hclosed type htype variant
      (TypeDef.mem_references_iff.2 (.inr (.inr ⟨members, hshape, hmem⟩)))
  · exact Entries.mem_names_of_get? (hindexed.get?_name (mem_objects_iff.1 htype).1)

theorem IsClosed.mem_names_of_reachesBy (hclosed : graph.IsClosed) (hindexed : graph.IsIndexed)
    (hname : name ∈ graph.index.names) {last : String} {calls : List Call}
    (hpath : graph.ReachesBy name last calls) : last ∈ graph.index.names := by
  induction hpath with
  | here name => exact hname
  | variant hstep _ ih => exact ih (hclosed.mem_names_of_expands hindexed hstep)

variable [Runtime]

/-! ## One step of an expansion -/

theorem nodesBelow_eq_mapM (graph : TypeGraph) (describe : Bool) (under : List Call)
    (chain names : List String) :
    graph.nodesBelow describe under chain names =
      names.mapM (graph.nodeBelow describe under chain) := by
  induction names with
  | nil => rw [nodesBelow]; rfl
  | cons name rest ih =>
      rw [nodesBelow, List.mapM_cons, ih]
      cases graph.nodeBelow describe under chain name with
      | error e => rfl
      | ok node => cases rest.mapM (graph.nodeBelow describe under chain) <;> rfl

theorem nodeBelow_of_full (hnew : name ∉ chain)
    (hfull : Runtime.hasRoom (.resolveType name :: under) = false) :
    graph.nodeBelow describe under chain name = .error .tooDeep := by
  rw [nodeBelow, dif_neg hnew, inRoom_eq_error_iff]
  exact .inl ⟨hfull, rfl⟩

theorem nodeBelow_of_get?_eq_none (hnew : name ∉ chain)
    (hroom : Runtime.hasRoom (.resolveType name :: under) = true)
    (hget : graph.index.get? name = none) :
    graph.nodeBelow describe under chain name = .error (.unknownType name) := by
  rw [nodeBelow, dif_neg hnew, inRoom_of_hasRoom hroom]
  split
  · rfl
  · next type hsome => rw [hget] at hsome; contradiction

/-- One step of an expansion: the node of a type, made of the nodes of its variants. -/
theorem nodeBelow_of_get? {type : TypeDef} (hnew : name ∉ chain)
    (hroom : Runtime.hasRoom (.resolveType name :: under) = true)
    (hget : graph.index.get? name = some type) :
    graph.nodeBelow describe under chain name =
      match graph.alternatives type with
      | .error e => .error e
      | .ok none => .ok (leafNode describe type)
      | .ok (some variants) =>
          (variants.mapM
            (graph.nodeBelow describe (intoVariants name under) (name :: chain))).map
            (.anyOf (variantNote describe "Any of: " variants)) := by
  rw [nodeBelow, dif_neg hnew, inRoom_of_hasRoom hroom]
  split
  · next hnone => rw [hget] at hnone; contradiction
  · next other hother =>
      rw [hget, Option.some.injEq] at hother
      subst other
      rcases type with ⟨own, description, directives, shape⟩
      cases shape with
      | interface fields interfaces => simp only [alternatives, nodesBelow_eq_mapM]
      | union members =>
          simp only [alternatives]
          cases graph.members own with
          | error e => rfl
          | ok variants => simp only [Except.map, nodesBelow_eq_mapM]
      | scalar => rfl
      | enum values => rfl
      | object fields interfaces => rfl
      | other => rfl

theorem nodeBelow_of_get?_eq_some {type : TypeDef} (hnew : name ∉ chain)
    (hroom : Runtime.hasRoom (.resolveType name :: under) = true)
    (hget : graph.index.get? name = some type) (hname : type.name = name) :
    graph.nodeBelow describe under chain name =
      match graph.variants? type with
      | none => .ok (leafNode describe type)
      | some variants =>
          (variants.mapM
            (graph.nodeBelow describe (intoVariants name under) (name :: chain))).map
            (.anyOf (variantNote describe "Any of: " variants)) := by
  rw [nodeBelow_of_get? hnew hroom hget, alternatives_eq_variants? hget hname]
  cases graph.variants? type <;> rfl

/-! ## The outcome -/

theorem LeadsTooFar.of_expands {next : String} (hstep : graph.Expands name next)
    (hfar : graph.LeadsTooFar (intoVariants name under) next) : graph.LeadsTooFar under name := by
  obtain ⟨last, calls, hpath, hfull⟩ := hfar
  refine ⟨last, _, .variant hstep hpath, ?_⟩
  rw [List.append_assoc]
  exact hfull

theorem LeadsTooFar.cases (hfar : graph.LeadsTooFar under name) :
    Runtime.hasRoom (.resolveType name :: under) = false ∨
      ∃ next, graph.Expands name next ∧ graph.LeadsTooFar (intoVariants name under) next := by
  obtain ⟨last, calls, hpath, hfull⟩ := hfar
  cases hpath with
  | here => exact .inl hfull
  | variant hstep hrest =>
      rw [List.append_assoc] at hfull
      exact .inr ⟨_, hstep, last, _, hrest, hfull⟩

private theorem outcome_of_expands {next : String} (hstep : graph.Expands name next)
    {e : GraphError} (houtcome : graph.Outcome (intoVariants name under) next (.error e)) :
    graph.Outcome under name (.error e) := by
  cases houtcome with
  | tooDeep hfar => exact .tooDeep (hfar.of_expands hstep)
  | unknown last calls hpath hunknown => exact .unknown last _ (.variant hstep hpath) hunknown

/-- A name has come to its end where all its variants have. -/
private theorem outcome_of_ok (hmem : name ∈ graph.index.names)
    (hroom : Runtime.hasRoom (.resolveType name :: under) = true)
    (hall : ∀ next, graph.Expands name next →
      ∃ sub, graph.Outcome (intoVariants name under) next (.ok sub)) (node : Node) :
    graph.Outcome under name (.ok node) := by
  refine .finished node ?_ ?_
  · intro last calls hpath
    cases hpath with
    | here => exact hmem
    | variant hstep hrest =>
        obtain ⟨sub, houtcome⟩ := hall _ hstep
        cases houtcome with
        | finished _ hknown hnear => exact hknown _ _ hrest
  · intro hfar
    rcases hfar.cases with hfull | ⟨next, hstep, hfar⟩
    · rw [hroom] at hfull
      contradiction
    · obtain ⟨sub, houtcome⟩ := hall next hstep
      cases houtcome with
      | finished _ hknown hnear => exact hnear hfar

private theorem outcome_of_variants {type : TypeDef} {variants : List String}
    {f : String → Except GraphError Node} (hget : graph.index.get? name = some type)
    (hvariants : graph.variants? type = some variants)
    (hroom : Runtime.hasRoom (.resolveType name :: under) = true)
    (hall : ∀ variant ∈ variants, graph.Outcome (intoVariants name under) variant (f variant))
    (g : List Node → Node) :
    graph.Outcome under name ((variants.mapM f).map g) := by
  have hexpands : ∀ variant, graph.Expands name variant ↔ variant ∈ variants := by
    intro variant
    rw [expands_iff hget, hvariants]
    simp
  cases hnodes : variants.mapM f with
  | error e =>
      obtain ⟨variant, hin, herror⟩ := Results.exists_error_of_mapM hnodes
      have houtcome := hall variant hin
      rw [herror] at houtcome
      exact outcome_of_expands ((hexpands variant).2 hin) houtcome
  | ok nodes =>
      refine outcome_of_ok (Entries.mem_names_of_get? hget) hroom (fun next hstep => ?_) _
      have hin : next ∈ variants := (hexpands next).1 hstep
      obtain ⟨node, -, hok⟩ :=
        Results.exists_right_of_forall₂ (Results.mapM_eq_ok_iff.1 hnodes) hin
      have houtcome := hall next hin
      rw [hok] at houtcome
      exact ⟨node, houtcome⟩

theorem nodeBelow_outcome (hgraph : graph.IsExpandable) (describe : Bool) (under : List Call)
    (chain : List String) (name : String)
    (hchain : ∀ other ∈ chain, Relation.TransGen graph.Expands other name) :
    graph.Outcome under name (graph.nodeBelow describe under chain name) := by
  -- Each step puts a name of the graph on the chain, which is new because no expansion leads back
  -- to its start; so the room that the chain leaves gets smaller.
  induction hfree : Chain.room graph.index.names chain using Nat.strongRecOn
    generalizing under chain name with
  | ind free ih =>
      have hnew : name ∉ chain := fun hmem => hgraph.finite name (hchain name hmem)
      cases hroom : Runtime.hasRoom (.resolveType name :: under) with
      | false =>
          rw [nodeBelow_of_full hnew hroom]
          exact .tooDeep ⟨name, _, .here name, hroom⟩
      | true =>
          cases hget : graph.index.get? name with
          | none =>
              rw [nodeBelow_of_get?_eq_none hnew hroom hget]
              exact .unknown name _ (.here name) (Entries.get?_eq_none_iff.1 hget)
          | some type =>
              rw [nodeBelow_of_get?_eq_some hnew hroom hget (hgraph.isNamed name type hget)]
              cases hvariants : graph.variants? type with
              | none =>
                  refine outcome_of_ok (Entries.mem_names_of_get? hget) hroom ?_ _
                  intro next hstep
                  obtain ⟨variants, hsome, -⟩ := (expands_iff hget).1 hstep
                  rw [hvariants] at hsome
                  contradiction
              | some variants =>
                  refine outcome_of_variants hget hvariants hroom (fun variant hin => ?_) _
                  have hstep : graph.Expands name variant :=
                    (expands_iff hget).2 ⟨variants, hvariants, hin⟩
                  refine ih _ ?_ _ (name :: chain) variant ?_ rfl
                  · rw [← hfree]
                    exact Chain.room_cons_lt (Entries.mem_names_of_get? hget) hnew
                  · intro other hother
                    rcases List.mem_cons.1 hother with rfl | hother
                    · exact .single hstep
                    · exact (hchain other hother).tail hstep

theorem node_outcome (hgraph : graph.IsExpandable) (describe : Bool) (name : String)
    (under : List Call) : graph.Outcome under name (graph.node describe name under) :=
  nodeBelow_outcome hgraph describe under [] name (by simp)

/-! ## Nodes without chains -/

theorem bounds_of_nodeBelow {node : Node}
    (hok : graph.nodeBelow describe under chain name = .ok node) :
    name ∉ chain ∧ Runtime.hasRoom (.resolveType name :: under) = true := by
  rw [nodeBelow] at hok
  by_cases hold : name ∈ chain
  · rw [dif_pos hold] at hok
    contradiction
  · rw [dif_neg hold, inRoom_eq_ok_iff] at hok
    exact ⟨hold, hok.1⟩

theorem nodeBelow_mono {shorter : List String} {fewer : List Call} (hsub : shorter ⊆ chain)
    (hcalls : fewer.Sublist under) {node : Node}
    (hok : graph.nodeBelow describe under chain name = .ok node) :
    graph.nodeBelow describe fewer shorter name = .ok node := by
  induction hfree : Chain.room graph.index.names chain using Nat.strongRecOn
    generalizing under fewer chain shorter name node with
  | ind free ih =>
      obtain ⟨hnew, hroom⟩ := bounds_of_nodeBelow hok
      have hnew' : name ∉ shorter := fun hmem => hnew (hsub hmem)
      have hroom' := Runtime.hasRoom_of_sublist (hcalls.cons_cons (.resolveType name)) hroom
      cases hget : graph.index.get? name with
      | none =>
          rw [nodeBelow_of_get?_eq_none hnew hroom hget] at hok
          contradiction
      | some type =>
          rw [nodeBelow_of_get? hnew hroom hget] at hok
          rw [nodeBelow_of_get? hnew' hroom' hget]
          rcases halternatives : graph.alternatives type with e | _ | variants
          · simp only [halternatives] at hok
            contradiction
          · simpa only [halternatives] using hok
          · simp only [halternatives] at hok ⊢
            obtain ⟨nodes, hnodes, rfl⟩ := Results.map_eq_ok_iff.1 hok
            refine Results.map_eq_ok_iff.2 ⟨nodes, ?_, rfl⟩
            rw [Results.mapM_eq_ok_iff] at hnodes ⊢
            refine hnodes.imp fun variant variantNode hvariant => ?_
            refine ih _ ?_ (List.cons_subset_cons name hsub) (intoVariants_sublist name hcalls)
              hvariant rfl
            rw [← hfree]
            exact Chain.room_cons_lt (Entries.mem_names_of_get? hget) hnew

theorem node_mono {fewer : List Call} (hcalls : fewer.Sublist under) {node : Node}
    (hok : graph.node describe name under = .ok node) :
    graph.node describe name fewer = .ok node :=
  nodeBelow_mono (List.Subset.refl _) hcalls hok

/-- A node that comes out is that of a type without variants, or offers the nodes of its
variants. -/
theorem exists_alternatives_of_node {node : Node}
    (hok : graph.node describe name under = .ok node) :
    ∃ type, graph.index.get? name = some type ∧
      (graph.alternatives type = .ok none ∧ node = leafNode describe type ∨
        ∃ variants nodes, graph.alternatives type = .ok (some variants) ∧
          List.Forall₂ (fun variant node => graph.node describe variant under = .ok node)
            variants nodes ∧
          node = .anyOf (variantNote describe "Any of: " variants) nodes) := by
  rw [TypeGraph.node] at hok
  obtain ⟨hnew, hroom⟩ := bounds_of_nodeBelow hok
  cases hget : graph.index.get? name with
  | none =>
      rw [nodeBelow_of_get?_eq_none hnew hroom hget] at hok
      contradiction
  | some type =>
      rw [nodeBelow_of_get? hnew hroom hget] at hok
      refine ⟨type, rfl, ?_⟩
      rcases halternatives : graph.alternatives type with e | _ | variants
      · simp only [halternatives] at hok
        contradiction
      · simp only [halternatives, Except.ok.injEq] at hok
        exact .inl ⟨rfl, hok.symm⟩
      · simp only [halternatives] at hok
        obtain ⟨nodes, hnodes, rfl⟩ := Results.map_eq_ok_iff.1 hok
        refine .inr ⟨variants, nodes, rfl, ?_, rfl⟩
        refine (Results.mapM_eq_ok_iff.1 hnodes).imp fun variant variantNode hvariant => ?_
        exact nodeBelow_mono (by simp) (sublist_intoVariants name under) hvariant

theorem exists_type_of_node
    (hname : graph.IsNamed)
    {node : Node} (hok : graph.node describe name under = .ok node) :
    ∃ type, graph.index.get? name = some type ∧
      (graph.variants? type = none ∧ node = leafNode describe type ∨
        ∃ variants nodes, graph.variants? type = some variants ∧
          List.Forall₂ (fun variant node => graph.node describe variant under = .ok node)
            variants nodes ∧
          node = .anyOf (variantNote describe "Any of: " variants) nodes) := by
  obtain ⟨type, hget, hcases⟩ := exists_alternatives_of_node hok
  rw [alternatives_eq_variants? hget (hname name type hget)] at hcases
  simp only [Except.ok.injEq] at hcases
  exact ⟨type, hget, hcases⟩

end TypeGraph

end ConfigSchema
