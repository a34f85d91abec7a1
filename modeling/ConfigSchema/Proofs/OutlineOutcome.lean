import ConfigSchema.Docs.Fragment
import ConfigSchema.Proofs.GraphReferences
import ConfigSchema.Proofs.Results

/-!
# What an outline comes to

An outline succeeds only if every name below its items stands for a type.  A type on the chain is
not expanded again, but nothing is lost by that: what stands below it is listed where it was
expanded first.
-/

namespace ConfigSchema

/-- What is listed below a type; nothing for a type of a kind without parts. -/
def TypeDef.parts (type : TypeDef) : List Item :=
  type.parts?.getD []

theorem TypeDef.parts_of_isObject {type : TypeDef} (hkind : type.isObject = true) :
    type.parts = type.fields.map .field := by
  obtain ⟨fields, interfaces, hshape⟩ := TypeDef.isObject_iff.1 hkind
  simp only [TypeDef.parts, TypeDef.parts?, TypeDef.fields, TypeDef.fields?, hshape,
    Option.getD_some]

theorem TypeDef.target_mem_references {type : TypeDef} {part : Item} (hpart : part ∈ type.parts) :
    part.target ∈ type.references := by
  have hfield : ∀ fields : List Field, part ∈ fields.map Item.field →
      part.target ∈ fields.map (·.type.base) := by
    intro fields hmem
    obtain ⟨field, hfield, rfl⟩ := List.mem_map.1 hmem
    exact List.mem_map_of_mem hfield
  unfold TypeDef.parts TypeDef.parts? at hpart
  unfold TypeDef.references
  cases hshape : type.shape with
  | object fields interfaces =>
      rw [hshape] at hpart
      exact List.mem_append_left _ (hfield fields hpart)
  | interface fields interfaces =>
      rw [hshape] at hpart
      exact List.mem_append_left _ (hfield fields hpart)
  | union members =>
      rw [hshape] at hpart
      obtain ⟨member, hmember, rfl⟩ := List.mem_map.1 hpart
      exact hmember
  | scalar => simp [hshape] at hpart
  | enum values => simp [hshape] at hpart
  | other => simp [hshape] at hpart

namespace TypeGraph

/-- A name is that of an item, or of a part of a type below it that is not on the chain. -/
inductive Below (graph : TypeGraph) (chain : List String) (items : List Item) : String → Prop
  | here {item : Item} (hitem : item ∈ items) : Below graph chain items item.target
  | deeper {name : String} {type : TypeDef} {part : Item} (h : Below graph chain items name)
      (hget : graph.index.get? name = some type) (hnew : type.name ∉ chain)
      (hpart : part ∈ type.parts) : Below graph chain items part.target

/-- A type leads to the names of its parts and to those of the types that they lead to. -/
def LeadsTo (graph : TypeGraph) (type : TypeDef) (name : String) : Prop :=
  graph.Below [] type.parts name

inductive Listing (graph : TypeGraph) (chain : List String) (items : List Item) :
    Except GraphError Unit → Prop
  | finished (hall : ∀ name, graph.Below chain items name → name ∈ graph.index.names) :
      Listing graph chain items (.ok ())
  | tooDeep : Listing graph chain items (.error .tooDeep)
  | unknown (name : String) (hbelow : graph.Below chain items name)
      (hunknown : name ∉ graph.index.names) : Listing graph chain items (.error (.unknownType name))

variable {graph : TypeGraph} {chain : List String} {item : Item} {items rest : List Item}
  {name : String} {type : TypeDef}

/-! ## Names below items -/

theorem Below.mono (hsub : ∀ other ∈ rest, other ∈ items) (hbelow : graph.Below chain rest name) :
    graph.Below chain items name := by
  induction hbelow with
  | here hitem => exact .here (hsub _ hitem)
  | deeper _ hget hnew hpart ih => exact .deeper ih hget hnew hpart

theorem not_below_nil : ¬ graph.Below chain [] name := by
  intro hbelow
  induction hbelow with
  | here hitem => simp at hitem
  | deeper _ _ _ _ ih => exact ih

theorem Below.of_longer (hbelow : graph.Below (type.name :: chain) items name) :
    graph.Below chain items name := by
  induction hbelow with
  | here hitem => exact .here hitem
  | deeper _ hget hnew hpart ih =>
      have hshorter := fun hmem => hnew (List.mem_cons_of_mem type.name hmem)
      exact .deeper ih hget hshorter hpart

theorem Below.of_parts (hitem : item ∈ items) (hget : graph.index.get? item.target = some type)
    (hnew : type.name ∉ chain) (hbelow : graph.Below (type.name :: chain) type.parts name) :
    graph.Below chain items name := by
  induction hbelow with
  | here hpart => exact .deeper (.here hitem) hget hnew hpart
  | deeper _ hnext hother hpart ih =>
      have hshorter := fun hmem => hother (List.mem_cons_of_mem type.name hmem)
      exact .deeper ih hnext hshorter hpart

theorem below_cons_cases (hbelow : graph.Below chain (item :: rest) name) :
    name = item.target ∨ graph.Below chain rest name ∨
      ∃ type, graph.index.get? item.target = some type ∧ type.name ∉ chain ∧
        graph.Below chain type.parts name := by
  induction hbelow with
  | here hitem =>
      rcases List.mem_cons.1 hitem with rfl | hrest
      · exact .inl rfl
      · exact .inr (.inl (.here hrest))
  | deeper _ hget hnew hpart ih =>
      rcases ih with rfl | hrest | ⟨first, hfirst, hopen, hparts⟩
      · exact .inr (.inr ⟨_, hget, hnew, .here hpart⟩)
      · exact .inr (.inl (.deeper hrest hget hnew hpart))
      · exact .inr (.inr ⟨first, hfirst, hopen, .deeper hparts hget hnew hpart⟩)

theorem Below.without_return
    (hname : graph.IsNamed)
    (hself : graph.index.get? type.name = some type)
    (hbelow : graph.Below chain type.parts name) :
    graph.Below (type.name :: chain) type.parts name := by
  -- A way that comes back to the type may begin after its last return.
  induction hbelow with
  | here hpart => exact .here hpart
  | @deeper other next part _ hget hnew hpart ih =>
      by_cases hreturn : next.name = type.name
      · have hsame : next = type := by
          have hother := hname other next hget
          rw [← hother, hreturn, hself, Option.some.injEq] at hget
          exact hget.symm
        rw [hsame] at hpart
        exact .here hpart
      · have hfresh : next.name ∉ type.name :: chain := by
          rw [List.mem_cons, not_or]
          exact ⟨hreturn, hnew⟩
        exact .deeper ih hget hfresh hpart

/-! ## One item after the other -/

theorem listing_nil : graph.Listing chain [] (.ok ()) := by
  apply Listing.finished
  intro name hbelow
  exact absurd hbelow not_below_nil

theorem Listing.cons
    (hname : graph.IsNamed)
    (hget : graph.index.get? item.target = some type)
    (hparts : type.name ∉ chain → graph.Listing (type.name :: chain) type.parts (.ok ()))
    {result : Except GraphError Unit} (hrest : graph.Listing chain rest result) :
    graph.Listing chain (item :: rest) result := by
  have hlater : ∀ other ∈ rest, other ∈ item :: rest := by
    intro other hother
    exact List.mem_cons_of_mem item hother
  cases hrest with
  | finished hall =>
      apply Listing.finished
      intro name hbelow
      rcases below_cons_cases hbelow with rfl | hbelow | ⟨other, hother, hnew, hbelow⟩
      · exact List.mem_map_of_mem (Entries.mem_of_get? hget)
      · exact hall name hbelow
      · rw [hget, Option.some.injEq] at hother
        subst hother
        have hself : graph.index.get? type.name = some type := by
          rw [hname _ _ hget]
          exact hget
        have hfresh := hbelow.without_return hname hself
        cases hparts hnew with
        | finished hparts => exact hparts name hfresh
  | tooDeep => exact .tooDeep
  | unknown name hbelow hunknown => exact .unknown name (hbelow.mono hlater) hunknown

theorem Listing.of_parts_error (hget : graph.index.get? item.target = some type)
    (hnew : type.name ∉ chain) {e : GraphError}
    (hparts : graph.Listing (type.name :: chain) type.parts (.error e)) :
    graph.Listing chain (item :: rest) (.error e) := by
  cases hparts with
  | tooDeep => exact .tooDeep
  | unknown name hbelow hunknown =>
      exact .unknown name (hbelow.of_parts List.mem_cons_self hget hnew) hunknown

theorem leadsTo_iff (hname : graph.IsNamed)
    (hself : graph.index.get? type.name = some type) :
    graph.LeadsTo type name ↔ graph.Below [type.name] type.parts name := by
  constructor
  · intro hleads
    exact hleads.without_return hname hself
  · intro hbelow
    exact hbelow.of_longer

variable [Runtime] {under : List Call}

theorem outline_of_unknown {level : Int} (hroom : Runtime.hasRoom (item.calls ++ under) = true)
    (hget : graph.index.get? item.target = none) :
    graph.outline chain level under (item :: rest) =
      Traced.ofExcept (.error (.unknownType item.target)) := by
  rw [outline, if_neg (by simp [hroom])]
  split
  · rfl
  · next type hsome =>
      rw [hget] at hsome
      contradiction

theorem outline_listing (hname : graph.IsNamed) (chain : List String) (level : Int)
    (under : List Call) (items : List Item) :
    graph.Listing chain items (graph.outline chain level under items).result := by
  fun_induction graph.outline chain level under items with
  | case1 chain level under => exact listing_nil
  | case2 chain level under item rest hfull => exact .tooDeep
  | case3 chain level under item rest hroom hnone =>
      exact .unknown item.target (.here List.mem_cons_self) (Entries.get?_eq_none_iff.1 hnone)
  | case4 chain level under item rest hroom type hget hparts ih =>
      have hempty : type.parts = [] := by
        rw [TypeDef.parts, hparts]
        rfl
      apply ih.cons hname hget
      intro _
      rw [hempty]
      exact listing_nil
  | case5 chain level under item rest hroom type hget parts hparts hchain ih =>
      apply ih.cons hname hget
      intro hnew
      exact absurd hchain hnew
  | case6 chain level under item rest hroom type hget parts hparts hnew ihparts ih =>
      have hsame : type.parts = parts := by
        rw [TypeDef.parts, hparts]
        rfl
      rw [← hsame] at ihparts ⊢
      cases hresult : (graph.outline (type.name :: chain) (level + 1) (type.partsCalls ++ under)
          type.parts).result with
      | error e =>
          rw [hresult] at ihparts
          rw [Traced.result_bind, Traced.result_bind, hresult]
          exact ihparts.of_parts_error hget hnew
      | ok _ =>
          rw [hresult] at ihparts
          rw [Traced.result_bind, Traced.result_bind, hresult]
          exact ih.cons hname hget fun _ => ihparts

/-! ## Fragments -/

/-- The calls that are active when the fields of a type are listed. -/
def whileListing (under : List Call) : List Call :=
  .renderField :: .renderFields :: under

theorem fragmentOf_of_isObject (hkind : type.isObject = true) :
    graph.fragmentOf type under =
      let outline := graph.outline [type.name] 0 (whileListing (.renderType :: under)) type.parts
      inRoom (.renderFields :: .renderType :: under)
        (outline.result.map fun _ =>
          fragmentText type.description (outline.trail.map Line.render)) := by
  obtain ⟨fields, interfaces, hshape⟩ := TypeDef.isObject_iff.1 hkind
  unfold fragmentOf fieldLines TypeDef.parts TypeDef.parts? TypeDef.fields? inRoom whileListing
  simp only [hshape, Option.getD_some]
  split
  · cases (graph.outline [type.name] 0 _ (fields.map .field)).result <;> rfl
  · rfl

theorem fragmentOf_outcome (hname : graph.IsNamed)
    (hself : graph.index.get? type.name = some type) (hkind : type.isObject = true)
    (under : List Call) :
    (∃ text, graph.fragmentOf type under = .ok text) ∧
        (∀ name, graph.LeadsTo type name → name ∈ graph.index.names) ∨
      graph.fragmentOf type under = .error .tooDeep ∨
      ∃ name, graph.LeadsTo type name ∧ name ∉ graph.index.names ∧
        graph.fragmentOf type under = .error (.unknownType name) := by
  have hlisting :=
    outline_listing hname [type.name] 0 (whileListing (.renderType :: under)) type.parts
  rw [fragmentOf_of_isObject hkind]
  simp only
  by_cases hroom : Runtime.hasRoom (.renderFields :: .renderType :: under) = true
  swap
  · exact .inr (.inl (inRoom_eq_error_iff.2 (.inl ⟨Bool.not_eq_true _ ▸ hroom, rfl⟩)))
  rw [inRoom_of_hasRoom hroom]
  generalize graph.outline [type.name] 0 (whileListing (.renderType :: under)) type.parts = outline
    at hlisting ⊢
  cases hresult : outline.result with
  | ok _ =>
      rw [hresult] at hlisting
      cases hlisting with
      | finished hall =>
          refine .inl ⟨⟨_, rfl⟩, ?_⟩
          intro name hleads
          exact hall name ((leadsTo_iff hname hself).1 hleads)
  | error e =>
      rw [hresult] at hlisting
      cases hlisting with
      | tooDeep => exact .inr (.inl rfl)
      | unknown name hbelow hunknown =>
          exact .inr (.inr ⟨name, (leadsTo_iff hname hself).2 hbelow, hunknown, rfl⟩)

theorem fragments_outcome (hindexed : graph.IsIndexed) (settings : Settings) :
    (∃ fragments, graph.fragments settings = .ok fragments) ∧
        (∀ type ∈ graph.documented, ∀ name, graph.LeadsTo type name →
          name ∈ graph.index.names) ∨
      graph.fragments settings = .error .tooDeep ∨
      ∃ type ∈ graph.documented, ∃ name, graph.LeadsTo type name ∧
        name ∉ graph.index.names ∧ graph.fragments settings = .error (.unknownType name) := by
  have hname := hindexed.isNamed
  have hobject : ∀ type ∈ graph.documented,
      graph.index.get? type.name = some type ∧ type.isObject = true := by
    intro type htype
    obtain ⟨hmem, hkind⟩ := mem_objects_iff.1 (List.mem_of_mem_filter htype)
    exact ⟨hindexed.get?_name hmem, hkind⟩
  cases hfragments : graph.fragments settings with
  | ok fragments =>
      refine .inl ⟨⟨fragments, rfl⟩, ?_⟩
      intro type htype
      have hall := Results.mapM_eq_ok_iff.1 (inRoom_eq_ok_iff.1 hfragments).2
      obtain ⟨fragment, -, hfragment⟩ := Results.exists_right_of_forall₂ hall htype
      obtain ⟨text, htext, -⟩ := Results.map_eq_ok_iff.1 hfragment
      obtain ⟨hself, hkind⟩ := hobject type htype
      rcases fragmentOf_outcome hname hself hkind [.render] with
        ⟨-, hleads⟩ | hdeep | ⟨name, -, -, hunknown⟩
      · exact hleads
      · rw [htext] at hdeep
        contradiction
      · rw [htext] at hunknown
        contradiction
  | error e =>
      rcases inRoom_eq_error_iff.1 hfragments with ⟨-, rfl⟩ | ⟨-, hfragments⟩
      · exact .inr (.inl rfl)
      obtain ⟨type, htype, herror⟩ := Results.exists_error_of_mapM hfragments
      rw [Results.map_eq_error_iff] at herror
      obtain ⟨hself, hkind⟩ := hobject type htype
      rcases fragmentOf_outcome hname hself hkind [.render] with
        ⟨⟨text, htext⟩, -⟩ | hdeep | ⟨name, hleads, hnot, hunknown⟩
      · rw [herror] at htext
        contradiction
      · rw [herror, Except.error.injEq] at hdeep
        exact .inr (.inl (by rw [hdeep]))
      · rw [herror, Except.error.injEq] at hunknown
        exact .inr (.inr ⟨type, htype, name, hleads, hnot, by rw [hunknown]⟩)

end TypeGraph

end ConfigSchema
