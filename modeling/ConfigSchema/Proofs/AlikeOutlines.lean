import ConfigSchema.Proofs.AlikeDocuments
import ConfigSchema.Proofs.MarkedTypes
import ConfigSchema.Proofs.OutputAgreement

/-!
# Outlines of graphs that list alike

The outlines of two graphs are compared item by item.  Where the items of both have the same lines,
and what is listed below them has so, too, the outlines are the same.  To label a type may take more
room in one graph than in the other; then only one of the outlines may end, which is excused.
-/

namespace ConfigSchema

namespace Traced

variable {ω ε : Type} {excused : ε → Prop}

/-- The trail of a step that succeeds. -/
def wholeTrail (step : Traced ω ε Unit) : Except ε (List ω) :=
  step.result.map fun _ => step.trail

theorem wholeTrail_bind (first second : Traced ω ε Unit) :
    (first >>= fun _ => second).wholeTrail =
      first.wholeTrail.bind fun trail => second.wholeTrail.map (trail ++ ·) := by
  unfold wholeTrail
  cases hfirst : first.result with
  | error e =>
      rw [bind_of_error hfirst]
      rfl
  | ok done =>
      rw [bind_of_ok hfirst]
      cases second.result <;> rfl

theorem agree_andThen {first second rest more : Traced ω ε Unit}
    (hfirst : Results.Agree excused Eq first.wholeTrail second.wholeTrail)
    (hrest : Results.Agree excused Eq rest.wholeTrail more.wholeTrail) :
    Results.Agree excused Eq (first >>= fun _ => rest).wholeTrail
      (second >>= fun _ => more).wholeTrail := by
  rw [wholeTrail_bind, wholeTrail_bind]
  refine hfirst.bind fun trail others heq => ?_
  refine hrest.map fun below others hbelow => ?_
  rw [heq, hbelow]

theorem agree_leave (trail : List ω) :
    Results.Agree excused Eq (leave (ε := ε) trail).wholeTrail (leave trail).wholeTrail :=
  .ok rfl

end Traced

namespace TypeGraph

section

variable [Runtime] {one other : TypeGraph} {excused : GraphError → Prop} {I : Item → Item → Prop}
  {item another : Item} {type found : TypeDef}

/-- Types that stand behind items with the same line, and whose parts belong together. -/
structure LooksAlike (I : Item → Item → Prop) (item another : Item) (type found : TypeDef) :
    Prop where
  name : type.name = found.name
  head : item.head type = another.head found
  partsCalls : type.partsCalls = found.partsCalls
  parts : type.parts? = none ∧ found.parts? = none ∨
    ∃ parts others, type.parts? = some parts ∧ found.parts? = some others ∧
      List.Forall₂ I parts others

/-- Items that belong together have the same lines in two graphs.  The calls that label their types
may differ if it is excused that there is no room for them. -/
structure ListAlike (excused : GraphError → Prop) (I : Item → Item → Prop)
    (one other : TypeGraph) : Prop where
  calls : ∀ item another, I item another → item.calls = another.calls ∨ excused .tooDeep
  type : ∀ item another, I item another →
    item.target = another.target ∧
        one.index.get? item.target = none ∧ other.index.get? another.target = none ∨
      ∃ type found, one.index.get? item.target = some type ∧
        other.index.get? another.target = some found ∧ LooksAlike I item another type found

theorem outline_of_full {graph : TypeGraph} {chain : List String} {level : Int}
    {under : List Call} {item : Item} {rest : List Item}
    (hfull : Runtime.hasRoom (item.calls ++ under) = false) :
    graph.outline chain level under (item :: rest) = Traced.ofExcept (.error .tooDeep) := by
  rw [outline, if_pos (by simp [hfull])]

theorem outline_cons {graph : TypeGraph} {chain : List String} {level : Int} {under : List Call}
    {item : Item} {rest : List Item} {type : TypeDef}
    (hroom : Runtime.hasRoom (item.calls ++ under) = true)
    (hget : graph.index.get? item.target = some type) :
    graph.outline chain level under (item :: rest) =
      match type.parts? with
      | none =>
          Traced.leave [{ level, head := item.head type, ending := .leaf }] >>=
            fun _ => graph.outline chain level under rest
      | some parts =>
          if type.name ∈ chain then
            Traced.leave [{ level, head := item.head type, ending := .backReference type.name }] >>=
              fun _ => graph.outline chain level under rest
          else
            Traced.leave [{ level, head := item.head type, ending := .opened }] >>= fun _ =>
              graph.outline (type.name :: chain) (level + 1) (type.partsCalls ++ under) parts >>=
                fun _ => graph.outline chain level under rest := by
  rw [outline, if_neg (by simp [hroom])]
  split
  · next hnone => rw [hget] at hnone; contradiction
  · next found hfound =>
      rw [hget, Option.some.injEq] at hfound
      subst found
      cases type.parts? with
      | none => rfl
      | some parts => rfl

/-- One step: an item adds a line, and between that and the lines of the rest the lines of what is
opened below it. -/
theorem outline_cons_agree (halike : one.ListAlike excused I other) (hitem : I item another)
    {rest more : List Item} {chain : List String} {level : Int} {under : List Call}
    (hrest : Results.Agree excused Eq (one.outline chain level under rest).wholeTrail
      (other.outline chain level under more).wholeTrail)
    (hbelow : ∀ type parts others, one.index.get? item.target = some type →
      type.name ∉ chain → List.Forall₂ I parts others →
      Results.Agree excused Eq
        (one.outline (type.name :: chain) (level + 1) (type.partsCalls ++ under) parts).wholeTrail
        (other.outline (type.name :: chain) (level + 1) (type.partsCalls ++ under)
          others).wholeTrail) :
    Results.Agree excused Eq (one.outline chain level under (item :: rest)).wholeTrail
      (other.outline chain level under (another :: more)).wholeTrail := by
  cases hroom : Runtime.hasRoom (item.calls ++ under) with
  | false =>
      rw [outline_of_full hroom]
      rcases halike.calls _ _ hitem with hcalls | hexcused
      · rw [hcalls] at hroom
        rw [outline_of_full hroom]
        exact .error GraphError.tooDeep
      · exact .left hexcused _
  | true =>
      cases hroom' : Runtime.hasRoom (another.calls ++ under) with
      | false =>
          rw [outline_of_full hroom']
          rcases halike.calls _ _ hitem with hcalls | hexcused
          · rw [hcalls, hroom'] at hroom
            contradiction
          · exact .right hexcused _
      | true =>
          rcases halike.type _ _ hitem with
            ⟨htarget, hnone, hnone'⟩ | ⟨type, found, hget, hget', hlooks⟩
          · rw [outline_of_unknown hroom hnone, outline_of_unknown hroom' hnone', htarget]
            exact .error _
          · rw [outline_cons hroom hget, outline_cons hroom' hget', ← hlooks.name, ← hlooks.head,
              ← hlooks.partsCalls]
            rcases hlooks.parts with ⟨hparts, hparts'⟩ | ⟨parts, others, hparts, hparts', hall⟩
            · simp only [hparts, hparts']
              exact Traced.agree_andThen (Traced.agree_leave _) hrest
            · simp only [hparts, hparts']
              by_cases hold : type.name ∈ chain
              · rw [if_pos hold, if_pos hold]
                exact Traced.agree_andThen (Traced.agree_leave _) hrest
              · rw [if_neg hold, if_neg hold]
                have hparts := hbelow type parts others hget hold hall
                exact Traced.agree_andThen (Traced.agree_leave _)
                  (Traced.agree_andThen hparts hrest)

theorem outline_agree (halike : one.ListAlike excused I other) {items others : List Item}
    (hitems : List.Forall₂ I items others) (chain : List String) (level : Int)
    (under : List Call) :
    Results.Agree excused Eq (one.outline chain level under items).wholeTrail
      (other.outline chain level under others).wholeTrail := by
  -- A type that is opened puts its name on the chain; on one level the induction is on the items.
  induction hroom : Chain.room one.ownNames chain using Nat.strongRecOn
    generalizing chain level under items others with
  | ind room ih =>
      induction hitems with
      | nil =>
          rw [outline, outline]
          exact .ok rfl
      | cons hitem _ ihrest =>
          refine outline_cons_agree halike hitem ihrest ?_
          intro type parts others hget hnew hparts
          have hless : Chain.room one.ownNames (type.name :: chain) < room := by
            rw [← hroom]
            exact Chain.room_cons_lt (ownName_mem hget) hnew
          exact ih _ hless hparts (type.name :: chain) _ _ rfl

/-! ## Fragments -/

theorem fieldLines_eq_wholeTrail {graph : TypeGraph} {type : TypeDef} {fields : List Field}
    (hfields : type.fields? = some fields) (level : Int) (chain : List String)
    (under : List Call) :
    graph.fieldLines type level chain under =
      inRoom (.renderFields :: under)
        ((graph.outline chain level (whileListing under) type.parts).wholeTrail.map
          (List.map Line.render)) := by
  rw [fieldLines_eq graph level chain under hfields]
  simp only [Traced.wholeTrail]
  cases (graph.outline chain level (whileListing under) type.parts).result <;> rfl

/-- Types whose fragments are told alike. -/
structure DocumentsAlike (I : Item → Item → Prop) (type another : TypeDef) : Prop where
  isObject : type.isObject = true
  isObject' : another.isObject = true
  name : type.name = another.name
  description : type.description = another.description
  parts : List.Forall₂ I type.parts another.parts

theorem fragmentOf_agree (halike : one.ListAlike excused I other) {type another : TypeDef}
    (htypes : DocumentsAlike I type another) (under : List Call) :
    Results.Agree excused Eq (one.fragmentOf type under) (other.fragmentOf another under) := by
  have houtlines := outline_agree halike htypes.parts [type.name] 0
    (whileListing (.renderType :: under))
  rw [fragmentOf, fragmentOf, ← htypes.name, ← htypes.description,
    fieldLines_eq_wholeTrail (TypeDef.fields?_of_isObject htypes.isObject),
    fieldLines_eq_wholeTrail (TypeDef.fields?_of_isObject htypes.isObject')]
  exact (inRoom_agree _ (houtlines.map_eq _)).map_eq _

/-- The fragments of some types. -/
def fragmentsOf (graph : TypeGraph) (settings : Settings) (types : List TypeDef) :
    Except GraphError (List Fragment) :=
  types.mapM fun type =>
    (graph.fragmentOf type [.render]).map fun content =>
      { file := type.name ++ settings.markdownSuffix.display, content, typeName := type.name }

theorem fragmentsOf_agree (halike : one.ListAlike excused I other) {types others : List TypeDef}
    (htypes : List.Forall₂ (DocumentsAlike I) types others) (settings : Settings) :
    Results.Agree excused Eq (one.fragmentsOf settings types)
      (other.fragmentsOf settings others) := by
  have hall : Results.Agree excused (List.Forall₂ Eq) (one.fragmentsOf settings types)
      (other.fragmentsOf settings others) := by
    refine Results.Agree.mapM (htypes.imp fun type another hboth => ?_)
    refine (fragmentOf_agree halike hboth [.render]).map fun text text' heq => ?_
    rw [heq, hboth.name]
  refine hall.imp fun fragments others heq => ?_
  rwa [List.forall₂_eq_eq_eq] at heq

/-- Where all references resolve, there are fragments unless there is no room to make them. -/
theorem fragments_cases {graph : TypeGraph} (hresolved : graph.IsResolved) (settings : Settings) :
    ¬ graph.FragmentsLackRoom ∧ (∃ fragments, graph.fragments settings = .ok fragments) ∨
      graph.FragmentsLackRoom ∧ graph.fragments settings = .error .tooDeep := by
  cases hfragments : graph.fragments settings with
  | ok fragments => exact .inl ⟨not_fragmentsLackRoom hfragments, fragments, rfl⟩
  | error e =>
      obtain rfl : e = .tooDeep := by
        rcases inRoom_eq_error_iff.1 hfragments with ⟨-, he⟩ | ⟨-, herror⟩
        · exact he
        · obtain ⟨type, htype, hfragment⟩ := Results.exists_error_of_mapM herror
          rw [Results.map_eq_error_iff] at hfragment
          have hholds : graph.Holds type :=
            .inl (mem_objects_iff.1 (List.mem_of_mem_filter htype)).1
          exact ((fragmentOf_eq_error_iff hresolved hholds
            (isObject_of_mem_documented htype)).1 hfragment).1
      exact .inr ⟨fragmentsLackRoom_of_tooDeep hfragments, rfl⟩

end

end TypeGraph

end ConfigSchema
