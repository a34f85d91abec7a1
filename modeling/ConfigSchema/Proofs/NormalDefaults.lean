import ConfigSchema.Proofs.NormalLiterals

/-!
# Normal forms of defaults

The literal of a constant that a literal stands for is a normal one.  An object of it is made of
what was given for its fields and of the defaults of the others, which literals stand for, too, so
the induction is on the constant.
-/

namespace ConfigSchema

namespace Schema

variable {schema : Schema} {settled : Settled}

/-! ## List layers -/

/-- A value under list layers. -/
def underLayers : Nat → Sdl.Value → Sdl.Value
  | 0, w => w
  | depth + 1, w => .list [underLayers depth w]

theorem literal_underLists (ref : TypeRef) (depth : Nat) (constant : Constant) :
    literal schema settled ref (underLists depth constant) =
      (literal schema settled ref constant).map (underLayers depth) := by
  induction depth with
  | zero => cases hliteral : literal schema settled ref constant <;>
      simp [underLists, hliteral, Except.map, underLayers]
  | succ depth ih =>
      rw [underLists, literal, literals, ih]
      cases literal schema settled ref constant <;> rfl

theorem sizeOf_le_underLists (depth : Nat) (constant : Constant) :
    sizeOf constant ≤ sizeOf (underLists depth constant) := by
  induction depth with
  | zero => exact Nat.le_refl _
  | succ depth ih =>
      simp only [underLists, Constant.list.sizeOf_spec, List.cons.sizeOf_spec]
      omega

/-- A literal that is normal without list layers is normal under them. -/
theorem isNormal_underLayers [Runtime] {w : Sdl.Value} : (ref : TypeRef) → ref.IsProper →
    (∀ core : TypeRef, core.base = ref.base → core.listDepth = 0 →
      IsNormal schema settled core w) →
    IsNormal schema settled ref (underLayers ref.listDepth w)
  | .named _, _, hcore => hcore _ rfl rfl
  | .list item, hproper, hcore =>
      .list rfl (.cons (isNormal_underLayers item hproper hcore) .nil)
  | .required (.named _), _, hcore => hcore _ rfl rfl
  | .required (.list item), hproper, hcore =>
      .list rfl (.cons (isNormal_underLayers item hproper.2 hcore) .nil)
  | .required (.required _), hproper, _ => nomatch hproper.1

/-! ## Literals of constants -/

theorem ne_null_of_literal {ref : TypeRef} {constant : Constant} {w : Sdl.Value}
    (hliteral : literal schema settled ref constant = .ok w) (hnull : constant ≠ .null) :
    w ≠ .null := by
  rintro rfl
  cases constant with
  | null => exact hnull rfl
  | text text =>
      rw [literal, textLiteral] at hliteral
      split at hliteral <;> cases hliteral
  | float x =>
      rw [literal] at hliteral
      cases x <;> cases hliteral
  | list items =>
      rw [literal] at hliteral
      obtain ⟨_, -, heq⟩ := Results.map_eq_ok_iff.1 hliteral
      cases heq
  | object fields =>
      rw [literal] at hliteral
      split at hliteral
      · obtain ⟨_, -, heq⟩ := Results.map_eq_ok_iff.1 hliteral
        cases heq
      · cases hliteral
  | _ =>
      rw [literal] at hliteral
      cases hliteral

theorem not_literal_compound {ref : TypeRef} {depth : Nat} {w : Sdl.Value}
    (hliteral : literal schema settled ref (underLists depth .compound) = .ok w) : False := by
  rw [literal_underLists] at hliteral
  obtain ⟨_, hcompound, -⟩ := Results.map_eq_ok_iff.1 hliteral
  rw [literal] at hcompound
  cases hcompound

/-! ## Constants that literals stand for -/

/-- A constant that some literal stands for at a type. -/
def Stands [Runtime] (schema : Schema) (settled : Settled) (ref : TypeRef) (constant : Constant) :
    Prop :=
  ∃ v : Sdl.Value, v.IsConstant ∧ fit schema settled ref v = .ok constant

/-- Wherever a literal stands for the constant, the literal of the constant is normal. -/
def HasNormal [Runtime] (schema : Schema) (settled : Settled) (constant : Constant) : Prop :=
  ∀ (ref place : TypeRef) (w : Sdl.Value), ref.IsProper → place.base = ref.base →
    Stands schema settled ref constant → literal schema settled place constant = .ok w →
      IsNormal schema settled ref w

theorem isNormal_of_isPlain [Runtime] {v : Sdl.Value} (hplain : v.isPlain = true)
    (hsound : v.IsConstant)
    {ref place : TypeRef} (href : ref.IsProper) (hplace : place.base = ref.base)
    {constant : Constant} {w : Sdl.Value} (hfit : fit schema settled ref v = .ok constant)
    (hliteral : literal schema settled place constant = .ok w) :
    IsNormal schema settled ref w := by
  rw [fit_of_isPlain hplain] at hfit
  split at hfit
  · cases hfit
  · next type htype =>
      split at hfit
      · next found hfound =>
          cases hfit
          rw [literal_underLists] at hliteral
          obtain ⟨core, hcore, rfl⟩ := Results.map_eq_ok_iff.1 hliteral
          have hname := name_of_type? htype
          have hplainAt := isPlainAt_of_fitPlain hsound hfound (hplace.trans hname.symm) hcore
          apply isNormal_underLayers ref href
          intro bare hbase hdepth
          exact .plain hdepth (hbase ▸ htype) hplainAt
      · cases hfit

theorem areNormal_of_fitAll [Runtime] {item place : TypeRef} (hitem : item.IsProper)
    (hplace : place.base = item.base) {items : List Sdl.Value} (hsound : Sdl.AreConstant items)
    {constants : List Constant}
    (hnormal : ∀ constant ∈ constants, HasNormal schema settled constant) {ws : List Sdl.Value}
    (hfit : fitAll schema settled item items = .ok constants)
    (hliterals : literals schema settled place constants = .ok ws) :
    AreNormal schema settled item ws := by
  induction items generalizing constants ws with
  | nil =>
      rw [fitAll, Except.ok.injEq] at hfit
      subst hfit
      rw [literals, Except.ok.injEq] at hliterals
      exact hliterals ▸ .nil
  | cons v rest ih =>
      have hvariable : v.isVariable = false := by
        cases v <;> first | rfl | exact hsound.1.elim
      rw [fitAll_eq_bind hvariable, Results.bind_eq_ok_iff] at hfit
      obtain ⟨constant, hconstant, hfit⟩ := hfit
      obtain ⟨constants, hconstants, rfl⟩ := Results.map_eq_ok_iff.1 hfit
      obtain ⟨w, others, hw, hothers, rfl⟩ := literals_cons_eq_ok_iff.1 hliterals
      rw [List.forall_mem_cons] at hnormal
      exact .cons (hnormal.1 item place w hitem hplace ⟨v, hsound.1, hconstant⟩ hw)
        (ih hsound.2 hnormal.2 hconstants hothers)

/-! ## Objects -/

section

variable {input : SettledInput} {given : List (String × Except Unfit Constant)}

theorem eq_of_closed {isOneOf : Bool} {fields : List (String × Constant)} {constant : Constant}
    (hclosed : closed isOneOf fields = .ok constant) :
    constant = .object fields ∧
      (isOneOf = true → ∃ name value, fields = [(name, value)] ∧ value ≠ .null) := by
  unfold closed at hclosed
  split at hclosed
  · cases hclosed
    exact ⟨rfl, fun hsingle => nomatch hsingle⟩
  · cases hclosed
  · next name value hnull =>
      cases hclosed
      refine ⟨rfl, fun _ => ⟨_, _, rfl, ?_⟩⟩
      rintro heq
      exact hnull _ (Prod.ext rfl heq)
  · cases hclosed

/-- What is given for a field is what some literal stands for. -/
theorem stands_of_lookup_fitFields [Runtime] {fields : List (String × Sdl.Value)}
    (hsound : Sdl.AreConstantFields fields) {name : String} {constant : Constant}
    (hlookup : (fitFields schema settled input fields).lookup name = some (.ok constant)) :
    ∃ field, input.fields.find? (·.name = name) = some field ∧
      Stands schema settled field.type constant := by
  induction fields with
  | nil =>
      rw [fitFields] at hlookup
      cases hlookup
  | cons first rest ih =>
      obtain ⟨given, v⟩ := first
      rw [lookup_fitFields_cons] at hlookup
      split_ifs at hlookup with hrepeated hname
      · exact ih hsound.2.2 hlookup
      · split at hlookup
        · next field hfield =>
            refine ⟨field, ?_, v, hsound.2.1, Option.some.inj hlookup⟩
            rw [hname]
            exact (Option.filter_eq_some_iff.1 hfield).1
        · exact ih hsound.2.2 hlookup
      · split at hlookup <;> exact ih hsound.2.2 hlookup

/-- The literals of the fields of an object, where literals stand for what is given and for the
defaults. -/
theorem areNormalFields_of_completed [Runtime] {agains : List SettledField}
    (htypes : ∀ field ∈ agains, field.type.IsProper)
    (hgiven : ∀ field ∈ agains, ∀ constant, given.lookup field.name = some (.ok constant) →
      Stands schema settled field.type constant)
    (hdefault : ∀ field ∈ agains, ∀ constant, field.default = some constant →
      Stands schema settled field.type constant)
    (hfind : ∀ field ∈ agains, input.fields.find? (·.name = field.name) = some field)
    {results : List (Option (String × Constant))}
    (hnormal : ∀ pair ∈ results.filterMap id, HasNormal schema settled pair.2)
    {ws : List (String × Sdl.Value)}
    (hresults : agains.mapM (completedField given) = .ok results)
    (hliterals : literalFields schema settled input (results.filterMap id) = .ok ws) :
    AreNormalFields schema settled agains ws := by
  induction agains generalizing results ws with
  | nil =>
      rw [List.mapM_nil] at hresults
      cases hresults
      rw [List.filterMap_nil, literalFields, Except.ok.injEq] at hliterals
      subst hliterals
      exact .nil
  | cons field rest ih =>
      rw [List.forall_mem_cons] at htypes hgiven hdefault hfind
      obtain ⟨first, others, hfirst, hothers, rfl⟩ := Results.mapM_cons_eq_ok_iff.1 hresults
      cases first with
      | none =>
          rw [List.filterMap_cons, id] at hliterals hnormal
          have hrest := ih htypes.2 hgiven.2 hdefault.2 hfind.2 hnormal hothers hliterals
          unfold completedField at hfirst
          split at hfirst
          · obtain ⟨_, -, heq⟩ := Results.map_eq_ok_iff.1 hfirst
            cases heq
          · cases hfirst
          · next hnone =>
              split_ifs at hfirst with hrequired
              exact .left hnone (eq_false_of_ne_true hrequired) hrest
      | some pair =>
          obtain ⟨name, constant⟩ := pair
          rw [List.filterMap_cons, id] at hliterals hnormal
          rw [List.forall_mem_cons] at hnormal
          obtain ⟨found, w, tail, hfound, hw, htail, rfl⟩ :=
            literalFields_cons_eq_ok_iff.1 hliterals
          have hrest := ih htypes.2 hgiven.2 hdefault.2 hfind.2 hnormal.2 hothers htail
          have hstands : name = field.name ∧ Stands schema settled field.type constant := by
            unfold completedField at hfirst
            split at hfirst
            · next result _ hlookup =>
                obtain ⟨told, hresult, heq⟩ := Results.map_eq_ok_iff.1 hfirst
                cases heq
                exact ⟨rfl, hgiven.1 constant (by rw [hlookup, hresult])⟩
            · next _ hsome =>
                cases hfirst
                exact ⟨rfl, hdefault.1 constant hsome⟩
            · split_ifs at hfirst
              cases hfirst
          obtain ⟨rfl, hstands⟩ := hstands
          rw [hfind.1] at hfound
          cases hfound
          exact .given (hnormal.1 field.type field.type w htypes.1 rfl hstands hw) hrest

end

/-- The object that a literal stands for, and the input object that it is of. -/
theorem exists_of_fit_object {ref : TypeRef} {fields : List (String × Sdl.Value)}
    {constant : Constant} (hfit : fit schema settled ref (.object fields) = .ok constant)
    {place : TypeRef} {w : Sdl.Value} (hliteral : literal schema settled place constant = .ok w) :
    ∃ input core, settled.lookup ref.base = some input ∧
      completed input (fitFields schema settled input fields) = .ok core ∧
      constant = underLists ref.listDepth core := by
  rw [fit_object] at hfit
  split at hfit
  · cases hfit
  · next type htype =>
      have hname := name_of_type? htype
      split at hfit
      · split at hfit
        · cases hfit
        · next input hlookup =>
            obtain ⟨core, hcore, rfl⟩ := Results.map_eq_ok_iff.1 hfit
            exact ⟨input, core, hname ▸ hlookup, hcore, rfl⟩
      · split_ifs at hfit
        cases hfit
        exact (not_literal_compound hliteral).elim

/-- The defaults of the input objects of a schema are constants of the language. -/
def HasConstantInputs [Runtime] (schema : Schema) : Prop :=
  ∀ name inputs isOneOf, schema.IsInputObject name inputs isOneOf →
    ∀ input ∈ inputs, ∀ value ∈ input.default, value.IsConstant

theorem stands_of_default [Runtime] (hconstants : schema.HasConstantInputs)
    (hsettlement : schema.IsSettlement settled) {name : String} {input : SettledInput}
    (hlookup : settled.lookup name = some input) {field : SettledField}
    (hfield : field ∈ input.fields) {constant : Constant}
    (hdefault : field.default = some constant) :
    Stands schema settled field.type constant := by
  obtain ⟨inputs, hinput, hfields⟩ := (hsettlement name input hlookup).isInputObject
  obtain ⟨source, hsource, hsettles⟩ := Results.exists_left_of_forall₂ hfields hfield
  have htold := hsettles.default
  rw [hdefault, defaultConstant] at htold
  split at htold
  · cases htold
  · next value hvalue =>
      split at htold
      · next hfit =>
          cases htold
          have hconstant := hconstants name inputs input.isOneOf hinput source hsource value hvalue
          refine ⟨value, hconstant, ?_⟩
          rw [hsettles.type]
          exact hfit
      · cases htold
      · cases htold

/-- The literal of a constant that a literal stands for is normal. -/
theorem hasNormal [Runtime] (hconstants : schema.HasConstantInputs)
    (hsettlement : schema.IsSettlement settled) (hproper : settled.IsProper)
    (constant : Constant) : HasNormal schema settled constant := by
  induction hsize : sizeOf constant using Nat.strong_induction_on generalizing constant with
  | _ size ih =>
  have hsmaller : ∀ other : Constant, sizeOf other < sizeOf constant →
      HasNormal schema settled other := fun other hless => ih _ (hsize ▸ hless) other rfl
  rintro ref place w href hplace ⟨v, hsound, hfit⟩ hliteral
  cases v with
  | «variable» name => exact hsound.elim
  | null =>
      rw [fit] at hfit
      split_ifs at hfit with hrequired
      cases hfit
      rw [literal, Except.ok.injEq] at hliteral
      exact hliteral ▸ .null (eq_false_of_ne_true hrequired)
  | list items =>
      rw [fit_list] at hfit
      cases hitem : ref.item? with
      | some item =>
          rw [hitem] at hfit
          obtain ⟨constants, hfits, rfl⟩ := Results.map_eq_ok_iff.1 hfit
          rw [literal] at hliteral
          obtain ⟨ws, hws, rfl⟩ := Results.map_eq_ok_iff.1 hliteral
          refine .list hitem (areNormal_of_fitAll (href.of_item? hitem)
            (hplace.trans (TypeRef.base_of_item? hitem).symm) hsound (fun other hother => ?_)
              hfits hws)
          apply hsmaller
          have hless := List.sizeOf_lt_of_mem hother
          rw [Constant.list.sizeOf_spec]
          omega
      | none =>
          rw [hitem] at hfit
          dsimp only at hfit
          split at hfit
          · split_ifs at hfit
            cases hfit
            cases hliteral
          · cases hfit
  | object fields =>
      obtain ⟨input, core, hlookup, hcompleted, rfl⟩ := exists_of_fit_object hfit hliteral
      have hinput := hproper _ _ hlookup
      have hfind := find?_of_nodup hinput.nodup
      rw [completed_eq, Results.bind_eq_ok_iff] at hcompleted
      obtain ⟨results, hresults, hclosed⟩ := hcompleted
      obtain ⟨rfl, hsingle⟩ := eq_of_closed hclosed
      rw [literal_underLists] at hliteral
      obtain ⟨inner, hinner, rfl⟩ := Results.map_eq_ok_iff.1 hliteral
      rw [literal, hplace, hlookup] at hinner
      obtain ⟨ws, hws, rfl⟩ := Results.map_eq_ok_iff.1 hinner
      have hfields : AreNormalFields schema settled input.fields ws := by
        refine areNormalFields_of_completed hinput.types ?_
          (fun field hfield constant => stands_of_default hconstants hsettlement hlookup hfield)
          hfind ?_ hresults hws
        · intro field hfield constant hgiven
          obtain ⟨found, hfound, hstands⟩ := stands_of_lookup_fitFields hsound hgiven
          rw [hfind field hfield] at hfound
          cases hfound
          exact hstands
        · intro pair hpair
          apply hsmaller
          have hless := List.sizeOf_lt_of_mem hpair
          have hle := sizeOf_le_underLists ref.listDepth (.object (results.filterMap id))
          have hpart : sizeOf pair.2 < sizeOf pair := by
            cases pair
            simp only [Prod.mk.sizeOf_spec]
            omega
          rw [Constant.object.sizeOf_spec] at hle
          omega
      apply isNormal_underLayers ref href
      intro bare hbase hdepth
      refine .object hdepth (hbase ▸ hlookup) hfields fun hone => ?_
      obtain ⟨name, value, hpairs, hnull⟩ := hsingle hone
      rw [hpairs] at hws
      obtain ⟨field, found, others, -, hfound, hrest, rfl⟩ := literalFields_cons_eq_ok_iff.1 hws
      rw [literalFields, Except.ok.injEq] at hrest
      exact ⟨name, found, by rw [← hrest], ne_null_of_literal hfound hnull⟩
  | int text => exact isNormal_of_isPlain rfl hsound href hplace hfit hliteral
  | float text => exact isNormal_of_isPlain rfl hsound href hplace hfit hliteral
  | string text => exact isNormal_of_isPlain rfl hsound href hplace hfit hliteral
  | boolean b => exact isNormal_of_isPlain rfl hsound href hplace hfit hliteral
  | enum name => exact isNormal_of_isPlain rfl hsound href hplace hfit hliteral

end Schema

end ConfigSchema
