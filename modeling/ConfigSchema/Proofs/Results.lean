import ConfigSchema.Traced
import Mathlib.Data.List.Forall2

/-!
# Results of many steps

A step that is made for every item of a list succeeds as a whole if it succeeds for each item, and
its failure is the failure of the first that fails.  Steps that leave a trail have the results
that they have without it.
-/

namespace ConfigSchema

namespace Results

variable {α β ε : Type}

theorem map_eq_ok_iff {f : α → β} {result : Except ε α} {b : β} :
    result.map f = .ok b ↔ ∃ a, result = .ok a ∧ f a = b := by
  cases result with
  | error e => simp [Except.map]
  | ok a => simp [Except.map]

theorem map_eq_error_iff {f : α → β} {result : Except ε α} {e : ε} :
    result.map f = .error e ↔ result = .error e := by
  cases result with
  | error e' => simp [Except.map]
  | ok a => simp [Except.map]

theorem eq_ok_of_toOption {result : Except ε α} {a : α} (hsome : result.toOption = some a) :
    result = .ok a := by
  cases result with
  | error e => contradiction
  | ok a' => exact congrArg Except.ok (Option.some.inj hsome)

theorem bind_eq_ok_iff {result : Except ε α} {next : α → Except ε β} {b : β} :
    result.bind next = .ok b ↔ ∃ a, result = .ok a ∧ next a = .ok b := by
  cases result with
  | error e => simp [Except.bind]
  | ok a => simp [Except.bind]

theorem mapM_cons_eq_ok_iff {f : α → Except ε β} {item : α} {rest : List α} {results : List β} :
    (item :: rest).mapM f = .ok results ↔
      ∃ first others, f item = .ok first ∧ rest.mapM f = .ok others ∧
        results = first :: others := by
  rw [List.mapM_cons]
  cases hfirst : f item with
  | error e => simp [bind, Except.bind]
  | ok first =>
      cases hrest : rest.mapM f with
      | error e => simp [bind, Except.bind]
      | ok others =>
          simp only [bind, Except.bind, pure, Except.pure, Except.ok.injEq]
          constructor
          · intro heq
            exact ⟨first, others, rfl, rfl, heq.symm⟩
          · rintro ⟨_, _, rfl, rfl, heq⟩
            exact heq.symm

theorem mapM_append_eq_ok_iff {f : α → Except ε β} {items others : List α} {results : List β} :
    (items ++ others).mapM f = .ok results ↔
      ∃ front back, items.mapM f = .ok front ∧ others.mapM f = .ok back ∧
        results = front ++ back := by
  rw [List.mapM_append]
  cases hitems : items.mapM f with
  | error e => simp [bind, Except.bind]
  | ok front =>
      cases hothers : others.mapM f with
      | error e => simp [bind, Except.bind]
      | ok back => simp [bind, Except.bind, pure, Except.pure, eq_comm]

theorem mapM_eq_ok_iff {f : α → Except ε β} {items : List α} {results : List β} :
    items.mapM f = .ok results ↔
      List.Forall₂ (fun item result => f item = .ok result) items results := by
  induction items generalizing results with
  | nil =>
      rw [List.forall₂_nil_left_iff, List.mapM_nil]
      simp [pure, Except.pure, eq_comm]
  | cons item rest ih =>
      rw [mapM_cons_eq_ok_iff, List.forall₂_cons_left_iff]
      constructor
      · rintro ⟨first, others, hfirst, hrest, rfl⟩
        exact ⟨first, others, hfirst, ih.1 hrest, rfl⟩
      · rintro ⟨first, others, hfirst, hrest, rfl⟩
        exact ⟨first, others, hfirst, ih.2 hrest, rfl⟩

/-- Steps that succeed wherever other ones do have the results of these. -/
theorem mapM_eq_ok_of_imp {f g : α → Except ε β} {items : List α} {results : List β}
    (hok : items.mapM f = .ok results)
    (himp : ∀ item ∈ items, ∀ result, f item = .ok result → g item = .ok result) :
    items.mapM g = .ok results := by
  rw [mapM_eq_ok_iff] at hok ⊢
  induction hok with
  | nil => exact .nil
  | cons hfirst _ ih =>
      have hhead := himp _ List.mem_cons_self _ hfirst
      have htail := ih fun item hitem => himp item (List.mem_cons_of_mem _ hitem)
      exact .cons hhead htail

/-- Steps in a row fail as the first of them that fails. -/
theorem mapM_eq_error_iff {f : α → Except ε β} {items : List α} {e : ε} :
    items.mapM f = .error e ↔
      ∃ before item after, items = before ++ item :: after ∧
        (∀ earlier ∈ before, ∃ result, f earlier = .ok result) ∧ f item = .error e := by
  induction items with
  | nil => simp [pure, Except.pure]
  | cons first rest ih =>
      rw [List.mapM_cons]
      cases hfirst : f first with
      | error other =>
          simp only [bind, Except.bind, Except.error.injEq]
          constructor
          · intro heq
            refine ⟨[], first, rest, rfl, by simp, ?_⟩
            rw [hfirst, heq]
          · rintro ⟨before, item, after, hsplit, hbefore, herror⟩
            cases before with
            | nil =>
                rcases List.cons.inj hsplit with ⟨rfl, -⟩
                rw [hfirst, Except.error.injEq] at herror
                exact herror
            | cons head before =>
                rcases List.cons.inj hsplit with ⟨rfl, -⟩
                rcases hbefore first List.mem_cons_self with ⟨result, hok⟩
                rw [hfirst] at hok
                contradiction
      | ok result =>
          have hrest : (do
              let other ← Except.ok result
              let others ← rest.mapM f
              pure (other :: others) : Except ε (List β)) = .error e ↔
                rest.mapM f = .error e := by
            cases rest.mapM f <;> simp [bind, Except.bind, pure, Except.pure]
          rw [hrest, ih]
          constructor
          · rintro ⟨before, item, after, rfl, hbefore, herror⟩
            refine ⟨first :: before, item, after, rfl, ?_, herror⟩
            intro earlier hearlier
            rcases List.mem_cons.1 hearlier with rfl | hearlier
            · exact ⟨result, hfirst⟩
            · exact hbefore earlier hearlier
          · rintro ⟨before, item, after, hsplit, hbefore, herror⟩
            cases before with
            | nil =>
                rcases List.cons.inj hsplit with ⟨rfl, -⟩
                rw [hfirst] at herror
                contradiction
            | cons head before =>
                rcases List.cons.inj hsplit with ⟨rfl, rfl⟩
                refine ⟨before, item, after, rfl, ?_, herror⟩
                intro earlier hearlier
                exact hbefore earlier (List.mem_cons_of_mem _ hearlier)

theorem exists_error_of_mapM {f : α → Except ε β} {items : List α} {e : ε}
    (herror : items.mapM f = .error e) : ∃ item ∈ items, f item = .error e := by
  rcases mapM_eq_error_iff.1 herror with ⟨before, item, after, rfl, -, hitem⟩
  exact ⟨item, by simp, hitem⟩

theorem exists_right_of_forall₂ {R : α → β → Prop} {items : List α} {results : List β}
    (hall : List.Forall₂ R items results) {item : α} (hmem : item ∈ items) :
    ∃ result ∈ results, R item result := by
  induction hall with
  | nil => simp at hmem
  | @cons first result rest others hfirst _ ih =>
      rcases List.mem_cons.1 hmem with rfl | hrest
      · exact ⟨result, List.mem_cons_self, hfirst⟩
      · obtain ⟨other, hother, hR⟩ := ih hrest
        exact ⟨other, List.mem_cons_of_mem result hother, hR⟩

theorem exists_right_of_both {R S : α → β → Prop} {items : List α} {results : List β}
    (hfirst : List.Forall₂ R items results) (hsecond : List.Forall₂ S items results) {item : α}
    (hmem : item ∈ items) : ∃ result, R item result ∧ S item result := by
  induction hfirst with
  | nil => simp at hmem
  | cons hR _ ih =>
      obtain ⟨hS, hrest⟩ := List.forall₂_cons.1 hsecond
      rcases List.mem_cons.1 hmem with rfl | hlater
      · exact ⟨_, hR, hS⟩
      · exact ih hrest hlater

theorem exists_left_of_forall₂ {R : α → β → Prop} {items : List α} {results : List β}
    (hall : List.Forall₂ R items results) {result : β} (hmem : result ∈ results) :
    ∃ item ∈ items, R item result := by
  obtain ⟨item, hitem, hR⟩ := exists_right_of_forall₂ hall.flip hmem
  exact ⟨item, hitem, hR⟩

/-- Steps that may find nothing find something for every item or nothing at all. -/
theorem mapM_eq_some_iff {f : α → Option β} {items : List α} {results : List β} :
    items.mapM f = some results ↔
      List.Forall₂ (fun item result => f item = some result) items results := by
  induction items generalizing results with
  | nil =>
      rw [List.forall₂_nil_left_iff, List.mapM_nil]
      simp [pure, eq_comm]
  | cons item rest ih =>
      rw [List.mapM_cons, List.forall₂_cons_left_iff]
      simp only [Option.bind_eq_bind, Option.bind_eq_some_iff, ih, pure, Option.some.injEq]
      constructor
      · rintro ⟨first, hfirst, others, hothers, rfl⟩
        exact ⟨first, others, hfirst, hothers, rfl⟩
      · rintro ⟨first, others, hfirst, hothers, rfl⟩
        exact ⟨first, hfirst, others, hothers, rfl⟩

/-- What is told by results is told by the items that they come from. -/
theorem filterMap_eq_of_mapM {γ : Type} {f : α → Option β} {g : β → Option γ} {h : α → Option γ}
    {items : List α} {results : List β} (hsome : items.mapM f = some results)
    (himp : ∀ item ∈ items, ∀ result, f item = some result → g result = h item) :
    results.filterMap g = items.filterMap h := by
  rw [mapM_eq_some_iff] at hsome
  induction hsome with
  | nil => rfl
  | cons hfirst _ ih =>
      have hhead := himp _ List.mem_cons_self _ hfirst
      have htail := ih fun item hitem => himp item (List.mem_cons_of_mem _ hitem)
      rw [List.filterMap_cons, List.filterMap_cons, hhead, htail]

theorem map_eq_of_mapM {γ : Type} {f : α → Option β} {g : β → γ} {h : α → γ}
    {items : List α} {results : List β} (hsome : items.mapM f = some results)
    (himp : ∀ item ∈ items, ∀ result, f item = some result → g result = h item) :
    results.map g = items.map h := by
  have hall := filterMap_eq_of_mapM hsome (g := fun result => some (g result))
    fun item hitem result hresult => congrArg some (himp item hitem result hresult)
  simpa only [List.filterMap_eq_map'] using hall

/-- Steps that find what other ones find, up to a change of each result. -/
theorem mapM_map_result {γ : Type} {f : α → Option β} {g : α → Option γ} {h : β → γ}
    {items : List α} (hmap : ∀ item ∈ items, g item = (f item).map h) :
    items.mapM g = (items.mapM f).map (List.map h) := by
  induction items with
  | nil => rfl
  | cons item rest ih =>
      have hrest := ih fun other hother => hmap other (List.mem_cons_of_mem _ hother)
      rw [List.mapM_cons, List.mapM_cons, hmap item List.mem_cons_self, hrest]
      cases f item with
      | none => rfl
      | some first => cases rest.mapM f <;> rfl

/-- Items that belong to the same one of a list belong together. -/
theorem forall₂_of_common {γ : Type} {R : α → β → Prop} {S : α → γ → Prop} {T : β → γ → Prop}
    {items : List α} {firsts : List β} {seconds : List γ} (hfirsts : List.Forall₂ R items firsts)
    (hseconds : List.Forall₂ S items seconds)
    (himp : ∀ item ∈ items, ∀ first second, R item first → S item second → T first second) :
    List.Forall₂ T firsts seconds := by
  induction hfirsts generalizing seconds with
  | nil =>
      rw [List.forall₂_nil_left_iff] at hseconds
      rw [hseconds]
      exact .nil
  | cons hfirst _ ih =>
      rcases List.forall₂_cons_left_iff.1 hseconds with ⟨second, others, hsecond, hothers, rfl⟩
      have hhead := himp _ List.mem_cons_self _ _ hfirst hsecond
      exact .cons hhead (ih hothers fun item hitem => himp item (List.mem_cons_of_mem _ hitem))

/-! ## Results that agree -/

/-- Two results agree if both are values that belong together or both are the same failure.  One
that is an excused failure agrees with any other. -/
inductive Agree {γ : Type} (excused : ε → Prop) (R : α → γ → Prop) :
    Except ε α → Except ε γ → Prop
  | ok {a : α} {c : γ} (h : R a c) : Agree excused R (.ok a) (.ok c)
  | error (e : ε) : Agree excused R (.error e) (.error e)
  | left {e : ε} (h : excused e) (other : Except ε γ) : Agree excused R (.error e) other
  | right {e : ε} (h : excused e) (result : Except ε α) : Agree excused R result (.error e)

namespace Agree

variable {γ δ : Type} {excused : ε → Prop} {R : α → γ → Prop} {S : β → δ → Prop}

theorem map {result : Except ε α} {other : Except ε γ} (hagree : Agree excused R result other)
    {f : α → β} {g : γ → δ} (hmap : ∀ a c, R a c → S (f a) (g c)) :
    Agree excused S (result.map f) (other.map g) := by
  cases hagree with
  | ok h => exact .ok (hmap _ _ h)
  | error e => exact .error e
  | left h other => exact .left h _
  | right h result => exact .right h _

theorem map_eq {result other : Except ε α} (hagree : Agree excused Eq result other) (f : α → β) :
    Agree excused Eq (result.map f) (other.map f) :=
  hagree.map fun _ _ heq => congrArg f heq

theorem imp {T : α → γ → Prop} {result : Except ε α} {other : Except ε γ}
    (hagree : Agree excused R result other) (himp : ∀ a c, R a c → T a c) :
    Agree excused T result other := by
  cases hagree with
  | ok h => exact .ok (himp _ _ h)
  | error e => exact .error e
  | left h other => exact .left h _
  | right h result => exact .right h _

theorem bind {result : Except ε α} {other : Except ε γ} (hagree : Agree excused R result other)
    {f : α → Except ε β} {g : γ → Except ε δ}
    (hnext : ∀ a c, R a c → Agree excused S (f a) (g c)) :
    Agree excused S (result.bind f) (other.bind g) := by
  cases hagree with
  | ok h => exact hnext _ _ h
  | error e => exact .error e
  | left h other => exact .left h _
  | right h result => exact .right h _

/-- Steps that agree one by one agree in a row. -/
theorem mapM {f : α → Except ε β} {g : γ → Except ε δ} {items : List α} {others : List γ}
    (hall : List.Forall₂ (fun item other => Agree excused S (f item) (g other)) items others) :
    Agree excused (List.Forall₂ S) (items.mapM f) (others.mapM g) := by
  induction hall with
  | nil => exact .ok .nil
  | cons hfirst _ ih =>
      rw [List.mapM_cons, List.mapM_cons]
      refine hfirst.bind fun b d hhead => ?_
      exact ih.bind fun bs ds htail => .ok (.cons hhead htail)

theorem eq_or {result other : Except ε α} (hagree : Agree excused Eq result other) :
    result = other ∨ (∃ e, excused e ∧ result = .error e) ∨ ∃ e, excused e ∧ other = .error e := by
  cases hagree with
  | ok h => exact .inl (congrArg Except.ok h)
  | error e => exact .inl rfl
  | left h _ => exact .inr (.inl ⟨_, h, rfl⟩)
  | right h _ => exact .inr (.inr ⟨_, h, rfl⟩)

theorem eq_of_never {result other : Except ε α} (hagree : Agree (fun _ => False) Eq result other) :
    result = other := by
  rcases hagree.eq_or with heq | ⟨e, hfalse, -⟩ | ⟨e, hfalse, -⟩
  · exact heq
  · exact hfalse.elim
  · exact hfalse.elim

theorem exists_of_ok {result : Except ε α} {other : Except ε γ}
    (hagree : Agree (fun _ => False) R result other) {a : α} (hok : result = .ok a) :
    ∃ c, other = .ok c ∧ R a c := by
  subst hok
  cases hagree with
  | ok h => exact ⟨_, rfl, h⟩
  | right h _ => exact h.elim

end Agree

end Results

namespace Traced

variable {ω ε α β : Type}

instance : LawfulMonad (Traced ω ε) :=
  LawfulMonad.mk' _
    (by
      rintro α ⟨trail, result⟩
      cases result <;> simp [Functor.map, andThen])
    (by
      intro α β a next
      simp [pure, bind, andThen])
    (by
      rintro α β γ ⟨trail, result⟩ first second
      cases result with
      | error e => rfl
      | ok a =>
          simp only [bind, andThen]
          cases (first a).result <;> simp)

theorem result_mapM (f : α → Traced ω ε β) (items : List α) :
    (items.mapM f).result = items.mapM fun item => (f item).result := by
  induction items with
  | nil => rfl
  | cons item rest ih =>
      rw [List.mapM_cons, List.mapM_cons, result_bind]
      cases (f item).result with
      | error e => rfl
      | ok b =>
          change ((rest.mapM f) >>= _).result = _
          rw [result_bind, ih]
          cases rest.mapM fun item => (f item).result <;> rfl

end Traced

end ConfigSchema
