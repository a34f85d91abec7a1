/-!
# Traced results

A step gives a result or fails, and leaves a trail of what it did either way.  Steps in a row
leave their trails one behind the other, up to the first that fails; the result is the one that
the steps have without their trails.
-/

namespace ConfigSchema

/-- A result with the trail that was left on the way to it. -/
structure Traced (ω ε α : Type) where
  trail : List ω
  result : Except ε α

namespace Traced

variable {ω ε α β : Type}

def ofExcept (result : Except ε α) : Traced ω ε α :=
  { trail := [], result }

def leave (trail : List ω) : Traced ω ε Unit :=
  { trail, result := .ok () }

/-- A step and the one that goes on from its result. -/
def andThen (first : Traced ω ε α) (next : α → Traced ω ε β) : Traced ω ε β :=
  match first.result with
  | .ok a => { trail := first.trail ++ (next a).trail, result := (next a).result }
  | .error e => { trail := first.trail, result := .error e }

def mapError {ε' : Type} (f : ε → ε') (step : Traced ω ε α) : Traced ω ε' α :=
  { trail := step.trail, result := step.result.mapError f }

instance : Monad (Traced ω ε) where
  pure a := { trail := [], result := .ok a }
  bind := andThen

instance : MonadLift (Except ε) (Traced ω ε) where
  monadLift := ofExcept

@[simp] theorem result_pure (a : α) : (pure a : Traced ω ε α).result = .ok a := rfl

@[simp] theorem trail_pure (a : α) : (pure a : Traced ω ε α).trail = [] := rfl

@[simp] theorem result_leave (trail : List ω) :
    (leave trail : Traced ω ε Unit).result = .ok () := rfl

@[simp] theorem result_ofExcept (result : Except ε α) :
    (ofExcept result : Traced ω ε α).result = result := rfl

@[simp] theorem result_bind (first : Traced ω ε α) (next : α → Traced ω ε β) :
    (first >>= next).result = (first.result.bind fun a => (next a).result) := by
  change (andThen first next).result = _
  unfold andThen
  cases first.result <;> rfl

theorem bind_of_ok {first : Traced ω ε α} {a : α} (hok : first.result = .ok a)
    (next : α → Traced ω ε β) :
    first >>= next =
      { trail := first.trail ++ (next a).trail, result := (next a).result } := by
  change andThen first next = _
  simp only [andThen, hok]

theorem bind_of_error {first : Traced ω ε α} {e : ε} (herror : first.result = .error e)
    (next : α → Traced ω ε β) :
    first >>= next = { trail := first.trail, result := .error e } := by
  change andThen first next = _
  simp only [andThen, herror]

/-- What two steps leave is left by the first or, if that succeeds, by the second. -/
theorem mem_trail_bind {first : Traced ω ε α} {next : α → Traced ω ε β} {left : ω}
    (hmem : left ∈ (first >>= next).trail) :
    left ∈ first.trail ∨ ∃ a, first.result = .ok a ∧ left ∈ (next a).trail := by
  cases hresult : first.result with
  | error e =>
      rw [bind_of_error hresult] at hmem
      exact .inl hmem
  | ok a =>
      rw [bind_of_ok hresult] at hmem
      rcases List.mem_append.1 hmem with hfirst | hnext
      · exact .inl hfirst
      · exact .inr ⟨a, rfl, hnext⟩

end Traced

end ConfigSchema
