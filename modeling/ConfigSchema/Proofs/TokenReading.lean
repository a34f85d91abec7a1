import ConfigSchema.Sdl.Parser

/-!
# What readers read

A reader succeeds with what it has read and the tokens behind it; for the readers of single tokens
and for those put together of others this says which tokens there were.
-/

namespace ConfigSchema

namespace Sdl.Reader

variable {α β : Type} {tokens rest : List Token} {token : Token}

theorem pure_eq_some_iff {a b : α} :
    (pure a : Reader α) tokens = some (b, rest) ↔ a = b ∧ tokens = rest := by
  change some (a, tokens) = some (b, rest) ↔ _
  rw [Option.some.injEq, Prod.mk.injEq]

theorem bind_eq_some_iff {reader : Reader α} {next : α → Reader β} {b : β} :
    (reader >>= next) tokens = some (b, rest) ↔
      ∃ a behind, reader tokens = some (a, behind) ∧ next a behind = some (b, rest) := by
  change (reader tokens).bind (fun found => next found.1 found.2) = some (b, rest) ↔ _
  rw [Option.bind_eq_some_iff, Prod.exists]

theorem map_eq_some_iff {f : α → β} {reader : Reader α} {b : β} :
    (f <$> reader) tokens = some (b, rest) ↔
      ∃ a, reader tokens = some (a, rest) ∧ f a = b := by
  rw [map_eq_pure_bind, bind_eq_some_iff]
  constructor
  · rintro ⟨a, behind, hread, hpure⟩
    obtain ⟨hfirst, rfl⟩ := pure_eq_some_iff.1 hpure
    exact ⟨a, hread, hfirst⟩
  · rintro ⟨a, hread, hfirst⟩
    exact ⟨a, rest, hread, pure_eq_some_iff.2 ⟨hfirst, rfl⟩⟩

theorem skip?_eq_some_iff {found : Bool} :
    skip? token tokens = some (found, rest) ↔
      found = true ∧ tokens = token :: rest ∨
        found = false ∧ tokens = rest ∧ rest.head? ≠ some token := by
  unfold skip?
  cases tokens with
  | nil =>
      cases found with
      | false =>
          have hnone : rest = [] → rest.head? ≠ some token := by
            rintro rfl
            simp
          simpa [eq_comm] using hnone
      | true => simp
  | cons first behind =>
      by_cases hfirst : first = token
      · subst hfirst
        cases found with
        | false =>
            have hsome : first :: behind = rest → rest.head? = some first := by
              rintro rfl
              rfl
            simpa using hsome
        | true => simp
      · cases found with
        | false =>
            have hother : first :: behind = rest → rest.head? ≠ some token := by
              rintro rfl
              simpa using hfirst
            simpa [hfirst] using hother
        | true => simp [hfirst]

theorem skip_eq_some_iff {done : Unit} :
    skip token tokens = some (done, rest) ↔ tokens = token :: rest := by
  unfold skip
  cases tokens with
  | nil => simp
  | cons first behind => by_cases hfirst : first = token <;> simp [hfirst]

theorem name_eq_some_iff {text : String} :
    name tokens = some (text, rest) ↔ tokens = .name text :: rest := by
  unfold name
  split <;> simp_all

end Sdl.Reader

end ConfigSchema
