/-!
# Named entries

Entries keep the order in which their names were first put.  Putting a name again replaces its
value in place, so the names are those of the first mentions and the values those of the last.
-/

namespace ConfigSchema

/-- Values by name, in the order in which the names came up. -/
abbrev Entries (α : Type u) := List (String × α)

namespace Entries

variable {α : Type u}

/-- Sets the value of a name: in its place if it has one, else at the end. -/
def put (name : String) (value : α) : Entries α → Entries α
  | [] => [(name, value)]
  | (n, v) :: rest => if n = name then (n, value) :: rest else (n, v) :: put name value rest

def get? (name : String) : Entries α → Option α
  | [] => none
  | (n, v) :: rest => if n = name then some v else get? name rest

def erase (name : String) (entries : Entries α) : Entries α :=
  entries.filter fun entry => entry.1 ≠ name

def names (entries : Entries α) : List String :=
  entries.map (·.1)

/-- The entries that result from putting the given ones in turn. -/
def ofList (pairs : List (String × α)) : Entries α :=
  pairs.foldl (fun entries pair => entries.put pair.1 pair.2) []

@[simp] theorem names_nil : names ([] : Entries α) = [] := rfl

@[simp] theorem names_cons (pair : String × α) (rest : Entries α) :
    names (pair :: rest) = pair.1 :: names rest := rfl

theorem get?_put_self (name : String) (value : α) (entries : Entries α) :
    get? name (put name value entries) = some value := by
  induction entries with
  | nil => simp [put, get?]
  | cons pair rest ih =>
      by_cases h : pair.1 = name <;> simp [put, get?, h, ih]

theorem get?_put_of_ne {name other : String} (hne : other ≠ name) (value : α)
    (entries : Entries α) :
    get? other (put name value entries) = get? other entries := by
  induction entries with
  | nil => simp [put, get?, Ne.symm hne]
  | cons pair rest ih =>
      by_cases h : pair.1 = name
      · have : name ≠ other := Ne.symm hne
        simp [put, get?, h, this]
      · simp [put, get?, h, ih]

theorem names_put_of_mem {name : String} {entries : Entries α} (hmem : name ∈ entries.names)
    (value : α) : names (put name value entries) = entries.names := by
  induction entries with
  | nil => simp at hmem
  | cons pair rest ih =>
      by_cases h : pair.1 = name
      · simp [put, h]
      · have hrest : name ∈ names rest := by
          rcases List.mem_cons.1 hmem with heq | hrest
          · exact absurd heq.symm h
          · exact hrest
        simp [put, h, ih hrest]

theorem names_put_of_notMem {name : String} {entries : Entries α}
    (hmem : name ∉ entries.names) (value : α) :
    names (put name value entries) = entries.names ++ [name] := by
  induction entries with
  | nil => simp [put]
  | cons pair rest ih =>
      simp only [names_cons, List.mem_cons, not_or] at hmem
      simp [put, Ne.symm hmem.1, ih hmem.2]

theorem get?_isSome_iff {name : String} {entries : Entries α} :
    (entries.get? name).isSome ↔ name ∈ entries.names := by
  induction entries with
  | nil => simp [get?]
  | cons pair rest ih =>
      by_cases h : pair.1 = name
      · simp [get?, h]
      · simp [get?, h, ih, Ne.symm h]

end Entries

end ConfigSchema
