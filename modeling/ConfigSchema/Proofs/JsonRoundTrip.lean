import ConfigSchema.Proofs.EntryLookup
import ConfigSchema.Proofs.JsonLayout
import ConfigSchema.Proofs.Results

/-!
# Reading what was written

A value without floats is read back from its text, in whatever way the text is broken into lines,
as long as nothing in it goes beyond what a reader takes.  Nothing that goes beyond is ever read.
-/

namespace ConfigSchema

namespace Json

namespace Reader

/-! ## Blanks between texts -/

/-- A text that is not empty and has no blank in front. -/
def Starts (text : List Char) : Prop :=
  ∃ c rest, text = c :: rest ∧ isSpace c = false

theorem starts_cons {c : Char} (hc : isSpace c = false) (rest : List Char) : Starts (c :: rest) :=
  ⟨c, rest, rfl, hc⟩

theorem Starts.append {text : List Char} (hstarts : Starts text) (rest : List Char) :
    Starts (text ++ rest) := by
  rcases hstarts with ⟨c, tail, rfl, hc⟩
  exact ⟨c, tail ++ rest, rfl, hc⟩

theorem skipSpace_of_starts {text : List Char} (hstarts : Starts text) : skipSpace text = text := by
  rcases hstarts with ⟨c, rest, rfl, hc⟩
  simp [skipSpace, hc]

theorem skipSpace_append {blanks text : List Char} (hblanks : IsBlank blanks)
    (hstarts : Starts text) : skipSpace (blanks ++ text) = text := by
  rw [skipSpace, List.dropWhile_append_of_pos hblanks]
  exact skipSpace_of_starts hstarts

theorem endsNumber_cons {c : Char} (hc : isDigit c = false ∧ c ≠ '.' ∧ c ≠ 'e' ∧ c ≠ 'E')
    (rest : List Char) : EndsNumber (c :: rest) := by
  intro d hd
  obtain rfl := Option.some.inj hd
  exact hc

theorem endsNumber_blanks {blanks text : List Char} (hblanks : IsBlank blanks)
    (htext : EndsNumber text) : EndsNumber (blanks ++ text) := by
  cases blanks with
  | nil => exact htext
  | cons c blanks =>
      have hc := hblanks c List.mem_cons_self
      apply endsNumber_cons
      simp only [isSpace, Bool.or_eq_true, decide_eq_true_eq] at hc
      rcases hc with ((rfl | rfl) | rfl) | rfl
      all_goals decide

/-! ## Rows -/

variable {α : Type}

/-- A reader of elements takes an element from its text, whatever follows it. -/
def Reads (element : Nat → List Char → Step α) (a : α) (text : List Char) : Prop :=
  ∀ fuel rest, 2 * text.length ≤ fuel → EndsNumber rest →
    element fuel (text ++ rest) = .ok (a, rest)

/-- What a reader of rows does behind an element: it ends the row, or goes on behind a comma. -/
structure ReadsRows (element : Nat → List Char → Step α)
    (row : Nat → List α → List Char → Step (List α)) (closing : Char) : Prop where
  closing_ends : isSpace closing = false ∧ ∀ rest, EndsNumber (closing :: rest)
  last : ∀ {fuel : Nat} (seen : List α) {a : α} {s after rest : List Char},
    element fuel s = .ok (a, after) → skipSpace after = closing :: rest →
      row (fuel + 1) seen s = .ok ((a :: seen).reverse, rest)
  next : ∀ {fuel : Nat} (seen : List α) {a : α} {s after rest : List Char},
    element fuel s = .ok (a, after) → skipSpace after = ',' :: rest →
      row (fuel + 1) seen s = row fuel (a :: seen) (skipSpace rest)

theorem exists_intercalate_eq (text : α → List Char) (separator : List Char) (a : α) (as : List α) :
    ∃ more, separator.intercalate ((a :: as).map text) = text a ++ more := by
  cases as with
  | nil => exact ⟨[], by simp⟩
  | cons next as =>
      refine ⟨separator ++ separator.intercalate ((next :: as).map text), ?_⟩
      rw [List.map_cons, List.map_cons, List.intercalate_cons_cons, ← List.map_cons,
        List.append_assoc]

/-- One or more elements in a row are read as they were written. -/
theorem ReadsRows.row_intercalate {element : Nat → List Char → Step α}
    {row : Nat → List α → List Char → Step (List α)} {closing : Char}
    (hrow : ReadsRows element row closing) {gap close : List Char} (hgap : IsBlank gap)
    (hclose : IsBlank close) {text : α → List Char} (rest : List Char) (a : α) (as : List α)
    (has : ∀ b ∈ a :: as, Starts (text b) ∧ Reads element b (text b)) (seen : List α) (fuel : Nat)
    (hfuel : 2 * ((',' :: gap).intercalate ((a :: as).map text)).length < fuel) :
    row fuel seen ((',' :: gap).intercalate ((a :: as).map text) ++ (close ++ closing :: rest)) =
      .ok (seen.reverse ++ a :: as, rest) := by
  -- a row spends one step on each element, and every element has a character or two to pay for it
  rcases Nat.exists_eq_succ_of_ne_zero (Nat.ne_of_gt (Nat.zero_lt_of_lt hfuel)) with ⟨fuel, rfl⟩
  rcases hrow.closing_ends with ⟨hspace, hends⟩
  have ha := has a List.mem_cons_self
  induction as generalizing a seen fuel with
  | nil =>
      simp only [List.map_cons, List.map_nil, List.intercalate_singleton] at hfuel ⊢
      have hread := ha.2 fuel (close ++ closing :: rest) (by omega)
        (endsNumber_blanks hclose (hends rest))
      rw [hrow.last seen hread (skipSpace_append hclose (starts_cons hspace rest))]
      simp
  | cons b as ih =>
      have has' := fun c hc => has c (List.mem_cons_of_mem _ hc)
      have hb := has' b List.mem_cons_self
      have hstarts : Starts ((',' :: gap).intercalate ((b :: as).map text)) := by
        rcases exists_intercalate_eq text (',' :: gap) b as with ⟨more, hmore⟩
        rw [hmore]
        exact hb.1.append more
      have hrest := ih b has' (a :: seen)
      rw [List.map_cons, List.map_cons, List.intercalate_cons_cons, ← List.map_cons] at hfuel ⊢
      generalize (',' :: gap).intercalate ((b :: as).map text) = body at hfuel hstarts hrest ⊢
      simp only [List.length_append, List.length_cons] at hfuel
      have hsplit : text a ++ ',' :: gap ++ body ++ (close ++ closing :: rest) =
          text a ++ ',' :: (gap ++ (body ++ (close ++ closing :: rest))) := by simp
      have hread := ha.2 fuel (',' :: (gap ++ (body ++ (close ++ closing :: rest)))) (by omega)
        (endsNumber_cons (by decide) _)
      have hskip := skipSpace_of_starts (starts_cons (by decide : isSpace ',' = false)
        (gap ++ (body ++ (close ++ closing :: rest))))
      rw [hsplit, hrow.next seen hread hskip, skipSpace_append hgap (hstarts.append _)]
      rcases Nat.exists_eq_succ_of_ne_zero (by omega : fuel ≠ 0) with ⟨fuel, rfl⟩
      rw [hrest fuel (by omega) hb]
      simp

theorem readsRows_items [Runtime] (room : Nat) : ReadsRows (value room) (items room) ']' where
  closing_ends := ⟨by decide, endsNumber_cons (by decide)⟩
  last := by
    intro fuel seen v s after rest hread hskip
    simp [items, hread, hskip]
  next := by
    intro fuel seen v s after rest hread hskip
    simp [items, hread, hskip]

/-- A name, its colon and a value. -/
def member [Runtime] (room fuel : Nat) (s : List Char) : Step (String × Json) :=
  match label s with
  | .error e => .error e
  | .ok (name, rest) => (value room fuel rest).map fun (v, rest) => ((name, v), rest)

theorem member_eq_ok_iff [Runtime] {room fuel : Nat} {s after : List Char} {entry : String × Json} :
    member room fuel s = .ok (entry, after) ↔
      ∃ rest, label s = .ok (entry.1, rest) ∧ value room fuel rest = .ok (entry.2, after) := by
  rcases entry with ⟨name, v⟩
  unfold member
  split
  · next herror => simp [herror]
  · next found rest hlabel =>
      rw [hlabel]
      cases hvalue : value room fuel rest with
      | error e =>
          simp only [Except.map, reduceCtorEq, false_iff]
          rintro ⟨_, hrest, hread⟩
          rcases Prod.mk.inj (Except.ok.inj hrest) with ⟨-, rfl⟩
          rw [hvalue] at hread
          contradiction
      | ok read =>
          simp only [Except.map, Except.ok.injEq, Prod.mk.injEq]
          constructor
          · rintro ⟨⟨rfl, rfl⟩, rfl⟩
            exact ⟨rest, ⟨rfl, rfl⟩, hvalue⟩
          · rintro ⟨_, ⟨rfl, rfl⟩, hread⟩
            rw [hvalue, Except.ok.injEq] at hread
            simp [hread]

theorem readsRows_members [Runtime] (room : Nat) : ReadsRows (member room) (members room) '\x7d'
    where
  closing_ends := ⟨by decide, endsNumber_cons (by decide)⟩
  last := by
    intro fuel seen entry s after rest hread hskip
    rcases member_eq_ok_iff.1 hread with ⟨middle, hlabel, hvalue⟩
    simp [members, hlabel, hvalue, hskip]
  next := by
    intro fuel seen entry s after rest hread hskip
    rcases member_eq_ok_iff.1 hread with ⟨middle, hlabel, hvalue⟩
    simp [members, hlabel, hvalue, hskip]

/-! ## Values -/

section Values

variable {room : Nat}

theorem value_eq_plain [Runtime] {c : Char} (hquote : c ≠ '"')
    (hbracket : c ≠ '[') (hbrace : c ≠ '\x7b')
    (fuel : Nat) (rest : List Char) :
    value room (fuel + 1) (c :: rest) = plain (c :: rest) := by
  simp [value, hquote, hbracket, hbrace]

theorem reads_of_plain [Runtime] {v : Json} {c : Char} {tail : List Char}
    (hc : c ≠ '"' ∧ c ≠ '[' ∧ c ≠ '\x7b')
    (hplain : ∀ rest, EndsNumber rest → plain (c :: (tail ++ rest)) = .ok (v, rest)) :
    Reads (value room) v (c :: tail) := by
  intro fuel rest hfuel hends
  rcases Nat.exists_eq_succ_of_ne_zero
    (by simp only [List.length_cons] at hfuel; omega : fuel ≠ 0) with ⟨fuel, rfl⟩
  rw [List.cons_append, value_eq_plain hc.1 hc.2.1 hc.2.2]
  exact hplain rest hends

theorem reads_int [Runtime] {n : Int} (hlimit : n.natAbs < 10 ^ Decimal.digitLimit) :
    Reads (value room) (.int n) (toString n).toList := by
  have hplain : ∀ rest, EndsNumber rest →
      plain ((toString n).toList ++ rest) = .ok (.int n, rest) := fun _ => plain_int hlimit
  have hchars := fun c => isDigit_or_minus (n := n) (c := c)
  have hne := toList_toString_int_ne_nil n
  cases hread : (toString n).toList with
  | nil => exact absurd hread hne
  | cons c tail =>
      rw [hread] at hplain hchars
      have hc := hchars c List.mem_cons_self
      apply reads_of_plain ?_ hplain
      refine ⟨?_, ?_, ?_⟩
      all_goals
        rintro rfl
        exact absurd hc (by decide)

theorem reads_quoted [Runtime] {s : String} (hjoined : Text.IsJoined s) :
    Reads (value room) (.str s) (Printer.quoted s).toList := by
  intro fuel rest hfuel _
  rcases text_quoted hjoined rest with ⟨body, hbody, hread⟩
  rw [Printer.toList_quoted, List.length_cons] at hfuel
  rcases Nat.exists_eq_succ_of_ne_zero (by omega : fuel ≠ 0) with ⟨fuel, rfl⟩
  rw [hbody, value, hread]
  rfl

theorem reads_member [Runtime] {s : String} (hjoined : Text.IsJoined s) {v : Json}
    {chars : List Char} (hstarts : Starts chars) (hread : Reads (value room) v chars) :
    Reads (member room) (s, v) ((Printer.quoted s).toList ++ ':' :: ' ' :: chars) := by
  intro fuel rest hfuel hends
  rcases text_quoted hjoined (':' :: ' ' :: (chars ++ rest)) with ⟨body, hbody, htext⟩
  have hcolon := skipSpace_of_starts
    (starts_cons (by decide : isSpace ':' = false) (' ' :: (chars ++ rest)))
  have hspace : skipSpace (' ' :: (chars ++ rest)) = chars ++ rest :=
    skipSpace_append (by simp [IsBlank, isSpace] : IsBlank [' ']) (hstarts.append rest)
  simp only [List.length_append, List.length_cons] at hfuel
  rw [member_eq_ok_iff, List.append_assoc, List.cons_append, List.cons_append, hbody]
  refine ⟨chars ++ rest, ?_, hread fuel rest (by omega) hends⟩
  simp only [label, htext, hcolon, hspace]

theorem reads_arr_nil [Runtime] : Reads (value (room + 1)) (.arr []) ['[', ']'] := by
  intro fuel rest hfuel _
  rcases Nat.exists_eq_succ_of_ne_zero
    (by simp only [List.length_cons] at hfuel; omega : fuel ≠ 0) with ⟨fuel, rfl⟩
  rfl

theorem reads_obj_nil [Runtime] : Reads (value (room + 1)) (.obj []) ['\x7b', '\x7d'] := by
  intro fuel rest hfuel _
  rcases Nat.exists_eq_succ_of_ne_zero
    (by simp only [List.length_cons] at hfuel; omega : fuel ≠ 0) with ⟨fuel, rfl⟩
  rfl

/-- No value starts with a closing bracket. -/
theorem ne_bracket_of_reads [Runtime] {v : Json} {c : Char} {tail : List Char}
    (hread : Reads (value room) v (c :: tail)) : c ≠ ']' := by
  rintro rfl
  have hvalue := hread (2 * tail.length + 1 + 1) [] (by simp only [List.length_cons]; omega)
    (by simp [EndsNumber])
  rw [List.cons_append, value_eq_plain (by decide) (by decide) (by decide)] at hvalue
  contradiction

/-- A row between brackets is read as it was written. -/
theorem reads_enclosed [Runtime] {element : Nat → List Char → Step α}
    {row : Nat → List α → List Char → Step (List α)} {opening closing : Char}
    (hrow : ReadsRows element row closing) (make : List α → Json)
    (hopen : ∀ fuel s c tail, skipSpace s = c :: tail → c ≠ closing →
      value (room + 1) (fuel + 1) (opening :: s) =
        (row fuel [] (c :: tail)).map (Prod.map make id))
    {start gap close : List Char} (hstart : IsBlank start) (hgap : IsBlank gap)
    (hclose : IsBlank close) {text : α → List Char} {a : α} {as : List α}
    (has : ∀ b ∈ a :: as, Starts (text b) ∧ Reads element b (text b))
    (hne : ∀ c tail, text a = c :: tail → c ≠ closing) :
    Reads (value (room + 1)) (make (a :: as)) (opening ::
      (start ++ ((',' :: gap).intercalate ((a :: as).map text) ++ (close ++ [closing])))) := by
  intro fuel rest hfuel _
  rcases exists_intercalate_eq text (',' :: gap) a as with ⟨more, hmore⟩
  rcases (has a List.mem_cons_self).1 with ⟨c, tail, htext, hspace⟩
  rw [htext] at hmore
  simp only [List.length_cons, List.length_append] at hfuel
  rcases Nat.exists_eq_succ_of_ne_zero (by omega : fuel ≠ 0) with ⟨fuel, rfl⟩
  have hall := hrow.row_intercalate hgap hclose rest a as has [] fuel (by omega)
  rw [hmore, List.cons_append, List.cons_append] at hall
  have hskip := skipSpace_append hstart
    (starts_cons hspace (tail ++ more ++ (close ++ closing :: rest)))
  have hsplit : opening :: (start ++ (c :: tail ++ more ++ (close ++ [closing]))) ++ rest =
      opening :: (start ++ c :: (tail ++ more ++ (close ++ closing :: rest))) := by simp
  rw [hmore, hsplit, hopen fuel _ c _ hskip (hne c tail htext), hall]
  rfl

variable {start gap close : List Char}

theorem reads_arr [Runtime] (hstart : IsBlank start) (hgap : IsBlank gap) (hclose : IsBlank close)
    {text : Json → List Char} {v : Json} {vs : List Json}
    (hvs : ∀ item ∈ v :: vs, Starts (text item) ∧ Reads (value room) item (text item)) :
    Reads (value (room + 1)) (.arr (v :: vs)) ('[' ::
      (start ++ ((',' :: gap).intercalate ((v :: vs).map text) ++ (close ++ [']'])))) := by
  have hopen : ∀ fuel s c tail, skipSpace s = c :: tail → c ≠ ']' →
      value (room + 1) (fuel + 1) ('[' :: s) =
        (items room fuel [] (c :: tail)).map (Prod.map .arr id) := by
    intro fuel s c tail hskip hc
    simp [value, hskip, hc]
    rfl
  apply reads_enclosed (readsRows_items room) .arr hopen hstart hgap hclose hvs
  intro c tail htext
  have hread := (hvs v List.mem_cons_self).2
  rw [htext] at hread
  exact ne_bracket_of_reads hread

theorem reads_obj [Runtime] (hstart : IsBlank start) (hgap : IsBlank gap) (hclose : IsBlank close)
    {text : String × Json → List Char} {entry : String × Json} {entries : Entries Json}
    (hnodup : (Entries.names (entry :: entries)).Nodup)
    (hentries : ∀ e ∈ entry :: entries, Reads (member room) e (text e))
    (hquoted : ∀ e ∈ entry :: entries, ∃ tail, text e = '"' :: tail) :
    Reads (value (room + 1)) (.obj (entry :: entries)) ('\x7b' ::
      (start ++ ((',' :: gap).intercalate ((entry :: entries).map text) ++
        (close ++ ['\x7d'])))) := by
  have hopen : ∀ fuel s c tail, skipSpace s = c :: tail → c ≠ '\x7d' →
      value (room + 1) (fuel + 1) ('\x7b' :: s) = (members room fuel [] (c :: tail)).map
        (Prod.map (fun ms => .obj (Entries.ofList ms)) id) := by
    intro fuel s c tail hskip hc
    simp [value, hskip, hc]
    rfl
  have hstarts : ∀ e ∈ entry :: entries, Starts (text e) := by
    intro e he
    rcases hquoted e he with ⟨tail, htext⟩
    rw [htext]
    exact starts_cons (by decide) tail
  have hfirst : ∀ c tail, text entry = c :: tail → c ≠ '\x7d' := by
    intro c tail htext
    rcases hquoted entry List.mem_cons_self with ⟨other, hother⟩
    rw [hother] at htext
    rw [← (List.cons.inj htext).1]
    decide
  have hread := reads_enclosed (readsRows_members room) (fun ms => .obj (Entries.ofList ms))
    hopen hstart hgap hclose (fun e he => ⟨hstarts e he, hentries e he⟩) hfirst
  rwa [Entries.ofList_eq_self hnodup] at hread

end Values

end Reader

/-- A value that a reader with this much room takes: its parts do not nest deeper, and no integer
is too long. -/
inductive Fits : (room : Nat) → Json → Prop
  | null {room : Nat} : Fits room .null
  | bool {room : Nat} (b : Bool) : Fits room (.bool b)
  | int {room : Nat} {n : Int} (hlimit : n.natAbs < 10 ^ Decimal.digitLimit) : Fits room (.int n)
  | float {room : Nat} (x : Binary64) : Fits room (.float x)
  | str {room : Nat} (s : String) : Fits room (.str s)
  | arr {room : Nat} {items : List Json} (hitems : ∀ item ∈ items, Fits room item) :
      Fits (room + 1) (.arr items)
  | obj {room : Nat} {entries : Entries Json} (hvalues : ∀ entry ∈ entries, Fits room entry.2) :
      Fits (room + 1) (.obj entries)

theorem Fits.mono {room more : Nat} (hle : room ≤ more) {v : Json} (hfits : Fits room v) :
    Fits more v := by
  induction hfits generalizing more with
  | null => exact .null
  | bool b => exact .bool b
  | int hlimit => exact .int hlimit
  | float x => exact .float x
  | str s => exact .str s
  | arr _ ih =>
      rcases Nat.exists_eq_succ_of_ne_zero (Nat.ne_of_gt (Nat.zero_lt_of_lt hle)) with ⟨more, rfl⟩
      exact .arr fun item hitem => ih item hitem (Nat.le_of_succ_le_succ hle)
  | obj _ ih =>
      rcases Nat.exists_eq_succ_of_ne_zero (Nat.ne_of_gt (Nat.zero_lt_of_lt hle)) with ⟨more, rfl⟩
      exact .obj fun entry hentry => ih entry hentry (Nat.le_of_succ_le_succ hle)

theorem fits_int_iff {room : Nat} {n : Int} :
    Fits room (.int n) ↔ n.natAbs < 10 ^ Decimal.digitLimit := by
  constructor
  · rintro ⟨⟩
    assumption
  · exact .int

theorem fits_arr_iff {room : Nat} {items : List Json} :
    Fits room (.arr items) ↔ room ≠ 0 ∧ ∀ item ∈ items, Fits (room - 1) item := by
  constructor
  · rintro ⟨⟩
    exact ⟨Nat.succ_ne_zero _, by assumption⟩
  · rintro ⟨hroom, hitems⟩
    rcases Nat.exists_eq_succ_of_ne_zero hroom with ⟨room, rfl⟩
    exact .arr hitems

theorem fits_obj_iff {room : Nat} {entries : Entries Json} :
    Fits room (.obj entries) ↔ room ≠ 0 ∧ ∀ entry ∈ entries, Fits (room - 1) entry.2 := by
  constructor
  · rintro ⟨⟩
    exact ⟨Nat.succ_ne_zero _, by assumption⟩
  · rintro ⟨hroom, hvalues⟩
    rcases Nat.exists_eq_succ_of_ne_zero hroom with ⟨room, rfl⟩
    exact .obj hvalues

mutual

/-- A value that fits is one that has too much of nothing. -/
theorem excess?_eq_none_iff (room : Nat) : ∀ v : Json, v.excess? room = none ↔ Fits room v
  | .null => iff_of_true rfl .null
  | .bool b => iff_of_true rfl (.bool b)
  | .int n => by
      rw [fits_int_iff, excess?, Nat.pow_eq, ← Nat.not_le]
      split_ifs with hlong
      · simp [hlong]
      · simp [hlong]
  | .float x => iff_of_true rfl (.float x)
  | .str s => iff_of_true rfl (.str s)
  | .arr items => by
      rw [fits_arr_iff, excess?, ← excessOfItems?_eq_none_iff (room - 1) items]
      split_ifs with hroom
      · simp [hroom]
      · simp [hroom]
  | .obj entries => by
      rw [fits_obj_iff, excess?, ← excessOfMembers?_eq_none_iff (room - 1) entries]
      split_ifs with hroom
      · simp [hroom]
      · simp [hroom]

theorem excessOfItems?_eq_none_iff (room : Nat) : ∀ items : List Json,
    excessOfItems? room items = none ↔ ∀ item ∈ items, Fits room item
  | [] => by simp [excessOfItems?]
  | v :: rest => by
      rw [excessOfItems?, Option.or_eq_none_iff, excess?_eq_none_iff room v,
        excessOfItems?_eq_none_iff room rest, List.forall_mem_cons]

theorem excessOfMembers?_eq_none_iff (room : Nat) : ∀ entries : List (String × Json),
    excessOfMembers? room entries = none ↔ ∀ entry ∈ entries, Fits room entry.2
  | [] => by simp [excessOfMembers?]
  | (name, v) :: rest => by
      rw [excessOfMembers?, Option.or_eq_none_iff, excess?_eq_none_iff room v,
        excessOfMembers?_eq_none_iff room rest, List.forall_mem_cons]

end

/-- The values that are written are those that fit. -/
theorem written_eq_ok_iff [Runtime] {style : Indentation} {v : Json} {text : String} :
    v.written style = .ok text ↔
      Fits (Runtime.writingDepth (style = .oneLine)) v ∧ v.render style = text := by
  rw [written, ← excess?_eq_none_iff]
  split
  · next limit hlimit => simp [hlimit]
  · next hlimit => simp [hlimit]

/-! ## From a value to its text and back -/

namespace Reader

/-- A text starts with a value and is read as it, whatever follows. -/
structure IsTextOf [Runtime] (room : Nat) (v : Json) (text : List Char) : Prop where
  starts : Starts text
  reads : Reads (value room) v text

variable {room : Nat} {style : Indentation}

theorem isTextOf_null [Runtime] : IsTextOf room .null "null".toList :=
  ⟨starts_cons (by decide) _, reads_of_plain (by decide) fun _ _ => rfl⟩

theorem isTextOf_bool [Runtime] (b : Bool) :
    IsTextOf room (.bool b) (if b then "true" else "false").toList := by
  cases b with
  | false => exact ⟨starts_cons (by decide) _, reads_of_plain (by decide) fun _ _ => rfl⟩
  | true => exact ⟨starts_cons (by decide) _, reads_of_plain (by decide) fun _ _ => rfl⟩

theorem isTextOf_int [Runtime] {n : Int} (hlimit : n.natAbs < 10 ^ Decimal.digitLimit) :
    IsTextOf room (.int n) (toString n).toList where
  starts := by
    cases htext : (toString n).toList with
    | nil => exact absurd htext (toList_toString_int_ne_nil n)
    | cons c tail =>
        have hc : c ∈ (toString n).toList := by
          rw [htext]
          exact List.mem_cons_self
        apply starts_cons
        rcases isDigit_or_minus hc with hdigit | rfl
        · exact (plain_of_isDigit hdigit).2.1
        · decide
  reads := reads_int hlimit

theorem isTextOf_str [Runtime] {s : String} (hjoined : Text.IsJoined s) :
    IsTextOf room (.str s) (Printer.quoted s).toList where
  starts := by
    rw [Printer.toList_quoted]
    exact starts_cons (by decide) _
  reads := reads_quoted hjoined

theorem isTextOf_arr [Runtime] (hstyle : style.IsBlank) (level : Nat) {items : List Json}
    (hitems : ∀ item ∈ items, IsTextOf room item (Printer.value style (level + 1) item).toList) :
    IsTextOf (room + 1) (.arr items) (Printer.value style level (.arr items)).toList := by
  rw [Printer.value, Printer.values_eq_map]
  cases items with
  | nil =>
      have htext : ("[" ++ "]").toList = ['[', ']'] := rfl
      rw [List.map_nil, Printer.enclosed_nil, htext]
      exact ⟨starts_cons (by decide) _, reads_arr_nil⟩
  | cons item items =>
      rcases Printer.exists_enclosed hstyle level "[" "]" (Printer.value style (level + 1)) item
        items with ⟨start, gap, close, hstart, hgap, hclose, htext⟩
      have hreads := reads_arr hstart hgap hclose
        fun other hother => ⟨(hitems other hother).starts, (hitems other hother).reads⟩
      rw [htext]
      exact ⟨starts_cons (by decide) _, hreads⟩

theorem isTextOf_obj [Runtime] (hstyle : style.IsBlank) (level : Nat) {entries : Entries Json}
    (hnodup : entries.names.Nodup) (hnames : ∀ entry ∈ entries, Text.IsJoined entry.1)
    (hvalues : ∀ entry ∈ entries,
      IsTextOf room entry.2 (Printer.value style (level + 1) entry.2).toList) :
    IsTextOf (room + 1) (.obj entries) (Printer.value style level (.obj entries)).toList := by
  rw [Printer.value, Printer.members_eq_map]
  cases entries with
  | nil =>
      have htext : ("\x7b" ++ "\x7d").toList = ['\x7b', '\x7d'] := rfl
      rw [List.map_nil, Printer.enclosed_nil, htext]
      exact ⟨starts_cons (by decide) _, reads_obj_nil⟩
  | cons entry entries =>
      rcases Printer.exists_enclosed hstyle level "\x7b" "\x7d"
        (fun e => Printer.quoted e.1 ++ ": " ++ Printer.value style (level + 1) e.2) entry entries
        with ⟨start, gap, close, hstart, hgap, hclose, htext⟩
      simp only [Printer.toList_member] at htext
      have hreads := reads_obj hstart hgap hclose hnodup
        (fun e he => reads_member (hnames e he) (hvalues e he).starts (hvalues e he).reads)
        fun e he => by
          rw [Printer.toList_quoted]
          exact ⟨_, rfl⟩
      rw [htext]
      exact ⟨starts_cons (by decide) _, hreads⟩

end Reader

theorem Fits.isTextOf [Runtime] {room : Nat} {v : Json} (hfits : Fits room v) (hplain : v.IsPlain)
    {style : Indentation} (hstyle : style.IsBlank) (level : Nat) :
    Reader.IsTextOf room v (Printer.value style level v).toList := by
  induction hfits generalizing level with
  | null => exact Reader.isTextOf_null
  | bool b => exact Reader.isTextOf_bool b
  | int hlimit => exact Reader.isTextOf_int hlimit
  | float x => cases hplain
  | str s =>
      cases hplain with
      | str hjoined => exact Reader.isTextOf_str hjoined
  | arr _ ih =>
      cases hplain with
      | arr hitems =>
          exact Reader.isTextOf_arr hstyle level
            fun item hitem => ih item hitem (hitems item hitem) (level + 1)
  | obj _ ih =>
      cases hplain with
      | obj hnodup hnames hvalues =>
          exact Reader.isTextOf_obj hstyle level hnodup hnames
            fun entry hentry => ih entry hentry (hvalues entry hentry) (level + 1)

/-- A value is read from its text and a line break behind it where there is room for it. -/
theorem value_render [Runtime] {v : Json} {room : Nat} (hfits : Fits room v) (hplain : v.IsPlain)
    {style : Indentation} (hstyle : style.IsBlank) :
    let chars := (v.render style ++ "\n").toList
    Reader.skipSpace chars = chars ∧
      Reader.value room (2 * chars.length + 2) chars = .ok (v, ['\n']) := by
  intro chars
  have htext := hfits.isTextOf hplain hstyle 0
  have hline : Reader.EndsNumber ['\n'] := Reader.endsNumber_cons (by decide) []
  have hchars : chars = (Printer.value style 0 v).toList ++ ['\n'] := by
    simp only [chars, String.toList_append]
    rfl
  rw [hchars]
  exact ⟨Reader.skipSpace_of_starts (htext.starts.append ['\n']),
    htext.reads _ ['\n'] (by simp only [List.length_append]; omega) hline⟩

/-- A text that ends in a line break is read as its value. -/
theorem read_render [Runtime] {v : Json} {purpose : Purpose}
    (hfits : Fits (Runtime.readingDepth purpose) v) (hplain : v.IsPlain) {style : Indentation}
    (hstyle : style.IsBlank) : read (v.render style ++ "\n") purpose = .ok v := by
  rcases value_render hfits hplain hstyle with ⟨hskip, hread⟩
  simp only [read, hskip, hread]
  rfl

/-! ## What is read fits -/

namespace Reader

theorem fits_of_plain {room : Nat} {s rest : List Char} {v : Json}
    (hread : plain s = .ok (v, rest)) : Fits room v := by
  unfold plain at hread
  split at hread
  · next found hfound =>
      obtain rfl := Except.ok.inj hread
      rcases List.exists_of_findSome?_eq_some hfound with ⟨entry, hentry, hword⟩
      rcases Option.map_eq_some_iff.1 hword with ⟨tail, -, hpair⟩
      rw [← (Prod.mk.inj hpair).1]
      simp only [words, List.mem_cons, List.not_mem_nil, or_false] at hentry
      rcases hentry with rfl | rfl | rfl | rfl | rfl | rfl
      · exact .null
      · exact .bool true
      · exact .bool false
      all_goals exact .float _
  · rcases number_eq_ok hread with ⟨n, rfl, hlimit⟩ | ⟨x, rfl⟩
    · exact .int hlimit
    · exact .float x

/-- What a number of steps reads fits; a row fits if what it has seen before does. -/
structure ReadsFitting [Runtime] (fuel : Nat) : Prop where
  value : ∀ {room : Nat} {s rest : List Char} {v : Json},
    value room fuel s = .ok (v, rest) → Fits room v
  items : ∀ {room : Nat} {seen vs : List Json} {s rest : List Char},
    items room fuel seen s = .ok (vs, rest) → (∀ v ∈ seen, Fits room v) → ∀ v ∈ vs, Fits room v
  members : ∀ {room : Nat} {seen entries : List (String × Json)} {s rest : List Char},
    members room fuel seen s = .ok (entries, rest) → (∀ e ∈ seen, Fits room e.2) →
      ∀ e ∈ entries, Fits room e.2

theorem ReadsFitting.value_succ [Runtime] {fuel room : Nat} (hfitting : ReadsFitting fuel)
    {s rest : List Char} {v : Json} (hread : Reader.value room (fuel + 1) s = .ok (v, rest)) :
    Fits room v := by
  unfold Reader.value at hread
  split at hread
  · rcases Results.map_eq_ok_iff.1 hread with ⟨_, -, heq⟩
    rw [← (Prod.mk.inj heq).1]
    exact .str _
  · split at hread
    · contradiction
    · next hroom _ =>
        rcases Prod.mk.inj (Except.ok.inj hread) with ⟨rfl, -⟩
        exact fits_arr_iff.2 ⟨hroom, by simp⟩
    · rcases Results.map_eq_ok_iff.1 hread with ⟨⟨vs, after⟩, hitems, heq⟩
      rw [← (Prod.mk.inj heq).1]
      exact .arr (hfitting.items hitems (by simp))
  · split at hread
    · contradiction
    · next hroom _ =>
        rcases Prod.mk.inj (Except.ok.inj hread) with ⟨rfl, -⟩
        exact fits_obj_iff.2 ⟨hroom, by simp⟩
    · rcases Results.map_eq_ok_iff.1 hread with ⟨⟨entries, after⟩, hmembers, heq⟩
      rw [← (Prod.mk.inj heq).1]
      have hentries := hfitting.members hmembers (by simp)
      exact .obj fun e he => hentries e (Entries.mem_of_mem_ofList he)
  · exact fits_of_plain hread

theorem ReadsFitting.items_succ [Runtime] {fuel room : Nat} (hfitting : ReadsFitting fuel)
    {seen vs : List Json} {s rest : List Char}
    (hread : Reader.items room (fuel + 1) seen s = .ok (vs, rest))
    (hseen : ∀ v ∈ seen, Fits room v) : ∀ v ∈ vs, Fits room v := by
  unfold Reader.items at hread
  split at hread
  · contradiction
  · next v after hvalue =>
      have hseen' : ∀ w ∈ v :: seen, Fits room w :=
        List.forall_mem_cons.2 ⟨hfitting.value hvalue, hseen⟩
      split at hread
      · rcases Prod.mk.inj (Except.ok.inj hread) with ⟨rfl, -⟩
        intro w hw
        exact hseen' w (List.mem_reverse.1 hw)
      · exact hfitting.items hread hseen'
      · contradiction

theorem ReadsFitting.members_succ [Runtime] {fuel room : Nat} (hfitting : ReadsFitting fuel)
    {seen entries : List (String × Json)} {s rest : List Char}
    (hread : Reader.members room (fuel + 1) seen s = .ok (entries, rest))
    (hseen : ∀ e ∈ seen, Fits room e.2) : ∀ e ∈ entries, Fits room e.2 := by
  unfold Reader.members at hread
  split at hread
  · contradiction
  · next name body hlabel =>
      split at hread
      · contradiction
      · next v after hvalue =>
          have hseen' : ∀ e ∈ (name, v) :: seen, Fits room e.2 :=
            List.forall_mem_cons.2 ⟨hfitting.value hvalue, hseen⟩
          split at hread
          · rcases Prod.mk.inj (Except.ok.inj hread) with ⟨rfl, -⟩
            intro e he
            exact hseen' e (List.mem_reverse.1 he)
          · exact hfitting.members hread hseen'
          · contradiction

theorem readsFitting [Runtime] (fuel : Nat) : ReadsFitting fuel := by
  induction fuel with
  | zero =>
      constructor
      all_goals
        intros
        contradiction
  | succ fuel ih => exact ⟨ih.value_succ, ih.items_succ, ih.members_succ⟩

end Reader

theorem fits_of_read [Runtime] {s : String} {v : Json} {purpose : Purpose}
    (hread : read s purpose = .ok v) : Fits (Runtime.readingDepth purpose) v := by
  simp only [read] at hread
  split at hread
  · contradiction
  · next w rest hvalue =>
      split_ifs at hread
      obtain rfl := Except.ok.inj hread
      exact (Reader.readsFitting _).value hvalue

/-! ## More room -/

namespace Reader

/-- The same is read with more room unless there is no room for it. -/
def AlikeInRoom {α : Type} (result other : Step α) : Prop :=
  result = .error (.beyond .depth) ∨ other = result

theorem AlikeInRoom.map {α β : Type} {result other : Step α} (halike : AlikeInRoom result other)
    (f : α × List Char → β × List Char) : AlikeInRoom (result.map f) (other.map f) := by
  rcases halike with rfl | rfl
  · exact .inl rfl
  · exact .inr rfl

/-- A number of steps read alike with more room. -/
structure ReadsAlike [Runtime] (fuel : Nat) : Prop where
  value : ∀ {room more : Nat}, room ≤ more → ∀ s,
    AlikeInRoom (value room fuel s) (value more fuel s)
  items : ∀ {room more : Nat}, room ≤ more → ∀ seen s,
    AlikeInRoom (items room fuel seen s) (items more fuel seen s)
  members : ∀ {room more : Nat}, room ≤ more → ∀ seen s,
    AlikeInRoom (members room fuel seen s) (members more fuel seen s)

variable [Runtime] {fuel room more : Nat}

theorem ReadsAlike.value_succ (halike : ReadsAlike fuel) (hle : room ≤ more) (s : List Char) :
    AlikeInRoom (Reader.value room (fuel + 1) s) (Reader.value more (fuel + 1) s) := by
  cases room with
  | zero =>
      unfold Reader.value
      split
      · exact .inr rfl
      · exact .inl rfl
      · exact .inl rfl
      · exact .inr rfl
  | succ room =>
      rcases Nat.exists_eq_succ_of_ne_zero (Nat.ne_of_gt (Nat.zero_lt_of_lt hle)) with ⟨more, rfl⟩
      have hless := Nat.le_of_succ_le_succ hle
      unfold Reader.value
      split
      · exact .inr rfl
      · next rest =>
          generalize skipSpace rest = after
          split
          · contradiction
          · exact .inr rfl
          · next heq _ =>
              obtain rfl := Nat.succ.inj heq
              exact (halike.items hless [] _).map _
      · next rest =>
          generalize skipSpace rest = after
          split
          · contradiction
          · exact .inr rfl
          · next heq _ =>
              obtain rfl := Nat.succ.inj heq
              exact (halike.members hless [] _).map _
      · exact .inr rfl

theorem ReadsAlike.items_succ (halike : ReadsAlike fuel) (hle : room ≤ more) (seen : List Json)
    (s : List Char) :
    AlikeInRoom (Reader.items room (fuel + 1) seen s) (Reader.items more (fuel + 1) seen s) := by
  unfold Reader.items
  rcases halike.value hle s with hdeep | heq
  · rw [hdeep]
    exact .inl rfl
  · rw [heq]
    split
    · exact .inr rfl
    · next v after _ =>
        split
        · exact .inr rfl
        · next rest _ => exact halike.items hle (v :: seen) (skipSpace rest)
        · exact .inr rfl

theorem ReadsAlike.members_succ (halike : ReadsAlike fuel) (hle : room ≤ more)
    (seen : List (String × Json)) (s : List Char) :
    AlikeInRoom (Reader.members room (fuel + 1) seen s)
      (Reader.members more (fuel + 1) seen s) := by
  unfold Reader.members
  split
  · exact .inr rfl
  · next name rest _ =>
      rcases halike.value hle rest with hdeep | heq
      · rw [hdeep]
        exact .inl rfl
      · rw [heq]
        split
        · exact .inr rfl
        · next v after _ =>
            split
            · exact .inr rfl
            · next rest _ => exact halike.members hle ((name, v) :: seen) (skipSpace rest)
            · exact .inr rfl

theorem readsAlike (fuel : Nat) : ReadsAlike fuel := by
  induction fuel with
  | zero =>
      constructor
      all_goals
        intros
        exact .inr rfl
  | succ fuel ih => exact ⟨ih.value_succ, ih.items_succ, ih.members_succ⟩

end Reader

/-- The text of a value without too long an integer is read as the value, or goes too deep. -/
theorem read_render_cases [Runtime] {v : Json} {room : Nat} (hfits : Fits room v)
    (hplain : v.IsPlain) {style : Indentation} (hstyle : style.IsBlank) (purpose : Purpose) :
    read (v.render style ++ "\n") purpose = .ok v ∧ Fits (Runtime.readingDepth purpose) v ∨
      read (v.render style ++ "\n") purpose = .error (.beyond .depth) ∧
        ¬ Fits (Runtime.readingDepth purpose) v := by
  by_cases hroom : Fits (Runtime.readingDepth purpose) v
  · exact .inl ⟨read_render hroom hplain hstyle, hroom⟩
  · refine .inr ⟨?_, hroom⟩
    -- where the value fits, its text would be read
    have hmore := hfits.mono (Nat.le_max_right (Runtime.readingDepth purpose) room)
    rcases value_render hmore hplain hstyle with ⟨hskip, hread⟩
    rcases (Reader.readsAlike _).value (Nat.le_max_left _ room) _ with hdeep | halike
    · simp only [read, hskip]
      rw [hdeep]
    · have hback : read (v.render style ++ "\n") purpose = .ok v := by
        simp only [read, hskip]
        rw [← halike, hread]
        rfl
      exact absurd (fits_of_read hback) hroom

end Json

end ConfigSchema
