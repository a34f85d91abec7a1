import ConfigSchema.Proofs.JsonNumbers
import ConfigSchema.Proofs.JsonStrings

/-!
# Layouts of JSON

A value without floats is written in ASCII, and how its text is broken into lines only decides
about blanks outside of strings.
-/

namespace ConfigSchema

namespace Json

/-! ## Blanks outside of strings -/

def IsBlank (chars : List Char) : Prop :=
  ∀ c ∈ chars, Reader.isSpace c = true

instance : DecidablePred IsBlank := fun chars =>
  List.decidableBAll (fun c => Reader.isSpace c = true) chars

/-- Whether only blanks are put in front of items. -/
def Indentation.IsBlank : Indentation → Prop
  | .oneLine => True
  | .perLevel unit => Json.IsBlank unit.toList

/-- What is left of a text without the blanks that stand outside of its strings. -/
def withoutBlanks : (inString : Bool) → List Char → List Char
  | _, [] => []
  | true, '\\' :: c :: rest => '\\' :: c :: withoutBlanks true rest
  | true, c :: rest => c :: withoutBlanks (c ≠ '"') rest
  | false, c :: rest =>
      if Reader.isSpace c then withoutBlanks false rest else c :: withoutBlanks (c = '"') rest

/-- A text in ASCII that is another one but for blanks outside of its strings, whatever follows
it. -/
structure IsLayoutOf (text bare : List Char) : Prop where
  ascii : ∀ c ∈ text, c.toNat < 0x80
  withoutBlanks_append : ∀ rest,
    withoutBlanks false (text ++ rest) = bare ++ withoutBlanks false rest

theorem IsLayoutOf.append {first firstBare second secondBare : List Char}
    (hfirst : IsLayoutOf first firstBare) (hsecond : IsLayoutOf second secondBare) :
    IsLayoutOf (first ++ second) (firstBare ++ secondBare) where
  ascii := by
    intro c hc
    rcases List.mem_append.1 hc with hc | hc
    · exact hfirst.ascii c hc
    · exact hsecond.ascii c hc
  withoutBlanks_append := by
    intro rest
    rw [List.append_assoc, hfirst.withoutBlanks_append, hsecond.withoutBlanks_append,
      List.append_assoc]

theorem isLayoutOf_nil : IsLayoutOf [] [] := ⟨by simp, fun _ => rfl⟩

theorem isLayoutOf_blanks {blanks : List Char} (hblanks : IsBlank blanks) :
    IsLayoutOf blanks [] where
  ascii := by
    intro c hc
    have hspace := hblanks c hc
    simp only [Reader.isSpace, Bool.or_eq_true, decide_eq_true_eq] at hspace
    rcases hspace with ((rfl | rfl) | rfl) | rfl
    all_goals decide
  withoutBlanks_append := by
    intro rest
    induction blanks with
    | nil => rfl
    | cons c blanks ih =>
        rw [List.cons_append, withoutBlanks, if_pos (hblanks c List.mem_cons_self)]
        exact ih fun other hother => hblanks other (List.mem_cons_of_mem _ hother)

/-- Characters in ASCII of which none is a blank and none begins a string. -/
def IsBare (chars : List Char) : Prop :=
  ∀ c ∈ chars, c.toNat < 0x80 ∧ Reader.isSpace c = false ∧ c ≠ '"'

instance : DecidablePred IsBare := fun chars =>
  List.decidableBAll (fun c : Char => c.toNat < 0x80 ∧ Reader.isSpace c = false ∧ c ≠ '"') chars

theorem isLayoutOf_self {text : List Char} (hplain : IsBare text) : IsLayoutOf text text where
  ascii c hc := (hplain c hc).1
  withoutBlanks_append := by
    intro rest
    induction text with
    | nil => rfl
    | cons c text ih =>
        rcases hplain c List.mem_cons_self with ⟨-, hspace, hquote⟩
        have htext := ih fun other hother => hplain other (List.mem_cons_of_mem _ hother)
        simp [withoutBlanks, hspace, hquote, htext]

theorem withoutBlanks_cons {c : Char} (hquote : c ≠ '"') (hslash : c ≠ '\\')
    (rest : List Char) : withoutBlanks true (c :: rest) = c :: withoutBlanks true rest := by
  rw [withoutBlanks.eq_3 c rest (by simp [hslash])]
  simp [hquote]

namespace Printer

/-- A character of a written string that neither ends it nor changes how the next one is read. -/
def IsInner (c : Char) : Prop := c.toNat < 0x80 ∧ c ≠ '"' ∧ c ≠ '\\'

theorem isInner_digitChar {n : Nat} (hlt : n < 16) : IsInner (Nat.digitChar n) := by
  have hall : ∀ digit < 16, (Nat.digitChar digit).toNat < 0x80 ∧ Nat.digitChar digit ≠ '"' ∧
      Nat.digitChar digit ≠ '\\' := by decide
  exact hall n hlt

/-- What stands between the quotes of a written string. -/
inductive IsEscaped : List Char → Prop
  | nil : IsEscaped []
  | plain {c : Char} (hc : IsInner c) : IsEscaped [c]
  | marked {c : Char} (hc : c.toNat < 0x80) {rest : List Char} (hrest : ∀ d ∈ rest, IsInner d) :
      IsEscaped ('\\' :: c :: rest)
  | append {first second : List Char} (hfirst : IsEscaped first) (hsecond : IsEscaped second) :
      IsEscaped (first ++ second)

theorem IsEscaped.ascii {chars : List Char} (hescaped : IsEscaped chars) :
    ∀ c ∈ chars, c.toNat < 0x80 := by
  induction hescaped with
  | nil => simp
  | plain hc =>
      intro d hd
      rw [List.mem_singleton.1 hd]
      exact hc.1
  | marked hc hrest =>
      intro d hd
      rcases List.mem_cons.1 hd with rfl | hd
      · decide
      · rcases List.mem_cons.1 hd with rfl | hd
        · exact hc
        · exact (hrest d hd).1
  | append _ _ ihfirst ihsecond =>
      intro d hd
      rcases List.mem_append.1 hd with hd | hd
      · exact ihfirst d hd
      · exact ihsecond d hd

theorem withoutBlanks_inner {chars : List Char} (hinner : ∀ c ∈ chars, IsInner c)
    (rest : List Char) :
    withoutBlanks true (chars ++ rest) = chars ++ withoutBlanks true rest := by
  induction chars with
  | nil => rfl
  | cons c chars ih =>
      rcases hinner c List.mem_cons_self with ⟨-, hquote, hslash⟩
      rw [List.cons_append, withoutBlanks_cons hquote hslash,
        ih fun d hd => hinner d (List.mem_cons_of_mem _ hd), List.cons_append]

theorem IsEscaped.withoutBlanks_append {chars : List Char} (hescaped : IsEscaped chars)
    (rest : List Char) :
    withoutBlanks true (chars ++ rest) = chars ++ withoutBlanks true rest := by
  induction hescaped generalizing rest with
  | nil => rfl
  | plain hc => exact withoutBlanks_cons hc.2.1 hc.2.2 rest
  | marked _ hrest =>
      rw [List.cons_append, List.cons_append, withoutBlanks, withoutBlanks_inner hrest,
        List.cons_append, List.cons_append]
  | append _ _ ihfirst ihsecond =>
      rw [List.append_assoc, ihfirst, ihsecond, List.append_assoc]

theorem isEscaped_unicodeEscape {code : Nat} (hlt : code < 0x10000) :
    IsEscaped (unicodeEscape code).toList := by
  have hescape : (unicodeEscape code).toList = '\\' :: 'u' :: (hexDigits 4 code).toList := by
    rw [unicodeEscape, String.toList_append]
    rfl
  rw [hescape, toList_hexDigits hlt]
  apply IsEscaped.marked (by decide)
  intro d hd
  simp only [List.mem_cons, List.not_mem_nil, or_false] at hd
  rcases hd with rfl | rfl | rfl | rfl
  all_goals exact isInner_digitChar (by omega)

theorem Writes.isEscaped [Runtime] {c : Char} {chars : List Char} (hwrites : Writes c chars) :
    IsEscaped chars := by
  have hbounds := Text.toNat_bounds c
  cases hwrites with
  | itself hlow hhigh hquote hslash => exact .plain ⟨by omega, hquote, hslash⟩
  | short mark hmark hcode hascii hsmall => exact .marked hascii (by simp)
  | code hone => exact isEscaped_unicodeEscape (Text.codeOf_lt hone)
  | pair htwo =>
      exact .append (isEscaped_unicodeEscape (by omega)) (isEscaped_unicodeEscape (by omega))

theorem isEscaped_flatMap [Runtime] (chars : List Char) :
    IsEscaped (chars.flatMap fun c => (escapedChar c).toList) := by
  induction chars with
  | nil => exact .nil
  | cons c chars ih =>
      rw [List.flatMap_cons]
      exact .append (writes_escapedChar c).isEscaped ih

/-- A written text stays as it is in every layout. -/
theorem isLayoutOf_quoted [Runtime] (s : String) : IsLayoutOf (quoted s).toList (quoted s).toList
    where
  ascii := by
    intro c hc
    rw [toList_quoted] at hc
    rcases List.mem_cons.1 hc with rfl | hc
    · decide
    · rcases List.mem_append.1 hc with hc | hc
      · exact (isEscaped_flatMap s.toList).ascii c hc
      · rw [List.mem_singleton.1 hc]
        decide
  withoutBlanks_append := by
    intro rest
    rw [toList_quoted, List.cons_append, List.append_assoc]
    have hbody := (isEscaped_flatMap s.toList).withoutBlanks_append (['"'] ++ rest)
    have hopen : ∀ body, withoutBlanks false ('"' :: body) = '"' :: withoutBlanks true body :=
      fun _ => rfl
    have hclose : withoutBlanks true (['"'] ++ rest) = '"' :: withoutBlanks false rest := rfl
    rw [hopen, hbody, hclose]
    simp

/-! ## Rows between brackets -/

theorem values_eq_map [Runtime] (style : Indentation) (level : Nat) (items : List Json) :
    values style level items = items.map (value style level) := by
  induction items with
  | nil => rfl
  | cons item items ih => rw [values, ih, List.map_cons]

theorem members_eq_map [Runtime] (style : Indentation) (level : Nat) (entries : Entries Json) :
    members style level entries =
      entries.map fun entry => quoted entry.1 ++ ": " ++ value style level entry.2 := by
  induction entries with
  | nil => rfl
  | cons entry entries ih => rw [members, ih, List.map_cons]

theorem toList_member [Runtime] (name text : String) :
    (quoted name ++ ": " ++ text).toList = (quoted name).toList ++ ':' :: ' ' :: text.toList := by
  rw [String.toList_append, String.toList_append, List.append_assoc]
  rfl

variable {style : Indentation}

theorem isBlank_newline (hstyle : style.IsBlank) (level : Nat) :
    IsBlank (newline style level).toList := by
  cases style with
  | oneLine => simp [newline, IsBlank]
  | perLevel unit =>
      intro c hc
      simp only [newline, String.toList_append, String.toList_join, List.mem_append,
        List.mem_flatMap] at hc
      rcases hc with hc | ⟨other, hother, hc⟩
      · simp at hc
        rw [hc]
        decide
      · rw [List.eq_of_mem_replicate hother] at hc
        exact hstyle c hc

theorem exists_separator (hstyle : style.IsBlank) (level : Nat) :
    ∃ gap, IsBlank gap ∧ (separator style).toList ++ (newline style level).toList = ',' :: gap := by
  have hnewline := isBlank_newline hstyle level
  cases style with
  | oneLine =>
      refine ⟨' ' :: (newline .oneLine level).toList, ?_, rfl⟩
      intro c hc
      rcases List.mem_cons.1 hc with rfl | hc
      · decide
      · exact hnewline c hc
  | perLevel unit =>
      have hcomma : separator (.perLevel unit) = "," := rfl
      rw [hcomma]
      exact ⟨_, hnewline, rfl⟩

theorem enclosed_nil (style : Indentation) (level : Nat) (opening closing : String) :
    enclosed style level opening closing [] = opening ++ closing := rfl

/-- The text of a row between brackets. -/
theorem exists_enclosed {α : Type} (hstyle : style.IsBlank) (level : Nat)
    (opening closing : String) (text : α → String) (a : α) (as : List α) :
    ∃ start gap close, IsBlank start ∧ IsBlank gap ∧ IsBlank close ∧
      (enclosed style level opening closing ((a :: as).map text)).toList = opening.toList ++
        (start ++ ((',' :: gap).intercalate ((a :: as).map fun b => (text b).toList) ++
          (close ++ closing.toList))) := by
  rcases exists_separator hstyle (level + 1) with ⟨gap, hgap, hseparator⟩
  refine ⟨_, gap, _, isBlank_newline hstyle (level + 1), hgap, isBlank_newline hstyle level, ?_⟩
  have hfilled : ((a :: as).map text).isEmpty = false := rfl
  rw [enclosed, hfilled]
  simp only [Bool.false_eq_true, if_false, String.toList_append, String.toList_intercalate,
    hseparator, List.map_map, Function.comp_def, List.append_assoc]

variable {α : Type} {text bare : α → List Char}

theorem isLayoutOf_intercalate {separator separatorBare : List Char}
    (hseparator : IsLayoutOf separator separatorBare) (as : List α)
    (has : ∀ a ∈ as, IsLayoutOf (text a) (bare a)) :
    IsLayoutOf (separator.intercalate (as.map text)) (separatorBare.intercalate (as.map bare)) := by
  induction as with
  | nil => exact isLayoutOf_nil
  | cons a as ih =>
      have ha := has a List.mem_cons_self
      have hrest := ih fun b hb => has b (List.mem_cons_of_mem _ hb)
      cases as with
      | nil => simpa using ha
      | cons b as =>
          simp only [List.map_cons, List.intercalate_cons_cons] at hrest ⊢
          exact (ha.append hseparator).append hrest

/-- A row between brackets is a layout of the row without blanks. -/
theorem isLayoutOf_enclosed (hstyle : style.IsBlank) (level : Nat) {opening closing : String}
    (hopening : IsLayoutOf opening.toList opening.toList)
    (hclosing : IsLayoutOf closing.toList closing.toList) {text : α → String} (as : List α)
    (has : ∀ a ∈ as, IsLayoutOf (text a).toList (bare a)) :
    IsLayoutOf (enclosed style level opening closing (as.map text)).toList
      (opening.toList ++ ([','].intercalate (as.map bare) ++ closing.toList)) := by
  cases as with
  | nil =>
      rw [List.map_nil, enclosed_nil, String.toList_append]
      exact hopening.append hclosing
  | cons a as =>
      obtain ⟨start, gap, close, hstart, hgap, hclose, htext⟩ :=
        exists_enclosed hstyle level opening closing text a as
      have hcomma : IsLayoutOf [','] [','] := isLayoutOf_self (by decide)
      have hrow := isLayoutOf_intercalate (hcomma.append (isLayoutOf_blanks hgap)) (a :: as) has
      rw [htext]
      exact hopening.append ((isLayoutOf_blanks hstart).append
        (hrow.append ((isLayoutOf_blanks hclose).append hclosing)))

theorem isLayoutOf_member [Runtime] (s : String) {text bare : List Char}
    (hlayout : IsLayoutOf text bare) :
    IsLayoutOf ((quoted s).toList ++ ':' :: ' ' :: text) ((quoted s).toList ++ ':' :: bare) := by
  have hcolon : IsLayoutOf [':'] [':'] := isLayoutOf_self (by decide)
  have hspace : IsLayoutOf [' '] [] := isLayoutOf_blanks (by decide)
  exact (isLayoutOf_quoted s).append (hcolon.append (hspace.append hlayout))

theorem isLayoutOf_int (n : Int) : IsLayoutOf (toString n).toList (toString n).toList := by
  apply isLayoutOf_self
  intro c hc
  rcases Reader.isDigit_or_minus hc with hdigit | rfl
  · exact Reader.plain_of_isDigit hdigit
  · decide

end Printer

/-! ## Values without floats -/

/-- A value that has no floats, whose texts are joined, and whose objects have each name once. -/
inductive IsPlain [Runtime] : Json → Prop
  | null : IsPlain .null
  | bool (b : Bool) : IsPlain (.bool b)
  | int (n : Int) : IsPlain (.int n)
  | str {s : String} (hjoined : Text.IsJoined s) : IsPlain (.str s)
  | arr {items : List Json} (hitems : ∀ item ∈ items, IsPlain item) : IsPlain (.arr items)
  | obj {entries : Entries Json} (hnodup : entries.names.Nodup)
      (hnames : ∀ entry ∈ entries, Text.IsJoined entry.1)
      (hvalues : ∀ entry ∈ entries, IsPlain entry.2) : IsPlain (.obj entries)

/-- All texts of a value are layouts of one. -/
theorem IsPlain.exists_isLayoutOf [Runtime] {v : Json} (hplain : v.IsPlain) :
    ∃ bare, ∀ style : Indentation, style.IsBlank → ∀ level,
      IsLayoutOf (Printer.value style level v).toList bare := by
  induction hplain with
  | null =>
      have hnull : IsLayoutOf "null".toList "null".toList := isLayoutOf_self (by decide)
      exact ⟨_, fun _ _ _ => hnull⟩
  | bool b =>
      have hword : IsLayoutOf (if b then "true" else "false").toList
          (if b then "true" else "false").toList := by
        apply isLayoutOf_self
        cases b <;> decide
      exact ⟨_, fun _ _ _ => hword⟩
  | int n => exact ⟨_, fun _ _ _ => Printer.isLayoutOf_int n⟩
  | @str s _ => exact ⟨_, fun _ _ _ => Printer.isLayoutOf_quoted s⟩
  | @arr items _ ih =>
      choose! bare hbare using ih
      refine ⟨"[".toList ++ ([','].intercalate (items.map bare) ++ "]".toList), ?_⟩
      intro style hstyle level
      rw [Printer.value, Printer.values_eq_map]
      apply Printer.isLayoutOf_enclosed hstyle level
      · exact isLayoutOf_self (by decide)
      · exact isLayoutOf_self (by decide)
      · intro item hitem
        exact hbare item hitem style hstyle (level + 1)
  | @obj entries _ _ _ ih =>
      choose! bare hbare using ih
      refine ⟨"\x7b".toList ++ ([','].intercalate (entries.map fun entry =>
        (Printer.quoted entry.1).toList ++ ':' :: bare entry) ++ "\x7d".toList), ?_⟩
      intro style hstyle level
      rw [Printer.value, Printer.members_eq_map]
      apply Printer.isLayoutOf_enclosed hstyle level
      · exact isLayoutOf_self (by decide)
      · exact isLayoutOf_self (by decide)
      · intro entry hentry
        have hvalue := hbare entry hentry style hstyle (level + 1)
        rw [Printer.toList_member]
        exact Printer.isLayoutOf_member entry.1 hvalue

theorem render_ascii [Runtime] {v : Json} (hplain : v.IsPlain) {style : Indentation}
    (hstyle : style.IsBlank) : ∀ c ∈ (v.render style ++ "\n").toList, c.toNat < 0x80 := by
  rcases hplain.exists_isLayoutOf with ⟨bare, hlayout⟩
  intro c hc
  rw [String.toList_append, List.mem_append] at hc
  rcases hc with hc | hc
  · exact (hlayout style hstyle 0).ascii c hc
  · have hline : c = '\n' := by simpa using hc
    rw [hline]
    decide

/-- Styles differ in blanks outside of strings only. -/
theorem withoutBlanks_render [Runtime] {v : Json} (hplain : v.IsPlain) {first second : Indentation}
    (hfirst : first.IsBlank) (hsecond : second.IsBlank) :
    withoutBlanks false (v.render first ++ "\n").toList =
      withoutBlanks false (v.render second ++ "\n").toList := by
  rcases hplain.exists_isLayoutOf with ⟨bare, hlayout⟩
  have hbare : ∀ style : Indentation, style.IsBlank →
      withoutBlanks false (v.render style ++ "\n").toList = bare := by
    intro style hstyle
    rw [String.toList_append, render, (hlayout style hstyle 0).withoutBlanks_append]
    simp [withoutBlanks, Reader.isSpace]
  rw [hbare first hfirst, hbare second hsecond]

end Json

end ConfigSchema
