import ConfigSchema.Proofs.AlikeOutlines
import ConfigSchema.Proofs.PlacesByLevel
import ConfigSchema.Proofs.UnbrokenTexts

/-!
# Lines of a fragment

An entry of a fragment is one line that starts with two spaces for each type opened above it,
whatever the descriptions in it are.  So the spaces alone tell what is listed below what, and the
last lines of a fragment are its entries.
-/

namespace ConfigSchema

/-- The spaces at the start of a text. -/
def Text.leadingSpaces (text : String) : Nat :=
  (text.toList.takeWhile (· = ' ')).length

def IsEntryOfDepth (depth : Nat) (text : String) : Prop :=
  ∃ rest, text = String.ofList (List.replicate (2 * depth) ' ') ++ "* \x60" ++ rest

/-- Entries of a list, with the places at which they stand, that can be told from their texts. -/
structure ReadsBack (entries : List (List Nat × String)) : Prop where
  unbroken : ∀ entry ∈ entries, Text.IsUnbroken entry.2
  marked : ∀ entry ∈ entries, IsEntryOfDepth (entry.1.length - 1) entry.2
  first : ∀ entry, entries.head? = some entry → Text.leadingSpaces entry.2 = 0
  step : List.IsChain (fun spaces next => next ≤ spaces + 2)
    (entries.map fun entry => Text.leadingSpaces entry.2)
  /-- What is below an entry are those behind it that have more spaces, up to the first that has
  not. -/
  below : ∀ before entry after, entries = before ++ entry :: after →
    (after.takeWhile fun other => Text.leadingSpaces entry.2 < Text.leadingSpaces other.2) =
      entries.filter fun other => entry.1.isPrefixOf other.1 && other.1 ≠ entry.1
  places : placesFrom [] (entries.map fun entry => Text.leadingSpaces entry.2 / 2) =
    entries.map (·.1)

/-! ## Spaces -/

theorem IsEntryOfDepth.leadingSpaces_eq {depth : Nat} {text : String}
    (hentry : IsEntryOfDepth depth text) : Text.leadingSpaces text = 2 * depth := by
  rcases hentry with ⟨rest, rfl⟩
  have hspaces : ∀ c ∈ List.replicate (2 * depth) ' ', decide (c = ' ') = true := by
    intro c hc
    rw [List.eq_of_mem_replicate hc]
    rfl
  rw [Text.leadingSpaces, String.toList_append, String.toList_append, String.toList_ofList,
    List.append_assoc, List.takeWhile_append_of_pos hspaces]
  simp

theorem takeWhile_congr_of_mem {α : Type} {list : List α} {p q : α → Bool}
    (hsame : ∀ a ∈ list, p a = q a) : list.takeWhile p = list.takeWhile q := by
  induction list with
  | nil => rfl
  | cons a rest ih =>
      rw [List.forall_mem_cons] at hsame
      rw [List.takeWhile_cons, List.takeWhile_cons, hsame.1, ih hsame.2]

theorem readsBack_of_areNumbered {entries : List (List Nat × String)}
    (hways : AreNumbered (entries.map (·.1)))
    (hunbroken : ∀ entry ∈ entries, Text.IsUnbroken entry.2)
    (hmarked : ∀ entry ∈ entries, IsEntryOfDepth (entry.1.length - 1) entry.2) :
    ReadsBack entries := by
  have hspaces : ∀ entry ∈ entries, Text.leadingSpaces entry.2 = 2 * (entry.1.length - 1) :=
    fun entry hentry => (hmarked entry hentry).leadingSpaces_eq
  have hsteps : ∀ entry ∈ entries, 0 < entry.1.length := fun entry hentry =>
    List.length_pos_of_ne_nil (hways.ne_nil entry.1 (List.mem_map_of_mem hentry))
  have hchain := hways.isChain
  refine ⟨hunbroken, hmarked, ?_, ?_, ?_, ?_⟩
  · intro entry hhead
    cases entries with
    | nil => simp at hhead
    | cons first rest =>
        rw [List.head?_cons, Option.some.injEq] at hhead
        rw [List.map_cons, List.isChain_cons_cons] at hchain
        have hlength : first.1.length ≤ 1 := hchain.1.2
        rw [← hhead, hspaces first List.mem_cons_self]
        omega
  · have hmap : (entries.map fun entry => Text.leadingSpaces entry.2) =
        (entries.map (·.1)).map fun way => 2 * (way.length - 1) := by
      rw [List.map_map]
      exact List.map_congr_left hspaces
    rw [hmap, List.isChain_map]
    refine hchain.tail.imp fun way next hfollows => ?_
    have hlength := hfollows.2
    omega
  · intro before entry after hsplit
    have hentry : entry ∈ entries := by
      rw [hsplit]
      simp
    rw [← hways.takeWhile_eq_filter hsplit]
    refine takeWhile_congr_of_mem fun other hother => ?_
    have hmem : other ∈ entries := by
      rw [hsplit]
      simp [hother]
    rw [hspaces entry hentry, hspaces other hmem, decide_eq_decide]
    have hentrySteps := hsteps entry hentry
    have hotherSteps := hsteps other hmem
    omega
  · have hmap : (entries.map fun entry => Text.leadingSpaces entry.2 / 2) =
        (entries.map (·.1)).map fun way => way.length - 1 := by
      rw [List.map_map]
      refine List.map_congr_left fun entry hentry => ?_
      rw [hspaces entry hentry, Nat.mul_div_cancel_left _ (by decide)]
      rfl
    rw [hmap, placesFrom_eq_of_isChain hchain]

/-! ## Names that lines show -/

/-- The names that a type shows in an outline. -/
def TypeDef.shownNames (type : TypeDef) : List String :=
  type.name ::
    match type.shape with
    | .object fields _ => fields.map (·.name)
    | .interface fields _ => fields.map (·.name)
    | .enum values => values
    | .union members => members
    | _ => []

def Item.name : Item → String
  | .field f => f.name
  | .member name => name

theorem TypeDef.name_mem_shownNames {type : TypeDef} {part : Item} (hpart : part ∈ type.parts) :
    part.name ∈ type.shownNames := by
  unfold TypeDef.parts TypeDef.parts? at hpart
  unfold TypeDef.shownNames
  cases hshape : type.shape with
  | object fields interfaces =>
      rw [hshape] at hpart
      rcases List.mem_map.1 hpart with ⟨field, hfield, rfl⟩
      exact List.mem_cons_of_mem _ (List.mem_map_of_mem hfield)
  | interface fields interfaces =>
      rw [hshape] at hpart
      rcases List.mem_map.1 hpart with ⟨field, hfield, rfl⟩
      exact List.mem_cons_of_mem _ (List.mem_map_of_mem hfield)
  | union members =>
      rw [hshape] at hpart
      rcases List.mem_map.1 hpart with ⟨name, hname, rfl⟩
      exact List.mem_cons_of_mem _ hname
  | scalar | enum | other =>
      rw [hshape] at hpart
      simp at hpart

theorem TypeDef.isUnbroken_label {type : TypeDef}
    (hshown : ∀ name ∈ type.shownNames, Introspection.isName name = true) :
    Text.IsUnbroken type.label := by
  have hname : Text.IsUnbroken type.name :=
    Text.isUnbroken_of_isName (hshown type.name List.mem_cons_self)
  unfold TypeDef.label
  cases hshape : type.shape with
  | object => exact (by decide : Text.IsUnbroken "object")
  | union => exact (by decide : Text.IsUnbroken "one of")
  | enum values =>
      have hvalues : ∀ value ∈ values, Text.IsUnbroken value := by
        intro value hvalue
        refine Text.isUnbroken_of_isName (hshown value ?_)
        rw [TypeDef.shownNames, hshape]
        exact List.mem_cons_of_mem type.name hvalue
      have hjoined : Text.IsUnbroken (" | ".intercalate values) :=
        Text.isUnbroken_intercalate (by decide) hvalues
      simp only [Text.isUnbroken_append_iff, hjoined]
      decide
  | scalar | interface | other => exact hname

theorem TypeRef.isUnbroken_labelOver {base : String} (hbase : Text.IsUnbroken base)
    (ref : TypeRef) : Text.IsUnbroken (ref.labelOver base) := by
  induction ref with
  | named name => exact hbase
  | list of ih =>
      simp only [TypeRef.labelOver, Text.isUnbroken_append_iff, ih]
      decide
  | required of ih => exact ih

theorem Line.isUnbroken_code {text : String} (htext : Text.IsUnbroken text) :
    Text.IsUnbroken (Line.code text) := by
  simp only [Line.code, Text.isUnbroken_append_iff, htext]
  decide

theorem Item.isUnbroken_head {item : Item} {type : TypeDef}
    (hname : Introspection.isName item.name = true)
    (hshown : ∀ name ∈ type.shownNames, Introspection.isName name = true) :
    Text.IsUnbroken (item.head type).render := by
  have hlabel := TypeDef.isUnbroken_label hshown
  have hcode := Line.isUnbroken_code (Text.isUnbroken_of_isName hname)
  cases item with
  | field f =>
      have hover := Line.isUnbroken_code (TypeRef.isUnbroken_labelOver hlabel f.type)
      have hrequired : Text.IsUnbroken (if f.type.isRequired then ", required" else "") := by
        split <;> decide
      have habout : Text.IsUnbroken ((f.description.map Text.oneLine).getD "") := by
        cases f.description with
        | none => exact (by decide : Text.IsUnbroken "")
        | some text => exact Text.isUnbroken_oneLine text
      simp only [Item.head, Head.render, Text.isUnbroken_append_iff, hover, hrequired]
      refine ⟨⟨⟨⟨⟨hcode, by decide⟩, trivial⟩, trivial⟩, by decide⟩, ?_⟩
      split
      · decide
      · rw [Text.isUnbroken_append_iff]
        exact ⟨by decide, habout⟩
  | member name =>
      have hplain := Line.isUnbroken_code hlabel
      rw [Item.head]
      split
      · simp only [Head.render, Text.isUnbroken_append_iff, hplain]
        exact ⟨⟨⟨hcode, by decide⟩, trivial⟩, by decide⟩
      · exact hplain

theorem Head.render_starts (head : Head) : ∃ rest, head.render = "\x60" ++ rest := by
  cases head with
  | field name label isRequired description =>
      simp only [Head.render, Line.code, String.append_assoc]
      exact ⟨_, rfl⟩
  | member name label =>
      simp only [Head.render, Line.code, String.append_assoc]
      exact ⟨_, rfl⟩
  | plain label =>
      simp only [Head.render, Line.code, String.append_assoc]
      exact ⟨_, rfl⟩

theorem Line.isEntryOfDepth_render {line : Line} {depth : Nat} (hlevel : line.level = depth) :
    IsEntryOfDepth depth line.render := by
  rcases line.head.render_starts with ⟨rest, hrest⟩
  refine ⟨rest ++ line.ending.render, ?_⟩
  rw [Line.render, Line.indent, hrest, hlevel, Int.toNat_natCast]
  simp only [String.append_assoc]
  rfl

namespace TypeGraph

/-- All names that types of the graph show are names of the language. -/
def IsSpelled (graph : TypeGraph) : Prop :=
  ∀ type, graph.Holds type → ∀ name ∈ type.shownNames, Introspection.isName name = true

variable {graph : TypeGraph} {chain : List String} {items : List Item} {way : List Nat}
  {line : Line} {type : TypeDef}

theorem IsLineAt.level_eq (hline : graph.IsLineAt chain items 0 way line) :
    line.level = (way.length - 1 : Nat) := by
  rcases hline with ⟨opened, item, type, hplace, -, rfl⟩
  rw [hplace.length_way]
  simp

theorem isUnbroken_ending {names : List String}
    (hshown : ∀ name ∈ type.shownNames, Introspection.isName name = true) :
    Text.IsUnbroken (type.endingBelow names).render := by
  have hname := Text.isUnbroken_of_isName (hshown type.name List.mem_cons_self)
  unfold TypeDef.endingBelow
  split
  · decide
  · split
    · simp only [Ending.render, Text.isUnbroken_append_iff, Line.isUnbroken_code hname]
      decide
    · decide

theorem IsSpelled.isUnbroken (hspelled : graph.IsSpelled) (htype : graph.Holds type)
    (hline : graph.IsLineAt chain type.parts 0 way line) : Text.IsUnbroken line.render := by
  rcases hline with ⟨opened, item, target, hplace, hget, rfl⟩
  have hshown := hspelled target (.inr ⟨item.target, hget⟩)
  have hname : Introspection.isName item.name = true := by
    rcases hplace.mem_items_or with hpart | ⟨name, other, hother, hpart⟩
    · exact hspelled type htype item.name (TypeDef.name_mem_shownNames hpart)
    · exact hspelled other (.inr ⟨name, hother⟩) item.name (TypeDef.name_mem_shownNames hpart)
  have hspaces : Text.IsUnbroken (Line.indent (0 + opened.length)) := by
    intro c hc
    rw [Line.indent, String.toList_ofList] at hc
    rw [List.eq_of_mem_replicate hc]
    decide
  simp only [Line.render, Text.isUnbroken_append_iff, hspaces, Item.isUnbroken_head hname hshown,
    isUnbroken_ending hshown]
  decide

/-- Where all names are names of the language, the entries below a type can be read back. -/
theorem ListsPlaces.readsBack {ways : List (List Nat)} {lines : List Line}
    (hspelled : graph.IsSpelled) (htype : graph.Holds type)
    (hlists : graph.ListsPlaces chain type.parts 0 ways lines) :
    ReadsBack (ways.zip (lines.map Line.render)) := by
  have hlength : ways.length = (lines.map Line.render).length := by
    rw [List.length_map]
    exact hlists.isLineAt.length_eq
  have hentries : ∀ entry ∈ ways.zip (lines.map Line.render), ∃ line,
      graph.IsLineAt chain type.parts 0 entry.1 line ∧ entry.2 = line.render := by
    intro entry hentry
    rw [List.zip_map_right] at hentry
    rcases List.mem_map.1 hentry with ⟨⟨way, line⟩, hpair, rfl⟩
    exact ⟨line, (List.forall₂_iff_zip.1 hlists.isLineAt).2 hpair, rfl⟩
  apply readsBack_of_areNumbered
  · rw [List.map_fst_zip hlength.le]
    exact hlists.areNumbered
  · intro entry hentry
    rcases hentries entry hentry with ⟨line, hline, hrender⟩
    rw [hrender]
    exact hspelled.isUnbroken htype hline
  · intro entry hentry
    rcases hentries entry hentry with ⟨line, hline, hrender⟩
    rw [hrender]
    exact Line.isEntryOfDepth_render hline.level_eq

/-! ## Fragments -/

theorem toList_fragmentText (description : Option String) (texts : List String) :
    let about := Text.stripped (description.getD "")
    (fragmentText description texts).toList =
      if about = "" then Text.endedLines texts
      else about.toList ++ '\n' :: ([] ++ '\n' :: Text.endedLines texts) := by
  intro about
  rw [fragmentText, String.toList_append, Text.toList_join_map]
  split
  · rfl
  · rw [String.toList_append, List.append_assoc]
    rfl

/-- The lines of a fragment are those of the description, an empty one, and the entries. -/
theorem lines_fragmentText (description : Option String) {texts : List String}
    (htexts : ∀ text ∈ texts, Text.IsUnbroken text) :
    let about := Text.stripped (description.getD "")
    Text.lines (fragmentText description texts).toList =
      (if about = "" then [] else Text.lines about.toList ++ [[]]) ++
        texts.map String.toList := by
  intro about
  rw [toList_fragmentText]
  by_cases habout : about = ""
  · rw [if_pos habout, if_pos habout, Text.lines_endedLines htexts, List.nil_append]
  · rw [if_neg habout, if_neg habout]
    have hletters : about.toList ≠ [] := fun hnil => habout (String.toList_eq_nil_iff.1 hnil)
    have hlast : ∀ c, about.toList.getLast? = some c → Text.isLineEnd c = false :=
      fun c hc => Text.isLineEnd_of_not_isBlank (Text.not_isBlank_of_getLast?_stripped hc)
    rw [Text.lines, Text.linesFrom_append _ (fun hnil => absurd hnil hletters) hlast,
      Text.linesFrom_of_unbroken (by simp), List.append_assoc, ← Text.lines_endedLines htexts]
    rfl

/-- The same holds of what stands between the line feeds of a fragment, the last of which ends the
last entry. -/
theorem parts_fragmentText (description : Option String) {texts : List String}
    (htexts : ∀ text ∈ texts, Text.IsUnbroken text) :
    let about := Text.stripped (description.getD "")
    Text.parts '\n' (fragmentText description texts) =
      (if about = "" then [] else Text.parts '\n' about ++ [""]) ++ texts ++ [""] := by
  intro about
  have hsame : (texts.map String.toList).map String.ofList = texts := by
    rw [List.map_map]
    exact (List.map_congr_left fun text _ => String.ofList_toList).trans (List.map_id texts)
  rw [Text.parts, toList_fragmentText]
  by_cases habout : about = ""
  · rw [if_pos habout, if_pos habout, Text.cut_endedLines htexts, List.map_append, hsame]
    rfl
  · have hnone : Text.cut '\n' [] = [[]] := rfl
    rw [if_neg habout, if_neg habout, Text.cut_append, Text.cut_append, hnone,
      Text.cut_endedLines htexts, Text.parts]
    simp only [List.map_append, hsame, List.append_assoc]
    rfl

/-- In a graph whose names are names of the language, every fragment can be read back. -/
theorem fragment_reads_back [Runtime] {content : String} (hspelled : graph.IsSpelled)
    (htype : graph.Holds type) (hkind : type.isObject = true) {under : List Call}
    (hcontent : graph.fragmentOf type under = .ok content) :
    ∃ (entries : List (List Nat × String)) (lines : List Line),
      let texts := entries.map (·.2)
      let about := Text.stripped (type.description.getD "")
      graph.ListsPlaces [type.name] type.parts 0 (entries.map (·.1)) lines ∧
        texts = lines.map Line.render ∧
        graph.fieldLines type 0 [type.name] (.renderType :: under) = .ok texts ∧
        ReadsBack entries ∧
        content = (if about = "" then "" else about ++ "\n\n") ++
          String.join (texts.map (· ++ "\n")) ∧
        Text.lines content.toList =
          (if about = "" then [] else Text.lines about.toList ++ [[]]) ++
            texts.map String.toList ∧
        Text.parts '\n' content =
          (if about = "" then [] else Text.parts '\n' about ++ [""]) ++ texts ++ [""] := by
  have hfields := TypeDef.fields?_of_isObject hkind
  rw [fragmentOf] at hcontent
  rcases fieldLines_cases hfields [type.name] 0 (.renderType :: under) with
    ⟨-, hok, ways, hlists⟩ | ⟨-, herror⟩ | ⟨way, opened, part, -, -, herror⟩
  · rw [hok] at hcontent ⊢
    generalize (graph.outline [type.name] 0 (whileListing (.renderType :: under))
      type.parts).trail = lines at hlists hcontent ⊢
    have hlength : ways.length = (lines.map Line.render).length := by
      rw [List.length_map]
      exact hlists.isLineAt.length_eq
    have hways := List.map_fst_zip hlength.le
    have htexts := List.map_snd_zip hlength.ge
    have hreads := hlists.readsBack hspelled htype
    have hunbroken : ∀ text ∈ lines.map Line.render, Text.IsUnbroken text := by
      rw [← htexts]
      intro text htext
      rcases List.mem_map.1 htext with ⟨entry, hentry, rfl⟩
      exact hreads.unbroken entry hentry
    obtain rfl : fragmentText type.description (lines.map Line.render) = content :=
      Except.ok.inj hcontent
    refine ⟨ways.zip (lines.map Line.render), lines, ?_⟩
    simp only [hways, htexts]
    exact ⟨hlists, trivial, trivial, hreads, rfl, lines_fragmentText type.description hunbroken,
      parts_fragmentText type.description hunbroken⟩
  · rw [herror] at hcontent
    contradiction
  · rw [herror] at hcontent
    contradiction

def shelfField : Field :=
  { name := "shelf", type := .named "Shelf", description := some "One\r\n\u2003more\u0085" }

def nextField : Field :=
  { name := "next", type := .list (.named "Query") }

def sizeField : Field :=
  { name := "size", type := .required (.named "Size"), description := some "small\u000bor large" }

/-- Types whose descriptions have blanks of many kinds in them. -/
def spacedTypes : List TypeDef :=
  [{ name := "Query", description := some "\n Of all\u2028\tthings "
     shape := .object [shelfField, nextField] [] },
    { name := "Shelf", shape := .object [sizeField] [] },
    { name := "Size", shape := .enum ["SMALL", "LARGE"] }]

theorem isSpelled_spacedTypes : (ofTypes spacedTypes).IsSpelled := by
  have hall : ∀ type ∈ spacedTypes, ∀ name ∈ type.shownNames,
      Introspection.isName name = true := by decide
  have hindexed : (ofTypes spacedTypes).IsIndexed := isIndexed_ofTypes [] (by decide)
  rintro type (hmem | ⟨name, hget⟩)
  · exact hall type hmem
  · exact hall type ((hindexed name type).1 hget).1

/-- The lines of a fragment of these types, the second one of which stands below the first. -/
def spacedLines : List String :=
  ["* \x60shelf\x60 (type: \x60object\x60) - One more:",
    "  * \x60size\x60 (type: \x60String (SMALL | LARGE)\x60, required) - small or large",
    "* \x60next\x60 (type: \x60Array<object>\x60): see \x60Query\x60"]

section Usual

attribute [local instance] Runtime.usual

theorem fieldLines_spacedTypes :
    (ofTypes spacedTypes).fieldLines spacedTypes[0] 0 ["Query"] [.renderType, .render] =
      .ok spacedLines := by
  have hshelf : (ofTypes spacedTypes).index.get? (Item.field shelfField).target =
      some spacedTypes[1] := by decide
  have hnext : (ofTypes spacedTypes).index.get? (Item.field nextField).target =
      some spacedTypes[0] := by decide
  have hsize : (ofTypes spacedTypes).index.get? (Item.field sizeField).target =
      some spacedTypes[2] := by decide
  have hbelow : (ofTypes spacedTypes).outline ["Shelf", "Query"] (0 + 1)
      (spacedTypes[1].partsCalls ++ whileListing [.renderType, .render]) [.field sizeField] =
      Traced.leave [⟨1, .field "size" "String (SMALL | LARGE)" true "small or large", .leaf⟩] := by
    rw [outline_cons (by decide) hsize]
    simp only [outline]
    rfl
  have hlast : (ofTypes spacedTypes).outline ["Query"] 0 (whileListing [.renderType, .render])
      [.field nextField] =
      Traced.leave [⟨0, .field "next" "Array<object>" false "", .backReference "Query"⟩] := by
    rw [outline_cons (by decide) hnext]
    simp only [outline]
    rfl
  have hfields : spacedTypes[0].fields? = some [shelfField, nextField] := rfl
  have hparts : spacedTypes[0].parts = [.field shelfField, .field nextField] := rfl
  have hopened : spacedTypes[1].parts? = some [.field sizeField] := rfl
  have hname : spacedTypes[1].name = "Shelf" := rfl
  have hnew : "Shelf" ∉ ["Query"] := by decide
  rw [fieldLines_eq _ _ _ _ hfields, hparts, outline_cons (by decide) hshelf]
  simp only [hopened, hname, if_neg hnew, hbelow, hlast]
  decide

theorem spacedTypes_read_back :
    (ofTypes spacedTypes).IsSpelled ∧
      ∃ (text : String) (entries : List (List Nat × String)),
        (ofTypes spacedTypes).fragmentOf spacedTypes[0] [.render] = .ok text ∧
          ReadsBack entries ∧ entries.map (·.2) = spacedLines ∧
          text = "Of all\u2028\tthings" ++ "\n\n" ++ String.join (spacedLines.map (· ++ "\n")) := by
  have hheld : (ofTypes spacedTypes).Holds spacedTypes[0] := .inl List.mem_cons_self
  have hlines : (ofTypes spacedTypes).fieldLines spacedTypes[0] 0 [spacedTypes[0].name]
      [.renderType, .render] = .ok spacedLines := fieldLines_spacedTypes
  have htext : (ofTypes spacedTypes).fragmentOf spacedTypes[0] [.render] =
      .ok (fragmentText spacedTypes[0].description spacedLines) := by
    rw [fragmentOf, hlines]
    rfl
  obtain ⟨entries, lines, -, -, hlisted, hreads, hcontent, -⟩ :=
    fragment_reads_back isSpelled_spacedTypes hheld rfl htext
  rw [hlines, Except.ok.injEq] at hlisted
  rw [← hlisted] at hcontent
  exact ⟨isSpelled_spacedTypes, _, entries, htext, hreads, hlisted.symm, hcontent⟩

end Usual

end TypeGraph

end ConfigSchema
