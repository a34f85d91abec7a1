import ConfigSchema.Files.Writing
import ConfigSchema.Proofs.ExactDocuments
import Mathlib.Algebra.Group.Int.Defs

/-!
# The text of a schema document

The text of a document is in ASCII, is read back as the document in every indentation, and the
indentation only decides about blanks outside of strings.  Counts that no indentation has give no
text, and neither do settings that nest too deep or have too long an integer.
-/

namespace ConfigSchema

/-! ## Indentations -/

namespace Json

/-- A setting for an indentation that consists of blanks: none, a count, or a text of blanks. -/
def IsBlankIndent : Json → Prop
  | .null => True
  | .bool _ => True
  | .int _ => True
  | .str unit => IsBlank unit.toList
  | _ => False

theorem isBlank_of_ofJson [Runtime] {indent : Json} (hindent : indent.IsBlankIndent)
    {style : Indentation} (hstyle : Indentation.ofJson indent = .ok style) : style.IsBlank := by
  cases indent with
  | null =>
      obtain rfl := Except.ok.inj hstyle
      trivial
  | bool b =>
      obtain rfl := Except.ok.inj hstyle
      cases b <;> simp [Indentation.IsBlank] <;> decide
  | int n =>
      simp only [Indentation.ofJson, Indentation.ofCount] at hstyle
      split_ifs at hstyle
      obtain rfl := Except.ok.inj hstyle
      intro c hc
      rw [String.toList_ofList] at hc
      rw [List.eq_of_mem_replicate hc]
      decide
  | str unit =>
      obtain rfl := Except.ok.inj hstyle
      exact hindent
  | float x => contradiction
  | arr items => contradiction
  | obj entries => contradiction

/-- Of the blank settings only counts are refused: those that are no machine word, and those of
more blanks than there is memory for. -/
theorem ofJson_eq_error_iff [Runtime] {indent : Json} (hindent : indent.IsBlankIndent)
    {e : Unindentable} :
    Indentation.ofJson indent = .error e ↔ ∃ n : Int, indent = .int n ∧
      (e = .overflow ∧ (n < -2 ^ 63 ∨ 2 ^ 63 ≤ n) ∨
        e = .tooWide ∧ Runtime.affords n.toNat = false ∧ -2 ^ 63 ≤ n ∧ n < 2 ^ 63) := by
  cases indent with
  | null => simp [Indentation.ofJson]
  | bool b => simp [Indentation.ofJson]
  | str unit => simp [Indentation.ofJson]
  | int n =>
      simp only [Indentation.ofJson, Indentation.ofCount, Json.int.injEq, exists_eq_left']
      by_cases hword : n < -0x8000000000000000 ∨ 0x8000000000000000 ≤ n
      · rw [if_pos hword, Except.error.injEq]
        constructor
        · rintro rfl
          exact .inl ⟨rfl, by omega⟩
        · rintro (⟨rfl, -⟩ | ⟨-, -, hlow, hhigh⟩)
          · rfl
          · omega
      · rw [if_neg hword]
        cases haffords : Runtime.affords n.toNat with
        | false =>
            rw [Bool.not_false, if_pos rfl, Except.error.injEq]
            constructor
            · rintro rfl
              exact .inr ⟨rfl, rfl, by omega⟩
            · rintro (⟨-, hoverflow⟩ | ⟨rfl, -⟩)
              · omega
              · rfl
        | true =>
            simp only [Bool.not_true, Bool.false_eq_true, if_false, reduceCtorEq, false_and,
              and_false, or_false, false_iff, not_and]
            omega
  | float x => contradiction
  | arr items => contradiction
  | obj entries => contradiction

end Json

namespace SchemaDocument

variable [Runtime] {document : SchemaDocument} {style : Json.Indentation} {text : String}

theorem text_eq_ok_iff :
    document.text style = .ok text ↔
      Json.Fits (Runtime.writingDepth (style = .oneLine)) document.toJson ∧
        document.render style = text := by
  unfold SchemaDocument.text
  rw [Results.map_eq_ok_iff]
  constructor
  · rintro ⟨body, hwritten, rfl⟩
    rcases Json.written_eq_ok_iff.1 hwritten with ⟨hfits, rfl⟩
    exact ⟨hfits, rfl⟩
  · rintro ⟨hfits, rfl⟩
    exact ⟨_, Json.written_eq_ok_iff.2 ⟨hfits, rfl⟩, rfl⟩

/-- What a check says of the text of a document is what reading it says. -/
theorem checkDocument_of_read (hread : Json.read text .check = .ok document.toJson) :
    Files.checkDocument text = .ok () := by
  unfold Files.checkDocument
  rw [hread]
  rfl

theorem checkDocument_of_deep (hread : Json.read text .check = .error (.beyond .depth)) :
    Files.checkDocument text = .error (.beyond .depth) := by
  unfold Files.checkDocument
  rw [hread]

/-- A text reads back as a document for those who have room for it; for others it goes too deep,
which is all that a check may find wrong with it. -/
structure ReadsBack (document : SchemaDocument) (text : String) : Prop where
  read : ∀ purpose,
    Json.read text purpose = .ok document.toJson ∧
        Json.Fits (Runtime.readingDepth purpose) document.toJson ∨
      Json.read text purpose = .error (.beyond .depth) ∧
        ¬ Json.Fits (Runtime.readingDepth purpose) document.toJson
  check :
    Files.checkDocument text = .ok () ∧ Json.Fits (Runtime.readingDepth .check) document.toJson ∨
      Files.checkDocument text = .error (.beyond .depth) ∧
        ¬ Json.Fits (Runtime.readingDepth .check) document.toJson

theorem readsBack_of_text (hplain : document.toJson.IsPlain) (hstyle : style.IsBlank)
    (htext : document.text style = .ok text) : document.ReadsBack text := by
  rcases text_eq_ok_iff.1 htext with ⟨hfits, rfl⟩
  have hread := Json.read_render_cases hfits hplain hstyle
  refine ⟨hread, ?_⟩
  rcases hread .check with ⟨hok, hroom⟩ | ⟨hdeep, hnone⟩
  · exact .inl ⟨checkDocument_of_read hok, hroom⟩
  · exact .inr ⟨checkDocument_of_deep hdeep, hnone⟩

end SchemaDocument

namespace TypeGraph

variable {graph : TypeGraph}

/-- Of a document that nests deeper than its graph makes it only the settings decide. -/
theorem fits_document_iff [Runtime] (hjoined : graph.HasJoinedTexts) {settings : Settings}
    {asked : Json} {document : SchemaDocument} (hok : graph.document settings asked = .ok document)
    {room : Nat} (hroom : 2 * graph.nesting + 4 ≤ room) :
    Json.Fits (room + 1) document.toJson ↔
      Json.Fits room settings.title ∧ Json.Fits room settings.schemaUri := by
  rcases hasExactParts_of_document hjoined hok with ⟨hparts, htitleEq, huriEq⟩
  rw [← htitleEq, ← huriEq]
  exact hparts.fits_iff hroom

/-- With a blank indentation every count but one that is no machine word or too wide is taken.  A
document has a text exactly if it fits what is written, and where there is room for the expansions
of its graph only the settings decide about that.  The text is in ASCII, is the same in all
indentations but for blanks outside of strings, and reads back as the document. -/
theorem document_text_reads_back [Runtime] (hjoined : graph.HasJoinedTexts) {settings : Settings}
    {asked : Json} {document : SchemaDocument} (hok : graph.document settings asked = .ok document)
    (htitle : settings.title.IsPlain) (huri : settings.schemaUri.IsPlain) {indent : Json}
    (hindent : indent.IsBlankIndent) :
    (∀ e, Json.Indentation.ofJson indent = .error e ↔ ∃ n : Int, indent = .int n ∧
      (e = .overflow ∧ (n < -2 ^ 63 ∨ 2 ^ 63 ≤ n) ∨
        e = .tooWide ∧ Runtime.affords n.toNat = false ∧ -2 ^ 63 ≤ n ∧ n < 2 ^ 63)) ∧
    (∀ room, 2 * graph.nesting + 4 ≤ room →
      (Json.Fits (room + 1) document.toJson ↔
        Json.Fits room settings.title ∧ Json.Fits room settings.schemaUri)) ∧
    ∀ style, Json.Indentation.ofJson indent = .ok style →
      ((∃ text, document.text style = .ok text) ↔
        Json.Fits (Runtime.writingDepth (style = .oneLine)) document.toJson) ∧
      ∀ text, document.text style = .ok text →
        (∀ c ∈ text.toList, c.toNat < 0x80) ∧
        (∀ other otherText, other.IsBlank → document.text other = .ok otherText →
          Json.withoutBlanks false text.toList = Json.withoutBlanks false otherText.toList) ∧
        document.ReadsBack text := by
  rcases hasExactParts_of_document hjoined hok with ⟨hparts, htitleEq, huriEq⟩
  have hplain : document.toJson.IsPlain :=
    hparts.isPlain (by rw [htitleEq]; exact htitle) (by rw [huriEq]; exact huri)
  refine ⟨fun e => Json.ofJson_eq_error_iff hindent,
    fun room hroom => fits_document_iff hjoined hok hroom, ?_⟩
  intro style hstyle
  have hblank := Json.isBlank_of_ofJson hindent hstyle
  constructor
  · constructor
    · rintro ⟨text, htext⟩
      exact (SchemaDocument.text_eq_ok_iff.1 htext).1
    · intro hfits
      exact ⟨_, SchemaDocument.text_eq_ok_iff.2 ⟨hfits, rfl⟩⟩
  intro text htext
  have hback := SchemaDocument.readsBack_of_text hplain hblank htext
  obtain ⟨-, rfl⟩ := SchemaDocument.text_eq_ok_iff.1 htext
  refine ⟨Json.render_ascii hplain hblank, ?_, hback⟩
  intro other otherText hother hwritten
  obtain ⟨-, rfl⟩ := SchemaDocument.text_eq_ok_iff.1 hwritten
  exact Json.withoutBlanks_render hplain hblank hother

section Usual

attribute [local instance] Runtime.usual

theorem hasJoinedTexts_shelfTypes : (ofTypes shelfTypes).HasJoinedTexts := by
  have hindexed : (ofTypes shelfTypes).IsIndexed := isIndexed_ofTypes [] nodup_names_shelfTypes
  have hall : ∀ type ∈ shelfTypes, ∀ text ∈ type.texts, Text.IsAscii text := by decide
  intro type htype text htext
  rcases htype with hmem | ⟨name, hget⟩
  · exact Text.isJoined_of_ascii (hall type hmem text htext)
  · exact Text.isJoined_of_ascii (hall type ((hindexed name type).1 hget).1 text htext)

theorem exists_shelf_document (settings : Settings) :
    ∃ document, (ofTypes shelfTypes).document settings (.str "Query") = .ok document :=
  exists_document (isIndexed_ofTypes [] nodup_names_shelfTypes) isClosed_shelfTypes
    ranksVariants_shelfTypes.hasFiniteUnions not_isTooDeep_shelfTypes settings (by decide)
    (by decide)

theorem isPlain_defaultUri : ({} : Settings).schemaUri.IsPlain :=
  .str (Text.isJoined_of_ascii (by decide))

theorem shelfTypes_text_reads_back :
    let settings : Settings := { title := .arr [.str "Größe 𝄞\n", .int (-7), .obj []] }
    ∃ document, (ofTypes shelfTypes).document settings (.str "Query") = .ok document ∧
      Json.Indentation.ofJson (.int 2) = .ok (.perLevel "  ") ∧
      ∃ text, document.text (.perLevel "  ") = .ok text ∧ Files.checkDocument text = .ok () ∧
        Json.read text = .ok document.toJson := by
  intro settings
  rcases exists_shelf_document settings with ⟨document, hok⟩
  have htitle : settings.title.IsPlain := by
    apply Json.IsPlain.arr
    simp only [List.mem_cons, List.not_mem_nil, or_false, forall_eq_or_imp, forall_eq]
    exact ⟨.str (by decide), .int _, .obj (by decide) (by simp) (by simp)⟩
  have hfits : Json.Fits 986 settings.title := by
    apply Json.Fits.arr
    simp only [List.mem_cons, List.not_mem_nil, or_false, forall_eq_or_imp, forall_eq]
    have hseven : (-7 : Int).natAbs < 10 ^ Decimal.digitLimit :=
      Nat.lt_of_lt_of_le (by decide : (-7 : Int).natAbs < 10) (Nat.le_self_pow (by decide) 10)
    exact ⟨.str _, .int hseven, .obj (by simp)⟩
  have hindent : (Json.int 2).IsBlankIndent := trivial
  have hstyle : Json.Indentation.ofJson (.int 2) = .ok (.perLevel "  ") := by rfl
  obtain ⟨-, hsettings, htext⟩ := document_text_reads_back hasJoinedTexts_shelfTypes hok htitle
    isPlain_defaultUri hindent
  have hroom : Json.Fits 987 document.toJson :=
    (hsettings 986 (by decide)).2 ⟨hfits, .str _⟩
  obtain ⟨hwritten, hback⟩ := htext _ hstyle
  obtain ⟨text, htext⟩ := hwritten.2 hroom
  obtain ⟨-, -, hreads⟩ := hback text htext
  refine ⟨document, hok, hstyle, text, htext, ?_, ?_⟩
  · rcases hreads.check with ⟨haccepted, -⟩ | ⟨-, hnone⟩
    · exact haccepted
    · exact absurd hroom hnone
  · rcases hreads.read .plain with ⟨hread, -⟩ | ⟨-, hnone⟩
    · exact hread
    · exact absurd hroom hnone

/-! ## Settings that give no text -/

/-- An array in an array, and so on. -/
def nestedArrays : Nat → Json
  | 0 => .arr []
  | depth + 1 => .arr [nestedArrays depth]

theorem isPlain_nestedArrays (depth : Nat) : (nestedArrays depth).IsPlain := by
  induction depth with
  | zero => exact .arr (by simp)
  | succ depth ih => exact .arr (by simpa using ih)

theorem not_fits_nestedArrays (depth : Nat) : ¬ Json.Fits depth (nestedArrays depth) := by
  induction depth with
  | zero =>
      intro hfits
      exact (Json.fits_arr_iff.1 hfits).1 rfl
  | succ depth ih =>
      intro hfits
      exact ih ((Json.fits_arr_iff.1 hfits).2 _ (List.mem_singleton.2 rfl))

theorem exists_unwritten {title : Json} (hfits : ¬ Json.Fits 986 title) :
    ∃ document, (ofTypes shelfTypes).document { title } (.str "Query") = .ok document ∧
      ∀ text, document.text .oneLine ≠ .ok text := by
  rcases exists_shelf_document { title } with ⟨document, hok⟩
  refine ⟨document, hok, fun text htext => hfits ?_⟩
  exact ((fits_document_iff hasJoinedTexts_shelfTypes hok (by decide)).1
    (SchemaDocument.text_eq_ok_iff.1 htext).1).1

/-- A huge count below zero gives no text, and neither does a title that nests too deep or is too
long an integer. -/
theorem settings_without_text :
    ((∃ document, (ofTypes shelfTypes).document {} (.str "Query") = .ok document) ∧
      Json.Indentation.ofJson (.int (-10 ^ 20)) = .error .overflow) ∧
    ∀ title ∈ [nestedArrays 986, .int (10 ^ Decimal.digitLimit : Nat)], title.IsPlain ∧
      ∃ document, (ofTypes shelfTypes).document { title } (.str "Query") = .ok document ∧
        ∀ text, document.text .oneLine ≠ .ok text := by
  refine ⟨⟨exists_shelf_document {}, by rfl⟩, ?_⟩
  simp only [List.mem_cons, List.not_mem_nil, or_false, forall_eq_or_imp, forall_eq]
  constructor
  · exact ⟨isPlain_nestedArrays 986,
      exists_unwritten (not_fits_nestedArrays 986)⟩
  · refine ⟨.int _, exists_unwritten ?_⟩
    rw [Json.fits_int_iff, Int.natAbs_natCast]
    exact Nat.lt_irrefl _

end Usual

end TypeGraph

end ConfigSchema
