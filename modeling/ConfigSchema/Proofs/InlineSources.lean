import ConfigSchema.Proofs.ClosedSelections
import ConfigSchema.Proofs.LoadedGraphs
import ConfigSchema.Proofs.NamedFiles
import ConfigSchema.Proofs.TokenTexts

/-!
# Definitions as sources

A source that makes sense as definitions is never an address, for no token starts with a slash.  It
is read as what it says unless one of the tests in front takes it for something else: for a pattern,
for the name of a file or for a single word.  The suffix of a file can only stand in a comment at
its end, since a string has a closing quote and a spread has a closing brace behind it.
-/

namespace ConfigSchema

namespace Text

variable {separator : Char}

theorem flatMap_cut (separator : Char) (s : List Char) :
    (cut separator s).flatMap (fun part => separator :: part) = separator :: s := by
  induction s with
  | nil => rfl
  | cons c rest ih =>
      by_cases hc : c = separator
      · rw [cut, if_pos hc, List.flatMap_cons, ih, hc]
        rfl
      · rw [cut, if_neg hc]
        cases hcut : cut separator rest with
        | nil => exact absurd hcut (cut_ne_nil separator rest)
        | cons part parts =>
            rw [hcut, List.flatMap_cons] at ih
            exact congrArg (fun rest => separator :: c :: rest) (List.cons.inj ih).2

/-- Behind a part stand the separators and the parts that follow it. -/
theorem exists_of_cut {s part : List Char} {before after : List (List Char)}
    (hcut : cut separator s = before ++ part :: after) :
    ∃ front, s = front ++ (part ++ after.flatMap (fun part => separator :: part)) := by
  have hjoined := flatMap_cut separator s
  rw [hcut, List.flatMap_append, List.flatMap_cons] at hjoined
  cases before with
  | nil => exact ⟨[], (List.cons.inj hjoined).2.symm⟩
  | cons first others =>
      rw [List.flatMap_cons] at hjoined
      refine ⟨first ++ others.flatMap (fun part => separator :: part) ++ [separator], ?_⟩
      rw [← (List.cons.inj hjoined).2]
      simp

end Text

namespace Path

theorem exists_of_suffixOf {name : String} (hsuffix : suffixOf name ≠ "") :
    ∃ front, name.toList = front ++ (suffixOf name).toList := by
  unfold suffixOf at hsuffix ⊢
  dsimp only at hsuffix ⊢
  split at hsuffix
  · contradiction
  · next hlong =>
      rw [if_neg hlong, String.toList_ofList]
      have hsplit := List.takeWhile_append_dropWhile (p := (· ≠ '.')) (l := name.toList.reverse)
      have hhead := List.head?_dropWhile_not (· ≠ '.') name.toList.reverse
      generalize name.toList.reverse.takeWhile (· ≠ '.') = tail at hsplit ⊢
      cases hfront : name.toList.reverse.dropWhile (· ≠ '.') with
      | nil =>
          rw [hfront] at hlong
          exact absurd (by simp) hlong
      | cons dot front =>
          rw [hfront] at hsplit hhead
          obtain rfl : dot = '.' := by simpa using hhead
          refine ⟨front.reverse, ?_⟩
          rw [← List.reverse_reverse name.toList, ← hsplit]
          simp

/-- The suffix of a path stands at the end of its text, up to slashes and dots. -/
theorem exists_of_suffix {source : String} (hsuffix : (ofText source).suffix ≠ "") :
    ∃ before behind, source.toList = before ++ ((ofText source).suffix.toList ++ behind) ∧
      ∀ c ∈ behind, c = '/' ∨ c = '.' := by
  cases hlast : (ofText source).parts.getLast? with
  | none =>
      rw [suffix, name, hlast] at hsuffix
      exact absurd (by decide) hsuffix
  | some last =>
      have hname : (ofText source).suffix = suffixOf last := by
        rw [suffix, name, hlast]
        rfl
      rw [hname] at hsuffix ⊢
      obtain ⟨front, hfront⟩ := exists_of_suffixOf hsuffix
      obtain ⟨others, hothers⟩ := List.getLast?_eq_some_iff.1 hlast
      obtain ⟨early, late, hparts, -, hlate⟩ := List.filter_eq_append_iff.1 hothers
      obtain ⟨dropped, after, rfl, -, -, hafter⟩ := List.filter_eq_cons_iff.1 hlate
      rw [← List.append_assoc, Text.parts] at hparts
      obtain ⟨before, rest, hcut, -, hrest⟩ := List.map_eq_append_iff.1 hparts
      obtain ⟨letters, behind, rfl, rfl, rfl⟩ := List.map_eq_cons_iff.1 hrest
      obtain ⟨head, hsource⟩ := Text.exists_of_cut hcut
      rw [String.toList_ofList] at hfront
      refine ⟨head ++ front, behind.flatMap (fun part => '/' :: part), ?_, ?_⟩
      · rw [hsource]
        nth_rewrite 1 [hfront]
        simp only [List.append_assoc]
      · intro c hc
        obtain ⟨part, hpart, hc⟩ := List.mem_flatMap.1 hc
        have hempty := List.filter_eq_nil_iff.1 hafter _ (List.mem_map_of_mem hpart)
        rcases List.mem_cons.1 hc with rfl | hc
        · exact .inl rfl
        · have hdot : part = ['.'] := by
            simp only [isPart, Bool.and_eq_true, decide_eq_true_eq, not_and_or, not_not,
              ← String.toList_inj, String.toList_ofList] at hempty
            rcases hempty with rfl | hdot
            · exact absurd hc List.not_mem_nil
            · exact hdot
          rw [hdot] at hc
          exact .inr (List.mem_singleton.1 hc)

end Path

namespace Sdl

open Lexer

variable {source : String} {tokens : List Token}

theorem written_of_tokens? [Runtime] (htokens : tokens? source = some tokens) :
    Written tokens source.toList := by
  unfold tokens? at htokens
  split at htokens
  · contradiction
  · obtain ⟨later, hlater, hwritten⟩ := written_of_tokensFrom htokens
    rwa [hlater]

/-- In front of a slash stands what begins a comment or a string. -/
theorem mem_of_slash {before after : List Char}
    (hwritten : Written tokens (before ++ '/' :: after)) : '#' ∈ before ∨ '"' ∈ before := by
  obtain ⟨_, here, _, front, left, right, behind, rfl, -, -, -, hpiece, -⟩ :=
    hwritten.standsInPiece
  have hbegins : ∀ {first : Char} {rest : List Char}, first ≠ '/' →
      left ++ '/' :: right = first :: rest → first ∈ front ++ left := by
    intro first rest hfirst hletters
    cases left with
    | nil => exact absurd (List.cons.inj hletters).1.symm hfirst
    | cons other left =>
        rw [(List.cons.inj hletters).1]
        simp
  rcases hpiece.of_mem (c := '/') (by simp) (by decide) (by decide) (by decide) with
    ⟨note, hletters, -⟩ | ⟨inner, hletters⟩ | ⟨hletters, -⟩ | hnumeric
  · exact .inl (hbegins (by decide) hletters)
  · exact .inr (hbegins (by decide) hletters)
  · have hslash : '/' ∈ left ++ '/' :: right := by simp
    rw [hletters] at hslash
    exact absurd hslash (by decide)
  · exact absurd (hnumeric.parts '/' (by simp)) (by decide)

/-- Whether a text ends in a comment that holds the suffix of its path, behind all of its tokens. -/
def EndsInComment [Runtime] (source : String) : Prop :=
  ∃ tokens front note, tokens? source = some tokens ∧ source.toList = front ++ '#' :: note ∧
    Written tokens front ∧ (∀ c ∈ note, isLineEnd c = false) ∧
    (Path.ofText source).suffix.toList <:+: note

/-- Whether a character can stand behind a point that is in no string, selection or number, before
the line ends. -/
def isPlain (c : Char) : Bool :=
  !isLineEnd c && c ≠ '"' && c ≠ '\x7d'

theorem endsInComment_of_suffix [Runtime] (htokens : tokens? source = some tokens)
    (hclosed : AreClosed tokens) {first : Char} {letters : List Char}
    (hsuffix : (Path.ofText source).suffix.toList = '.' :: first :: letters)
    (hfirst : isDigit first = false) (hplain : (first :: letters).all isPlain = true) :
    EndsInComment source := by
  have hsome : (Path.ofText source).suffix ≠ "" := by
    simp [← String.toList_inj, hsuffix]
  obtain ⟨before, behind, hsource, hbehind⟩ := Path.exists_of_suffix hsome
  have hwritten := written_of_tokens? htokens
  rw [hsource, hsuffix] at hwritten
  obtain
    ⟨earlier, here, later, front, left, right, rest, rfl, hright, rfl, hfront, hpiece, hrest⟩ :=
    hwritten.standsInPiece (c := '.')
  have hall : ∀ c ∈ right ++ rest, isPlain c = true := by
    intro c hc
    rw [← hright] at hc
    rcases List.mem_append.1 hc with hletter | hother
    · exact List.all_eq_true.1 hplain c hletter
    · rcases hbehind c hother with rfl | rfl <;> decide
  rcases hpiece.of_mem (c := '.') (by simp) (by decide) (by decide) (by decide) with
    ⟨note, hnote, rfl, hline, hend⟩ | ⟨inner, hinner⟩ | ⟨-, rfl⟩ | hnumeric
  · have hnil : rest = [] := by
      cases rest with
      | nil => rfl
      | cons c more =>
          have hc := hall c (by simp)
          rw [isPlain, hend c more rfl] at hc
          exact absurd hc (by simp)
    subst hnil
    obtain rfl := hrest.eq_nil
    cases left with
    | nil => exact absurd (List.cons.inj hnote).1 (by decide)
    | cons hash left =>
        have hmore : left ++ '.' :: right = note := (List.cons.inj hnote).2
        obtain rfl := (List.cons.inj hnote).1
        rw [List.append_nil] at hright
        refine ⟨_, front, note, htokens, ?_, ?_, hline, left, behind, ?_⟩
        · rw [hsource, hsuffix, ← hmore, ← hright]
          simp
        · simpa using hfront
        · rw [hsuffix, ← hmore, ← hright]
          simp
  · have hlast : ('.' :: right).getLast? = some '"' := by
      rw [← List.getLast?_append_of_ne_nil left (List.cons_ne_nil '.' right), hinner,
        ← List.cons_append, List.getLast?_concat]
    rcases List.mem_cons.1 (List.mem_of_getLast? hlast) with hquote | hquote
    · exact absurd hquote (by decide)
    · exact absurd (hall '"' (List.mem_append_left _ hquote)) (by decide)
  · have hbrace := hrest.mem_of_mark (hclosed earlier later rfl)
    exact absurd (hall '\x7d' (List.mem_append_right _ hbrace)) (by decide)
  · obtain ⟨digit, more, rfl, hdigit⟩ := hnumeric.points left right rfl
    rw [(List.cons.inj hright).1, hdigit] at hfirst
    exact absurd hfirst (by decide)

end Sdl

namespace Sources

variable {around : Surroundings} {source : String} {document : Sdl.Document}

/-- Whether the last name of a source as a path has a suffix of files that hold definitions. -/
def hasFileSuffix (source : String) : Bool :=
  suffixes.contains (Path.ofText source).suffix

/-- Whether a source holds no block and no blank between two words. -/
def isSingleWord (source : String) : Bool :=
  (Text.words source).length ≤ 1 && !hasBrace source

theorem isUrl_of_parse? [Runtime] (hparse : Sdl.parse? source = some document) : isUrl source =
    false := by
  obtain ⟨tokens, htokens, -⟩ := Sdl.areClosed_of_parse? hparse
  have hwritten := Sdl.written_of_tokens? htokens
  have hnone : ∀ front : List Char, '#' ∉ front → '"' ∉ front →
      (front ++ ['/', '/']).isPrefixOf source.toList = false := by
    intro front hcomment hquote
    by_contra hstarts
    rw [Bool.not_eq_false, List.isPrefixOf_iff_prefix] at hstarts
    obtain ⟨rest, hsource⟩ := hstarts
    rw [← hsource, List.append_assoc] at hwritten
    rcases Sdl.mem_of_slash hwritten with hmem | hmem
    · exact hcomment hmem
    · exact hquote hmem
  have hplain := hnone "http:".toList (by decide) (by decide)
  have hsecure := hnone "https:".toList (by decide) (by decide)
  rw [isUrl, Bool.or_eq_false_iff]
  exact ⟨hplain, hsecure⟩

theorem endsInComment_of_hasFileSuffix [Runtime] (hparse : Sdl.parse? source = some document)
    (hsuffix : hasFileSuffix source = true) : Sdl.EndsInComment source := by
  obtain ⟨tokens, htokens, hclosed⟩ := Sdl.areClosed_of_parse? hparse
  have hmem : (Path.ofText source).suffix ∈ suffixes := List.contains_iff_mem.1 hsuffix
  simp only [suffixes, jsonSuffix, List.mem_cons, List.not_mem_nil, or_false] at hmem
  rcases hmem with hsuffix | hsuffix | hsuffix | hsuffix
  all_goals
    exact Sdl.endsInComment_of_suffix htokens hclosed (congrArg String.toList hsuffix)
      (by decide) (by decide)

/-- The tests that stand between the files and the definitions. -/
theorem originsOf_of_not_isFile [Runtime] {files : FileSystem} (hurl : isUrl source = false)
    (hglob : isGlob source = false) (hfile : files.isFile (Path.ofText source) = false) :
    originsOf files source =
      if hasFileSuffix source then .error (.missing source)
      else if isSingleWord source then .error (.notASource source)
      else .ok [.inline source] := by
  unfold originsOf
  rw [isGlob] at hglob
  simp only [hurl, hglob, hfile, Bool.false_eq_true, if_false]
  rfl

theorem documents_of_inline [Runtime]
    (horigins : originsOf around.files source = .ok [.inline source])
    (hparse : Sdl.parse? source = some document) : documents around source = pure [document] := by
  have hread : readOrigin around (.inline source) = pure document := by
    rw [readOrigin, documentOf, documentOfText, hparse]
    rfl
  rw [documents_of_ok horigins, List.mapM_cons, hread]
  simp

/-- How a source is read that makes sense as definitions and names no file. -/
structure ReadsDefinitions [Runtime] (around : Surroundings) (source : String)
    (document : Sdl.Document) : Prop where
  noAddress : isUrl source = false
  inPlace : isGlob source = false → hasFileSuffix source = false → isSingleWord source = false →
    documents around source = pure [document]
  pattern : isGlob source = true → documents around source =
    match Files.pathsOf around.files source with
    | .error fault => .ofExcept (.error (unfollowed source fault))
    | .ok [] => .ofExcept (.error (.noMatch source))
    | .ok paths => (paths.map .file).mapM (readOrigin around)
  suffix : isGlob source = false → hasFileSuffix source = true →
    documents around source = .ofExcept (.error (.missing source))
  /-- No other part of a text can have the suffix of a file at its end. -/
  comment : hasFileSuffix source = true → Sdl.EndsInComment source
  word : isGlob source = false → hasFileSuffix source = false → isSingleWord source = true →
    documents around source = .ofExcept (.error (.notASource source))

/-- Definitions are read in place, unless they look like a pattern, like a word or, for a comment at
their end, like the name of a file. -/
theorem definitions_are_read [Runtime] (around : Surroundings) (source : String)
    (document : Sdl.Document) (hparse : Sdl.parse? source = some document)
    (hfile : around.files.isFile (Path.ofText source) = false) :
    ReadsDefinitions around source document := by
  have hurl := isUrl_of_parse? hparse
  constructor
  case noAddress => exact hurl
  case inPlace =>
    intro hglob hsuffix hword
    refine documents_of_inline ?_ hparse
    rw [originsOf_of_not_isFile hurl hglob hfile, hsuffix, hword]
    rfl
  case pattern =>
    intro hglob
    have horigins : originsOf around.files source = _ := originsOf_of_isGlob hurl hglob
    cases hpaths : Files.pathsOf around.files source with
    | error fault =>
        rw [hpaths] at horigins
        exact documents_of_error horigins
    | ok paths =>
        rw [hpaths] at horigins
        cases paths with
        | nil => exact documents_of_error horigins
        | cons first rest => exact documents_of_ok horigins
  case suffix =>
    intro hglob hsuffix
    apply documents_of_error
    rw [originsOf_of_not_isFile hurl hglob hfile, hsuffix]
    rfl
  case comment => exact endsInComment_of_hasFileSuffix hparse
  case word =>
    intro hglob hsuffix hword
    apply documents_of_error
    rw [originsOf_of_not_isFile hurl hglob hfile, hsuffix, hword]
    rfl

/-- A type with nothing but a comment behind it. -/
def commentedQuery : String :=
  "type Query \x7b size: Int \x7d # see schema.graphql"

def queryDocument : Sdl.Document :=
  [.type none { name := "Query", body := .object [] [{ name := "size", type := .named "Int" }] }]

/-- A type without a block, whose description asks a question. -/
def questionedDate : String := "\"Which?\" scalar Date"

def questionedDocument : Sdl.Document :=
  [.type (some ⟨"Which?", false⟩) { name := "Date", body := .scalar }]

/-- A type without a block or a blank. -/
def unspacedDate : String := "scalar,Date"

def dateDocument : Sdl.Document :=
  [.type none { name := "Date", body := .scalar }]

section Usual

attribute [local instance] Runtime.usual

theorem parse?_commentedQuery : Sdl.parse? commentedQuery = some queryDocument := by
  have htokens : Sdl.tokens? commentedQuery = some [.name "type", .name "Query", .mark '\x7b',
      .name "size", .mark ':', .name "Int", .mark '\x7d'] := by decide +kernel
  rw [Sdl.parse?, htokens]
  rfl

theorem parse?_questionedDate : Sdl.parse? questionedDate = some questionedDocument := by
  have htokens : Sdl.tokens? questionedDate =
      some [.string ⟨"Which?", false⟩, .name "scalar", .name "Date"] := by decide +kernel
  rw [Sdl.parse?, htokens]
  rfl

theorem parse?_unspacedDate : Sdl.parse? unspacedDate = some dateDocument := by
  have htokens : Sdl.tokens? unspacedDate = some [.name "scalar", .name "Date"] := by decide +kernel
  rw [Sdl.parse?, htokens]
  rfl

theorem plainDefinitions_are_read :
    (∃ document, Sdl.parse? "\"[1.gql?\"type,Query\x7bsize:Int\x7d" = some document ∧
      documents bareSurroundings "\"[1.gql?\"type,Query\x7bsize:Int\x7d" = pure [document]) ∧
    Sdl.EndsInComment commentedQuery ∧
    documents bareSurroundings questionedDate = .ofExcept (.error (.noMatch questionedDate)) ∧
    documents bareSurroundings unspacedDate = .ofExcept (.error (.notASource unspacedDate)) := by
  have hcommented := definitions_are_read bareSurroundings commentedQuery queryDocument
    parse?_commentedQuery (by decide +kernel)
  have hquestioned := definitions_are_read bareSurroundings questionedDate questionedDocument
    parse?_questionedDate (by decide +kernel)
  have hunspaced := definitions_are_read bareSurroundings unspacedDate dateDocument
    parse?_unspacedDate (by decide +kernel)
  refine ⟨?_, hcommented.comment (by decide +kernel), ?_,
    hunspaced.word (by decide +kernel) (by decide +kernel) (by decide +kernel)⟩
  · have hsome : (Sdl.parse? "\"[1.gql?\"type,Query\x7bsize:Int\x7d").isSome = true := by
      decide +kernel
    obtain ⟨document, hparse⟩ := Option.isSome_iff_exists.1 hsome
    exact ⟨document, hparse, (definitions_are_read bareSurroundings _ document hparse
      (by decide +kernel)).inPlace (by decide +kernel) (by decide +kernel) (by decide +kernel)⟩
  · have hpaths : Files.pathsOf bareSurroundings.files questionedDate = .ok [] := by decide +kernel
    rw [hquestioned.pattern (by decide +kernel), hpaths]

/-- Definitions that are refused for their looks: for a comment that ends like the name of a file,
for a question mark in a description and for a comma instead of a blank. -/
theorem definitions_are_refused :
    (Sdl.parse? commentedQuery = some queryDocument ∧ isUrl commentedQuery = false ∧
      bareSurroundings.files.isFile (Path.ofText commentedQuery) = false ∧
      documents bareSurroundings commentedQuery = .ofExcept (.error (.missing commentedQuery))) ∧
    (Sdl.parse? questionedDate = some questionedDocument ∧ isUrl questionedDate = false ∧
      bareSurroundings.files.isFile (Path.ofText questionedDate) = false ∧
      documents bareSurroundings questionedDate = .ofExcept (.error (.noMatch questionedDate))) ∧
    Sdl.parse? unspacedDate = some dateDocument ∧ isUrl unspacedDate = false ∧
      bareSurroundings.files.isFile (Path.ofText unspacedDate) = false ∧
      documents bareSurroundings unspacedDate = .ofExcept (.error (.notASource unspacedDate)) := by
  refine ⟨⟨parse?_commentedQuery, by decide +kernel, by decide +kernel, ?_⟩,
    ⟨parse?_questionedDate, by decide +kernel, by decide +kernel, ?_⟩,
    parse?_unspacedDate, by decide +kernel, by decide +kernel, ?_⟩
  · apply documents_of_error
    rw [originsOf_of_not_isFile (by decide +kernel) (by decide +kernel) (by decide +kernel)]
    exact if_pos (by decide +kernel)
  · have hpaths : Files.pathsOf bareSurroundings.files questionedDate = .ok [] := by decide +kernel
    apply documents_of_error
    rw [originsOf_of_isGlob (by decide +kernel) (by decide +kernel), hpaths]
  · apply documents_of_error
    rw [originsOf_of_not_isFile (by decide +kernel) (by decide +kernel) (by decide +kernel),
      if_neg (by decide +kernel)]
    exact if_pos (by decide +kernel)

end Usual

end Sources

end ConfigSchema
