import ConfigSchema.Proofs.InlineSources
import ConfigSchema.Proofs.MarkedTypes
import ConfigSchema.Proofs.OutputAgreement
import Mathlib.Data.List.TakeWhile

/-!
# Sources that make a ladder

Objects that lead to one another by single fields may be given by a source for each of them.  They
load, however many there are; from some number on the fragment of the first one goes too deep.
-/

namespace ConfigSchema

namespace Sdl

/-! ## Tokens of plain texts -/

namespace Lexer

variable {c : Char} {rest tail : List Char} {found : List Token} {t : Token}

theorem tokensFrom_ignored (hc : isIgnored c = true) :
    tokensFrom found (c :: rest) = tokensFrom found rest := by
  rw [tokensFrom, if_pos hc]

theorem tokensFrom_token (hignored : isIgnored c = false) (hcomment : c ≠ '#')
    (htoken : token (c :: rest) = some (t, tail)) :
    tokensFrom found (c :: rest) = tokensFrom (t :: found) tail := by
  rw [tokensFrom, if_neg (by simp [hignored]), if_neg hcomment]
  split
  · next other more heq =>
      rw [htoken, Option.some.injEq, Prod.mk.injEq] at heq
      rw [heq.1, heq.2]
  · next hnone =>
      rw [htoken] at hnone
      contradiction

theorem isIgnored_of_isNameStart (hc : isNameStart c = true) : isIgnored c = false := by
  by_contra hignored
  simp only [isIgnored, Bool.not_eq_false, Bool.or_eq_true, decide_eq_true_eq] at hignored
  rcases hignored with ((((rfl | rfl) | rfl) | rfl) | rfl) | rfl <;> exact absurd hc (by decide)

theorem toNat_le_of_isNamePart (hc : isNamePart c = true) : c.toNat ≤ 122 := by
  simp only [isNamePart, isNameStart, isDigit, Bool.or_eq_true, Bool.and_eq_true,
    decide_eq_true_eq] at hc
  rcases hc with ((⟨-, hle⟩ | ⟨-, hle⟩) | rfl) | ⟨-, hle⟩
  · exact UInt32.le_iff_toNat_le.1 hle
  · exact (UInt32.le_iff_toNat_le.1 hle).trans (by decide)
  · decide
  · exact (UInt32.le_iff_toNat_le.1 hle).trans (by decide)

theorem isMark_of_isNameStart (hc : isNameStart c = true) : isMark c = false := by
  by_contra hmark
  simp only [isMark, Bool.not_eq_false, List.contains_iff_mem, List.mem_cons, List.not_mem_nil,
    or_false] at hmark
  rcases hmark with rfl | rfl | rfl | rfl | rfl | rfl | rfl | rfl | rfl | rfl | rfl | rfl | rfl <;>
    exact absurd hc (by decide)

/-- A name is a token up to what is no part of it. -/
theorem token_name {name : String} (hname : Introspection.isName name = true)
    (hc : isNamePart c = false) :
    ∃ first letters, name.toList = first :: letters ∧ isNameStart first = true ∧
      token (first :: (letters ++ c :: rest)) = some (.name name, c :: rest) := by
  unfold Introspection.isName at hname
  cases hletters : name.toList with
  | nil =>
      rw [hletters] at hname
      contradiction
  | cons first letters =>
      rw [hletters, Bool.and_eq_true, List.all_eq_true] at hname
      obtain ⟨hstart, hparts⟩ := hname
      refine ⟨first, letters, rfl, hstart, ?_⟩
      unfold token
      split
      · contradiction
      · next heq =>
          rw [(List.cons.inj heq).1] at hstart
          exact absurd hstart (by decide)
      · next heq =>
          rw [(List.cons.inj heq).1] at hstart
          exact absurd hstart (by decide)
      · next heq =>
          obtain ⟨rfl, rfl⟩ := List.cons.inj heq
          rw [if_neg (by simp [isMark_of_isNameStart hstart]), if_pos hstart,
            List.takeWhile_append_of_pos hparts, List.dropWhile_append_of_pos hparts,
            List.takeWhile_cons_of_neg (by simp [hc]), List.dropWhile_cons_of_neg (by simp [hc]),
            List.append_nil, ← hletters, String.ofList_toList]

theorem tokensFrom_name {name : String} (hname : Introspection.isName name = true)
    (hc : isNamePart c = false) :
    tokensFrom found (name.toList ++ c :: rest) = tokensFrom (.name name :: found) (c :: rest) := by
  obtain ⟨first, letters, hletters, hstart, htoken⟩ := token_name hname hc
  rw [hletters, List.cons_append]
  apply tokensFrom_token (isIgnored_of_isNameStart hstart) _ htoken
  rintro rfl
  exact absurd hstart (by decide)

end Lexer

/-! ## Objects with one field -/

/-- An object with a field that leads to another type. -/
structure Link where
  name : String
  target : String
  isMarked : Bool := false

namespace Link

variable {link : Link}

/-- The words of a link are names. -/
structure IsNamed (link : Link) : Prop where
  name : Introspection.isName link.name = true
  target : Introspection.isName link.target = true

def mark (link : Link) : String :=
  if link.isMarked then " @md" else ""

def source (link : Link) : String :=
  "type " ++ link.name ++ link.mark ++ " \x7b next: " ++ link.target ++ " \x7d"

def field (link : Link) : FieldDefinition :=
  { name := "next", type := .named link.target }

def directives (link : Link) : List Directive :=
  if link.isMarked then [{ name := docsDirective }] else []

def node (link : Link) : TypeNode :=
  { name := link.name, directives := link.directives, body := .object [] [link.field] }

def definition (link : Link) : Definition :=
  .type none link.node

theorem toList_source (link : Link) :
    link.source.toList = "type".toList ++ ' ' :: (link.name.toList ++ (link.mark.toList ++
      ' ' :: '\x7b' :: ' ' :: ("next".toList ++ ':' :: ' ' :: (link.target.toList ++
        [' ', '\x7d'])))) := by
  simp [source]

def tokens (link : Link) : List Token :=
  [.name "type", .name link.name] ++
    (if link.isMarked then [.mark '@', .name docsDirective] else []) ++
    [.mark '\x7b', .name "next", .mark ':', .name link.target, .mark '\x7d']

theorem tokensFrom_source (hnamed : link.IsNamed) :
    Lexer.tokensFrom [] link.source.toList = some link.tokens := by
  have hend : ∀ {found : List Token}, Lexer.tokensFrom found (' ' :: '\x7b' :: ' ' ::
      ("next".toList ++ ':' :: ' ' :: (link.target.toList ++ [' ', '\x7d']))) =
        some (found.reverse ++
          [.mark '\x7b', .name "next", .mark ':', .name link.target, .mark '\x7d']) := by
    intro found
    rw [Lexer.tokensFrom_ignored rfl, Lexer.tokensFrom_token rfl (by decide) rfl,
      Lexer.tokensFrom_ignored rfl, Lexer.tokensFrom_name (by decide) (by decide),
      Lexer.tokensFrom_token rfl (by decide) rfl, Lexer.tokensFrom_ignored rfl,
      Lexer.tokensFrom_name hnamed.target (by decide), Lexer.tokensFrom_ignored rfl,
      Lexer.tokensFrom_token rfl (by decide) rfl, Lexer.tokensFrom]
    simp
  rw [toList_source, Lexer.tokensFrom_name (by decide) (by decide), Lexer.tokensFrom_ignored rfl]
  unfold mark tokens
  split
  · have hmark : " @md".toList = ' ' :: '@' :: "md".toList := rfl
    rw [hmark, List.cons_append, List.cons_append, Lexer.tokensFrom_name hnamed.name (by decide),
      Lexer.tokensFrom_ignored rfl, Lexer.tokensFrom_token rfl (by decide) rfl,
      Lexer.tokensFrom_name (by decide) (by decide), hend]
    rfl
  · rw [String.toList_empty, List.nil_append, Lexer.tokensFrom_name hnamed.name (by decide), hend]
    rfl

theorem notMem_source (hnamed : link.IsNamed) {c : Char} (hpart : Lexer.isNamePart c = false)
    (hother : c ∉ [' ', '@', ':', '\x7b', '\x7d']) : c ∉ link.source.toList := by
  have hplain : ∀ {text : String}, Introspection.isName text = true → c ∉ text.toList :=
    fun htext => Introspection.notMem_of_isName htext hpart
  have hmark : c ∉ link.mark.toList := by
    have hletters : " @md".toList = ' ' :: '@' :: "md".toList := rfl
    unfold mark
    split
    · rw [hletters]
      have hword := hplain (by decide : Introspection.isName "md" = true)
      simp only [List.mem_cons, List.not_mem_nil, or_false, not_or] at hother ⊢
      exact ⟨hother.1, hother.2.1, hword⟩
    · simp
  have htype := hplain (by decide : Introspection.isName "type" = true)
  have hnext := hplain (by decide : Introspection.isName "next" = true)
  rw [toList_source]
  simp only [List.mem_cons, List.mem_append, List.not_mem_nil, or_false, not_or] at hother ⊢
  exact ⟨htype, hother.1, hplain hnamed.name, hmark, hother.1, hother.2.2.2.1, hother.1, hnext,
    hother.2.2.1, hother.1, hplain hnamed.target, hother.1, hother.2.2.2.2⟩

section Usual

attribute [local instance] Runtime.usual

theorem parse?_source (hnamed : link.IsNamed) :
    parse? link.source = some [link.definition] := by
  have hplain : Text.hasSurrogate link.source = false := by
    rw [Text.hasSurrogate, List.any_eq_false]
    intro c hc hsurrogate
    have hhigh : 0xE000 ≤ c.toNat := by
      have hlow := of_decide_eq_true (Bool.and_eq_true_iff.1 hsurrogate).1
      have hoffset := Runtime.le_surrogateOffset
      omega
    refine notMem_source hnamed ?_ ?_ hc
    · by_contra hpart
      have hlow := Lexer.toNat_le_of_isNamePart (eq_true_of_ne_false hpart)
      omega
    · simp only [List.mem_cons, List.not_mem_nil, or_false]
      rintro (rfl | rfl | rfl | rfl | rfl) <;> contradiction
  have htokens : tokens? link.source = some link.tokens := by
    rw [tokens?, hplain]
    exact tokensFrom_source hnamed
  unfold parse?
  rw [htokens]
  unfold tokens definition node directives
  cases link.isMarked with
  | true => rfl
  | false => rfl

end Usual

end Link

/-! ## Documents of links -/

/-- Different objects that lead to one another or to built-in types. -/
structure Linked (links : List Link) : Prop where
  isNamed : ∀ link ∈ links, link.IsNamed
  nodup : (links.map (·.name)).Nodup
  own : ∀ link ∈ links, link.name ∉ BuiltIn.typeNames
  known : ∀ link ∈ links, link.target ∈ links.map (·.name) ∨ link.target ∈ BuiltIn.typeNames

/-- The document that links are merged to. -/
def linkDocument (links : List Link) : Document :=
  Sources.marks ++ links.map Link.definition

section

variable {links : List Link}

theorem definedTypes_linkDocument (links : List Link) :
    (linkDocument links).definedTypes = links.map (·.name) := by
  have hmarks : Sources.marks.filterMap Definition.definedType? = [] := rfl
  rw [Document.definedTypes, linkDocument, List.filterMap_append, hmarks, List.nil_append,
    List.filterMap_map, ← List.filterMap_eq_map]
  rfl

theorem directiveDefinitions_linkDocument (links : List Link) :
    (linkDocument links).directiveDefinitions = Document.directiveDefinitions Sources.marks := by
  have hnone : Document.directiveDefinitions (links.map Link.definition) = [] := by
    rw [Document.directiveDefinitions, List.filterMap_eq_nil_iff]
    intro d hd
    obtain ⟨link, -, rfl⟩ := List.mem_map.1 hd
    rfl
  rw [linkDocument, Document.directiveDefinitions, List.filterMap_append]
  exact (congrArg _ hnone).trans (List.append_nil _)

theorem forall_mem_linkDocument {motive : Definition → Prop}
    (hdocs : motive (.directive { name := docsDirective, locations := [.object] }))
    (hopen : motive (.directive { name := openDirective, locations := [.object] }))
    (hlinks : ∀ link ∈ links, motive link.definition) : ∀ d ∈ linkDocument links, motive d := by
  intro d hd
  rcases List.mem_append.1 hd with hmark | hlink
  · simp only [Sources.marks, List.mem_cons, List.not_mem_nil, or_false] at hmark
    rcases hmark with rfl | rfl
    · exact hdocs
    · exact hopen
  · obtain ⟨link, hmem, rfl⟩ := List.mem_map.1 hlink
    exact hlinks link hmem

theorem firsts_eq_self {document : Document}
    (hnew : document.Pairwise fun one other => haveSameTitle other one = false) :
    firsts document = document := by
  induction hnew with
  | nil => rfl
  | @cons definition rest hfirst _ ih =>
      have hrest : (rest.filter fun other => !haveSameTitle other definition) = rest := by
        rw [List.filter_eq_self]
        intro other hother
        rw [hfirst other hother]
        rfl
      rw [firsts_cons, hrest, ih]

theorem firsts_linkDocument (hlinked : Linked links) :
    firsts (linkDocument links) = linkDocument links := by
  apply firsts_eq_self
  have hlinks : (links.map Link.definition).Pairwise fun one other =>
      haveSameTitle other one = false := by
    rw [List.pairwise_map]
    refine (List.pairwise_map.1 hlinked.nodup).imp ?_
    intro one other hne
    exact decide_eq_false (Ne.symm hne)
  rw [linkDocument, List.pairwise_append]
  refine ⟨by decide, hlinks, ?_⟩
  intro mark hmark d hd
  obtain ⟨link, -, rfl⟩ := List.mem_map.1 hd
  have hmarks : ∀ d ∈ Sources.marks, haveSameTitle link.definition d = false := by
    simp [Sources.marks, Link.definition, haveSameTitle]
  exact hmarks mark hmark

theorem directive?_linkDocument (links : List Link) :
    (linkDocument links).directive? docsDirective =
      some { name := docsDirective, locations := [.object] } := by
  rw [Document.directive?, directiveDefinitions_linkDocument]
  rfl

theorem Link.mem_directives {link : Link} {applied : Directive}
    (happlied : applied ∈ link.directives) : applied = { name := docsDirective } := by
  unfold directives at happlied
  split at happlied
  · exact List.mem_singleton.1 happlied
  · contradiction

theorem Link.places_definition (link : Link) :
    link.definition.places =
      [{ owner := some (.type link.name), location := .object, directives := link.directives },
        { location := .fieldDefinition, directives := [] }] :=
  rfl

theorem flatMap_linkDocument {β : Type} {f : Definition → List β}
    (hmarks : Sources.marks.flatMap f = []) :
    (linkDocument links).flatMap f = links.flatMap fun link => f link.definition := by
  rw [linkDocument, List.flatMap_append, hmarks, List.nil_append, List.flatMap_map]

theorem places_linkDocument (links : List Link) :
    (linkDocument links).places = links.flatMap fun link => link.definition.places :=
  flatMap_linkDocument rfl

/-- What is applied at the places of links is the mark. -/
theorem Link.eq_of_mem_places {link : Link} {place : Place} {applied : Directive}
    (hplace : place ∈ link.definition.places) (happlied : applied ∈ place.directives) :
    applied = { name := docsDirective } ∧ place.location = .object := by
  rw [places_definition, List.mem_cons, List.mem_singleton] at hplace
  rcases hplace with rfl | rfl
  · exact ⟨mem_directives happlied, rfl⟩
  · contradiction

theorem eq_of_mem_places {place : Place} {applied : Directive}
    (hplace : place ∈ (linkDocument links).places) (happlied : applied ∈ place.directives) :
    applied = { name := docsDirective } ∧ place.location = .object := by
  rw [places_linkDocument, List.mem_flatMap] at hplace
  obtain ⟨link, -, hlink⟩ := hplace
  exact Link.eq_of_mem_places hlink happlied

theorem all_applications_linkDocument {test : Directive → Bool}
    (htest : test { name := docsDirective } = true) :
    (linkDocument links).applications.all test = true := by
  rw [List.all_eq_true]
  intro applied happlication
  obtain ⟨place, hplace, hmem⟩ := List.mem_flatMap.1 happlication
  rw [(eq_of_mem_places hplace hmem).1]
  exact htest

theorem all_linkDocument {test : Definition → Bool}
    (hdocs : test (.directive { name := docsDirective, locations := [.object] }) = true)
    (hopen : test (.directive { name := openDirective, locations := [.object] }) = true)
    (hlinks : ∀ link ∈ links, test link.definition = true) :
    (linkDocument links).all test = true :=
  List.all_eq_true.2 (forall_mem_linkDocument hdocs hopen hlinks)

theorem Link.eq_nil_of_mem_argumentLists {link : Link} {arguments : List (String × Value)}
    (harguments : arguments ∈ link.definition.argumentLists) : arguments = [] := by
  obtain ⟨place, hplace, hgiven⟩ := List.mem_flatMap.1 harguments
  obtain ⟨applied, hmem, rfl⟩ := List.mem_map.1 hgiven
  rw [(eq_of_mem_places hplace hmem).1]

theorem steadyRule_linkDocument (hlinked : Linked links) :
    ∀ rule ∈ steadyRules, rule (linkDocument links) = true := by
  have hfinds := directive?_linkDocument links
  simp only [steadyRules, List.forall_mem_cons]
  refine ⟨?_, ?_, ?_, ?_, ?_, ?_, ?_, ?_, ?_, ?_, by simp⟩
  · rw [Document.hasUniqueTypes, definedTypes_linkDocument]
    exact decide_eq_true hlinked.nodup
  · rw [Document.hasUniqueArgumentDefinitions, directiveDefinitions_linkDocument,
      Bool.and_eq_true]
    refine ⟨by decide, List.all_eq_true.2 fun node hnode => ?_⟩
    obtain ⟨d, hd, heq⟩ := List.mem_filterMap.1 hnode
    revert heq
    revert d
    apply forall_mem_linkDocument
    · exact fun heq => by contradiction
    · exact fun heq => by contradiction
    · intro link _ heq
      cases heq
      rfl
  · rw [Document.hasUniqueDirectives, directiveDefinitions_linkDocument]
    decide
  · rw [Document.hasKnownTypes, definedTypes_linkDocument]
    apply all_linkDocument rfl rfl
    intro link hlink
    have hnames : link.definition.typeNames = [link.target] := rfl
    rw [hnames, List.all_cons, List.all_nil, Bool.and_true, Bool.or_eq_true]
    rcases hlinked.known link hlink with hown | hbuilt
    · exact .inl (List.contains_iff_mem.2 hown)
    · exact .inr (List.contains_iff_mem.2 hbuilt)
  · rw [Document.hasKnownDirectives, List.all_eq_true]
    intro place hplace
    rw [List.all_eq_true]
    intro applied hmem
    obtain ⟨rfl, hlocation⟩ := eq_of_mem_places hplace hmem
    rw [hfinds, hlocation]
    rfl
  · exact all_linkDocument rfl rfl fun link _ => rfl
  · apply all_applications_linkDocument
    rw [hfinds]
    rfl
  · apply all_linkDocument rfl rfl
    intro link _
    rw [List.all_eq_true]
    intro arguments harguments
    rw [Link.eq_nil_of_mem_argumentLists harguments]
    rfl
  · apply all_linkDocument rfl rfl
    intro link _
    have hvalues : link.definition.values = [] := by
      apply List.flatMap_eq_nil_iff.2
      intro arguments harguments
      rw [Link.eq_nil_of_mem_argumentLists harguments]
      rfl
    rw [hvalues]
    rfl
  · apply all_applications_linkDocument
    rw [hfinds]
    rfl

theorem hasUniqueApplications_linkDocument (hlinked : Linked links) :
    (linkDocument links).hasUniqueApplications = true := by
  have hsingle : (linkDocument links).isSingle docsDirective = true := by
    rw [Document.isSingle, directive?_linkDocument]
    rfl
  have howned : ∀ link : Link, link.definition.places.flatMap (ownedNames (linkDocument links)) =
      if link.isMarked then [(Owner.type link.name, docsDirective)] else [] := by
    intro link
    rw [Link.places_definition]
    unfold Link.directives
    split
    · simp [ownedNames, Document.singleNames, hsingle]
    · simp [ownedNames, Document.singleNames]
  rw [hasUniqueApplications_eq, flatMap_linkDocument rfl, Bool.and_eq_true]
  refine ⟨all_linkDocument rfl rfl fun link _ => rfl,
    decide_eq_true (List.nodup_flatMap.2 ⟨?_, ?_⟩)⟩
  · intro link _
    rw [howned]
    split
    · exact List.nodup_singleton _
    · exact List.nodup_nil
  · refine (List.pairwise_map.1 hlinked.nodup).imp ?_
    intro one other hne pair hone hother
    simp only [howned, List.mem_ite_nil_right, List.mem_singleton] at hone hother
    rw [hone.2, Prod.mk.injEq, Owner.type.injEq] at hother
    exact hne hother.2.1

theorem isValid_linkDocument (hlinked : Linked links) : (linkDocument links).isValid = true := by
  rw [isValid_iff]
  refine ⟨steadyRule_linkDocument hlinked, ?_, ?_, ?_, ?_,
    hasUniqueApplications_linkDocument hlinked⟩
  · have hcount : (linkDocument links).countP Definition.isSchema = 0 :=
      List.countP_eq_zero.2 (forall_mem_linkDocument (by decide) (by decide)
        fun link _ => by simp [Link.definition, Definition.isSchema])
    exact decide_eq_true (hcount.trans_le (Nat.zero_le 1))
  · rw [hasUniqueOperations_eq, List.flatMap_eq_nil_iff.2
      (forall_mem_linkDocument rfl rfl fun link _ => rfl)]
    rfl
  · rw [hasUniqueEnumValues_eq, List.flatMap_eq_nil_iff.2
      (forall_mem_linkDocument rfl rfl fun link _ => rfl)]
    rfl
  · rw [hasUniqueFields_eq, flatMap_linkDocument rfl]
    have hnames : (links.flatMap fun link => link.definition.node?.toList.flatMap
        TypeNode.fieldNames) = links.map fun link => (link.name, "next") :=
      List.map_eq_flatMap.symm
    have hkeys : ((links.map fun link => (link.name, "next")).map Prod.fst).Nodup := by
      rw [List.map_map]
      exact hlinked.nodup
    rw [hnames]
    exact decide_eq_true hkeys.of_map

end

end Sdl

namespace Schema

variable {links : List Sdl.Link}

/-! ## Schemas of links -/

def linkType (link : Sdl.Link) : NamedType :=
  { name := link.name, directives := link.directives.map (·.name)
    shape := .object [] [{ name := "next", type := .named link.target }] }

def linkSchema (links : List Sdl.Link) : Schema :=
  { description := descriptionOf (Sdl.linkDocument links), types := links.map linkType
    directives := (directivesOf? Sources.marks).getD []
    roots := rootsOf (Sdl.linkDocument links) }

theorem settleValues_of_ok {schema : Schema} {settled : Settled} (room : Nat)
    {values : List InputValue}
    (hvalues : ∀ input ∈ values, ∃ constant, schema.defaultConstant settled input = .ok constant) :
    schema.settleValues room values settled = some settled := by
  have hfields : ∃ fields, schema.fieldsBy (schema.settleWithin room) values settled =
      some (fields, settled) := by
    induction values with
    | nil => exact ⟨[], rfl⟩
    | cons input rest ih =>
        obtain ⟨constant, hconstant⟩ := hvalues input List.mem_cons_self
        obtain ⟨fields, hrest⟩ :=
          ih fun other hother => hvalues other (List.mem_cons_of_mem _ hother)
        have hfirst : schema.constantBy (schema.settleWithin room) input (schema.inputCount + 1)
            settled = some (constant, settled) := by
          rw [constantBy, hconstant]
        refine ⟨{ name := input.name, type := input.type, default := constant } :: fields, ?_⟩
        rw [fieldsBy, hfirst]
        simp only [Option.bind_eq_bind, Option.bind_some, hrest, pure]
  obtain ⟨fields, hfields⟩ := hfields
  rw [settleValues, hfields]
  rfl

theorem extensionsOf_linkDocument (links : List Sdl.Link) (name : String) :
    extensionsOf (Sdl.linkDocument links) name = [] := by
  have hnone : ∀ d ∈ Sdl.linkDocument links, ∀ node, d ≠ .typeExtension node :=
    Sdl.forall_mem_linkDocument (fun _ heq => by contradiction) (fun _ heq => by contradiction)
      fun _ _ _ heq => by contradiction
  apply List.eq_nil_iff_forall_not_mem.2
  intro extension hextension
  exact hnone _ (Sdl.mem_extensionsOf_iff.1 hextension).1 _ rfl

theorem namedType?_link (hlinked : Sdl.Linked links) {link : Sdl.Link} (hlink : link ∈ links) :
    namedType? (Sdl.linkDocument links) none link.node = some (linkType link) := by
  have hown : BuiltIn.type? link.node.name = none :=
    BuiltIn.type?_eq_none_iff.2 (hlinked.own link hlink)
  rw [namedType?, hown]
  simp only [extensionsOf_linkDocument, List.map_nil, List.flatMap_nil, List.append_nil]
  rfl

theorem isOutput_link (hlinked : Sdl.Linked links) {link : Sdl.Link} (hlink : link ∈ links) :
    (linkSchema links).isOutput link.target = true := by
  have hkinds : ∀ type ∈ BuiltIn.types ++ links.map linkType, type.shape.kind ≠ .input := by
    intro type htype
    rcases List.mem_append.1 htype with hbuilt | hlinks
    · exact (by decide : ∀ type ∈ BuiltIn.types, type.shape.kind ≠ .input) type hbuilt
    · obtain ⟨other, -, rfl⟩ := List.mem_map.1 hlinks
      exact fun heq => by contradiction
  cases htype : (linkSchema links).type? link.target with
  | none =>
      rw [type?, Option.or_eq_none_iff, BuiltIn.type?_eq_none_iff, List.find?_eq_none] at htype
      rcases hlinked.known link hlink with hown | hbuilt
      · obtain ⟨other, hother, hname⟩ := List.mem_map.1 hown
        exact absurd (decide_eq_true hname) (htype.2 _ (List.mem_map_of_mem hother))
      · exact absurd hbuilt htype.1
  | some type =>
      refine isKind_iff.2 ⟨type, htype, decide_eq_true (hkinds type ?_)⟩
      rcases type?_cases htype with ⟨hbuilt, -⟩ | ⟨-, hown, -⟩
      · exact List.mem_append_left _ (BuiltIn.mem_of_type? hbuilt).1
      · exact List.mem_append_right _ hown

theorem isOf_linkSchema [Runtime] (hlinked : Sdl.Linked links) :
    (linkSchema links).IsOf (Sdl.linkDocument links) where
  isValid := Sdl.isValid_linkDocument hlinked
  types := by
    have hnodes : Sdl.typeDefinitions (Sdl.linkDocument links) =
        links.map fun link => (none, link.node) := by
      have hmarks : Sdl.typeDefinitions Sources.marks = [] := rfl
      rw [Sdl.linkDocument, Sdl.typeDefinitions, List.filterMap_append]
      refine (congrArg (· ++ _) hmarks).trans ?_
      rw [List.nil_append, List.filterMap_map, ← List.filterMap_eq_map]
      rfl
    rw [typesOf?_eq, hnodes, Results.mapM_eq_some_iff, List.forall₂_map_left_iff]
    change List.Forall₂ _ links (links.map linkType)
    rw [List.forall₂_map_right_iff, List.forall₂_same]
    exact fun link hlink => namedType?_link hlinked hlink
  directives := by
    rw [directivesOf?, Sdl.directiveDefinitions_linkDocument]
    rfl
  roots := rfl
  description := rfl
  isWellKinded := by
    have hdirectives : ((linkSchema links).directives.all fun d =>
        (linkSchema links).hasInputArguments d.arguments) = true := rfl
    rw [isWellKinded, hdirectives, Bool.and_true, List.all_eq_true]
    intro type htype
    obtain ⟨link, hlink, rfl⟩ := List.mem_map.1 htype
    have houtput := isOutput_link hlinked hlink
    change ((linkSchema links).isOutput link.target && true && true) = true
    rw [houtput]
    rfl
  settles := by
    have hdirectives : (linkSchema links).settleValues Runtime.settlingDepth
        ((linkSchema links).directives.flatMap (·.arguments)) [] = some [] := by
      apply settleValues_of_ok
      have harguments : (linkSchema links).directives.flatMap (·.arguments) =
          [{ name := "if", type := .required (.named "Boolean") },
            { name := "if", type := .required (.named "Boolean") },
            { name := "reason", type := .named "String"
              default := some (.string ⟨Sdl.BuiltIn.deprecationReason, false⟩) },
            { name := "url", type := .required (.named "String") }] := rfl
      rw [harguments]
      simp only [List.forall_mem_cons]
      exact ⟨⟨_, rfl⟩, ⟨_, rfl⟩, ⟨_, rfl⟩, ⟨_, rfl⟩, by simp⟩
    have htypes : ∀ links' : List Sdl.Link,
        (links'.map linkType).foldlM ((linkSchema links).settleType Runtime.settlingDepth) [] =
          some [] := by
      intro links'
      induction links' with
      | nil => rfl
      | cons link rest ih =>
          have hfirst :
              (linkSchema links).settleType Runtime.settlingDepth [] (linkType link) = some [] :=
            settleValues_of_ok Runtime.settlingDepth (by simp)
          rw [List.map_cons, List.foldlM_cons, hfirst]
          exact ih
    rw [settledInputs?, hdirectives]
    exact Option.isSome_iff_exists.2 ⟨_, htypes links⟩

end Schema

namespace Sources

theorem originsOf_inline [Runtime] {text : String} {document : Sdl.Document}
    (hparse : Sdl.parse? text = some document) (hbrace : '\x7b' ∈ text.toList)
    (hslash : '/' ∉ text.toList) (hdot : '.' ∉ text.toList) :
    originsOf bareSurroundings.files text = .ok [.inline text] := by
  have hblock : hasBrace text = true := List.contains_iff_mem.2 hbrace
  have hpart : Path.isPart text = true := by
    simp only [Path.isPart, ne_eq, decide_not, Bool.and_eq_true, Bool.not_eq_true',
      decide_eq_false_iff_not]
    constructor
    · rintro rfl
      simp at hbrace
    · rintro rfl
      simp at hbrace
  have hnoFile : bareSurroundings.files.isFile { parts := [text] } = false := by
    have hup : text ≠ ".." := by
      rintro rfl
      simp at hbrace
    have hstep : bareSurroundings.files.step [] text = none := by
      simp [FileSystem.step, bareSurroundings, FileNode.at?, hup, Entries.get?]
    have hnode : bareSurroundings.files.node? { parts := [text] } = none := by
      have hlocate : bareSurroundings.files.locate { parts := [text] } = none := by
        rw [FileSystem.locate, List.foldlM_cons]
        exact congrArg (Option.bind · _) hstep
      rw [FileSystem.node?, hlocate, Option.bind_none]
    rw [FileSystem.isFile, FileSystem.content?, hnode]
    rfl
  have hsuffix : Path.suffix { parts := [text] } = "" := by
    have hrest : text.toList.reverse.dropWhile (· ≠ '.') = [] := by
      apply List.dropWhile_eq_nil_iff.2
      intro c hc
      rw [decide_eq_true_eq]
      rintro rfl
      exact hdot (List.mem_reverse.1 hc)
    unfold Path.suffix Path.suffixOf
    have hname : Path.name { parts := [text] } = text := rfl
    rw [hname, hrest]
    simp
  have hpath := Path.ofText_of_notMem hslash hpart
  have hglob : isGlob text = false := by
    rw [isGlob, hblock, Bool.not_true, Bool.and_false]
  have hplain : hasFileSuffix text = false := by
    rw [hasFileSuffix, hpath, hsuffix]
    decide
  have hword : isSingleWord text = false := by
    rw [isSingleWord, hblock, Bool.not_true, Bool.and_false]
  rw [← hpath] at hnoFile
  rw [originsOf_of_not_isFile (isUrl_of_parse? hparse) hglob hnoFile, hplain, hword]
  rfl

variable {links : List Sdl.Link}

section Usual

attribute [local instance] Runtime.usual

theorem documents_link {link : Sdl.Link} (hnamed : link.IsNamed) :
    (documents bareSurroundings link.source).result = .ok [[link.definition]] := by
  have hslash : '/' ∉ link.source.toList := Sdl.Link.notMem_source hnamed (by decide) (by decide)
  have hdot : '.' ∉ link.source.toList := Sdl.Link.notMem_source hnamed (by decide) (by decide)
  have hbrace : '\x7b' ∈ link.source.toList := by
    rw [Sdl.Link.toList_source]
    simp
  have hparse := Sdl.Link.parse?_source hnamed
  rw [documents_of_inline (originsOf_inline hparse hbrace hslash hdot) hparse]
  rfl

theorem definitions_links (hnamed : ∀ link ∈ links, link.IsNamed) :
    definitions bareSurroundings (links.map (·.source)) = .ok (links.map (·.definition)) := by
  rw [definitions_eq_ok_iff]
  constructor
  · intro source hsource
    obtain ⟨link, hlink, rfl⟩ := List.mem_map.1 hsource
    exact ⟨_, documents_link (hnamed link hlink)⟩
  · rw [List.flatMap_map, List.map_eq_flatMap]
    apply List.flatMap_congr
    intro link hlink
    rw [brought, documents_link (hnamed link hlink)]
    rfl

theorem ofDocument?_links (hlinked : Sdl.Linked links) :
    Schema.ofDocument? (Sdl.firsts (marks ++ links.map (·.definition))) =
      some (Schema.linkSchema links) := by
  change Schema.ofDocument? (Sdl.firsts (Sdl.linkDocument links)) = _
  rw [Sdl.firsts_linkDocument hlinked, Schema.ofDocument?_eq_some_iff]
  exact Schema.isOf_linkSchema hlinked

/-- Different objects that lead to one another load, each from a source of its own. -/
theorem load_links (hlinked : Sdl.Linked links) :
    (load bareSurroundings (links.map (·.source))).result = .ok (Schema.linkSchema links) := by
  have hagrees : Sdl.Agrees written (links.map (·.definition)) := by
    intro one hone other hother hname
    simp only [List.filterMap_map, List.mem_filterMap, Function.comp_apply] at hone hother
    obtain ⟨first, hfirst, hone⟩ := hone
    obtain ⟨second, hsecond, hother⟩ := hother
    cases hone
    cases hother
    rw [List.inj_on_of_nodup_map hlinked.nodup hfirst hsecond hname]
  exact load_eq_ok_iff.2
    ⟨_, definitions_links hlinked.isNamed, hagrees, ofDocument?_links hlinked⟩

/-! ## Ladders -/

/-- The object that a link stands for. -/
def linkObject (link : Sdl.Link) : TypeDef :=
  { name := link.name, directives := link.directives.map (·.name)
    shape := .object [{ name := "next", type := .named link.target }] [] }

theorem linkObject_mem (hlinked : Sdl.Linked links) {link : Sdl.Link} (hlink : link ∈ links) :
    linkObject link ∈ (Schema.linkSchema links).toGraph.objects := by
  have hnode : (none, link.node) ∈ Sdl.typeDefinitions (Sdl.linkDocument links) :=
    Sdl.mem_typeDefinitions_iff.2
      (List.mem_append_right _ (List.mem_map.2 ⟨link, hlink, rfl⟩))
  have hobject : Schema.objectOf? (Sdl.linkDocument links) none link.node =
      some (linkObject link) := by
    have hown : link.node.name ∉ Sdl.BuiltIn.typeNames := hlinked.own link hlink
    rw [Schema.objectOf?, if_neg hown]
    simp only [Schema.extensionsOf_linkDocument, List.flatMap_cons, List.flatMap_nil,
      List.append_nil]
    rfl
  rw [(Schema.isOf_linkSchema hlinked).objects_toGraph]
  exact List.mem_filterMap.2 ⟨_, hnode, hobject⟩

end Usual

/-- A link of a ladder; only the highest one is marked. -/
def ladderLink (height level : Nat) : Sdl.Link :=
  { name := TypeGraph.floorName level
    target := match level with
      | 0 => "Int"
      | lower + 1 => TypeGraph.floorName lower
    isMarked := level = height }

def ladderLinks (height : Nat) : List Sdl.Link :=
  (List.range (height + 1)).map (ladderLink height)

theorem linked_ladderLinks (height : Nat) : Sdl.Linked (ladderLinks height) where
  isNamed := by
    intro link hlink
    obtain ⟨level, -, rfl⟩ := List.mem_map.1 hlink
    refine ⟨TypeGraph.isName_floorName level, ?_⟩
    cases level with
    | zero => exact (by decide : Introspection.isName "Int" = true)
    | succ lower => exact TypeGraph.isName_floorName lower
  nodup := by
    rw [ladderLinks, List.map_map]
    exact List.nodup_range.map fun _ _ heq => TypeGraph.floorName_injective heq
  own := by
    intro link hlink
    obtain ⟨level, -, rfl⟩ := List.mem_map.1 hlink
    intro hbuilt
    have hfirst : ∀ name ∈ Sdl.BuiltIn.typeNames, name.toList.head? ≠ some 'U' := by decide
    apply hfirst _ hbuilt
    change (TypeGraph.floorName level).toList.head? = some 'U'
    rw [TypeGraph.floorName, String.toList_ofList, List.replicate_succ, List.head?_cons]
  known := by
    intro link hlink
    obtain ⟨level, hlevel, rfl⟩ := List.mem_map.1 hlink
    cases level with
    | zero => exact .inr (by decide : "Int" ∈ Sdl.BuiltIn.typeNames)
    | succ lower =>
        refine .inl (List.mem_map.2 ⟨ladderLink height lower, ?_, rfl⟩)
        rw [List.mem_range] at hlevel
        exact List.mem_map_of_mem (List.mem_range.2 (by omega))

theorem isLadder_ladderLinks (height : Nat) :
    (Schema.linkSchema (ladderLinks height)).toGraph.IsLadder height
      fun level => linkObject (ladderLink height level) where
  name _ := rfl
  get level hle := by
    have hlink : ladderLink height level ∈ ladderLinks height :=
      List.mem_map_of_mem (List.mem_range.2 (by omega))
    have hobject := linkObject_mem (linked_ladderLinks height) hlink
    exact (Schema.isIndexed_toGraph _).get?_name (TypeGraph.mem_objects_iff.1 hobject).1
  calls _ := rfl
  part _ := rfl

section Usual

attribute [local instance] Runtime.usual

/-- Sources for a ladder of 333 objects load, and the mark of the highest one does not give it a
fragment, since there is no room for its outline. -/
theorem ladderSources_have_no_fragment :
    ∃ schema document,
      (load bareSurroundings ((ladderLinks 332).map (·.source))).result = .ok schema ∧
        definitions bareSurroundings ((ladderLinks 332).map (·.source)) = .ok document ∧
        ∃ type ∈ schema.toGraph.objects, type.name ∉ Sdl.BuiltIn.typeNames ∧
          docsDirective ∈ Sdl.appliedBy document type.name ∧
          schema.toGraph.LacksRoom [.renderType, .render] [type.name] type ∧
          ∀ settings fragments, schema.toGraph.fragments settings ≠ .ok fragments := by
  have hlinked := linked_ladderLinks 332
  have htop : ladderLink 332 332 ∈ ladderLinks 332 :=
    List.mem_map_of_mem (List.mem_range.2 (by decide))
  have hobject := linkObject_mem hlinked htop
  have hlacks := (isLadder_ladderLinks 332).lacksRoom
    (fun calls hlength => Runtime.hasRoom_usual_eq_false_iff.2 (by omega)) [.renderType, .render]
  have happlied := directives_of_mem_objects (ofDocument?_links hlinked) hobject
  have hmarked : docsDirective ∈ (linkObject (ladderLink 332 332)).directives :=
    List.mem_singleton_self _
  have hdocumented : linkObject (ladderLink 332 332) ∈
      (Schema.linkSchema (ladderLinks 332)).toGraph.documented :=
    List.mem_filter.2 ⟨hobject, List.contains_iff_mem.2 hmarked⟩
  refine ⟨_, _, load_links hlinked, definitions_links hlinked.isNamed, _, hobject,
    hlinked.own _ htop, happlied ▸ hmarked, hlacks, ?_⟩
  intro settings fragments hok
  exact TypeGraph.not_fragmentsLackRoom hok (.inr ⟨_, hdocumented, hlacks⟩)

end Usual

end Sources

end ConfigSchema
