import ConfigSchema.Proofs.IntrospectionTexts
import ConfigSchema.Proofs.JsonFiles
import ConfigSchema.Proofs.LadderSources
import ConfigSchema.Proofs.NamedFiles

/-!
# Sources that hold introspection results

An introspection result takes a long way: it is read as a schema, that schema is written as a
document, and the document is merged behind the marks and makes a schema again.  The way is open
exactly if the schema can be told.  Then the types are those of the definitions that the result
tells of, but only the directives are applied that tell of deprecations and specifications.
-/

namespace ConfigSchema

/-- The text that stands for an origin in messages. -/
def Origin.label : Origin → String
  | .url address => address
  | .file path => path.toText
  | .inline _ => "<inline>"

namespace Sources

open Introspection Introspection.Document Schema

variable {around : Surroundings} {source text : String} {origin : Origin} {value : Json}
  {schema : Schema} {document : Sdl.Document}

/-! ## Single origins -/

/-- An origin that holds a text of definitions. -/
inductive HoldsText (around : Surroundings) : Origin → String → Prop
  | inline (text : String) : HoldsText around (.inline text) text
  | file {path : Path} {content : ByteArray} {text : String}
      (hcontent : around.files.content? path = some content)
      (htext : Text.decoded? content = some text) (hsuffix : path.suffix ≠ jsonSuffix) :
      HoldsText around (.file path) text

/-- An origin that holds a value: a file of JSON, or the address of a service that answers. -/
inductive HoldsValue [Runtime] (around : Surroundings) : Origin → Json → Prop
  | file {path : Path} {content : ByteArray} {text : String} {value : Json}
      (hcontent : around.files.content? path = some content)
      (htext : Text.decoded? content = some text) (hsuffix : path.suffix = jsonSuffix)
      (hread : Json.read text .schema = .ok value) : HoldsValue around (.file path) value
  | url {address : String} {value : Json} (hreply : (around.web address).value = .ok value) :
      HoldsValue around (.url address) value

theorem documentOf_of_holdsText [Runtime] (hholds : HoldsText around origin text) :
    documentOf around origin = documentOfText origin.label text := by
  cases hholds with
  | inline text => rfl
  | file hcontent htext hsuffix =>
      rw [documentOf, documentOfFile, hcontent]
      dsimp only
      rw [htext]
      exact if_neg hsuffix

theorem documentOf_of_holdsValue [Runtime] (hholds : HoldsValue around origin value)
    (herrors : value.get? "errors" = none) :
    documentOf around origin = documentOfValue origin.label value := by
  cases hholds with
  | file hcontent htext hsuffix hread =>
      rw [documentOf, documentOfFile, hcontent]
      dsimp only
      rw [htext]
      dsimp only
      rw [if_pos hsuffix, hread]
      rfl
  | url hreply =>
      rw [documentOf, documentOfReply, hreply]
      dsimp only
      rw [herrors]
      rfl

theorem definitions_of_origin [Runtime] (horigin : originsOf around.files source = .ok [origin]) :
    definitions around [source] = documentOf around origin := by
  have hdocuments : (documents around source).result =
      [origin].mapM (documentOf around) := by
    rw [result_documents, horigin]
    rfl
  rw [definitions, List.mapM_cons, List.mapM_nil, hdocuments, List.mapM_cons, List.mapM_nil]
  cases documentOf around origin with
  | error e => rfl
  | ok document => exact congrArg Except.ok (List.append_nil document)

theorem result_graph [Runtime] (around : Surroundings) (sources : List String) :
    (graph around sources).result = (load around sources).result.map Schema.toGraph := by
  unfold graph
  rw [Traced.result_bind]
  cases (load around sources).result <;> rfl

/-- Where there are no definitions there is no schema, for the same cause. -/
theorem load_eq_error [Runtime] {sources : List String} {e : LoadError}
    (herror : definitions around sources = .error e) :
    (load around sources).result = .error e := by
  rw [result_load, Results.map_eq_error_iff.1 herror]
  rfl

/-! ## Introspection results -/

theorem documentOfValue_result [Runtime] (hheld : value = Result.ofSchema schema ∨
      value = .obj [("data", Result.ofSchema schema)]) (place : String) :
    documentOfValue place value =
      match read (Result.ofSchema schema) with
      | .error .malformed => .error (.malformed place)
      | .error .notAnObject => .error (.partless place)
      | .ok schema =>
          match Document.definitions schema with
          | .error cause => .error (.inexpressible place cause)
          | .ok definitions =>
              match ofDefinitions? schema definitions with
              | some document => .ok document
              | none => .error (.unparsed place) := by
  rcases hheld with rfl | rfl <;> rfl

theorem get?_errors [Runtime] (hheld : value = Result.ofSchema schema ∨
    value = .obj [("data", Result.ofSchema schema)]) : value.get? "errors" = none := by
  rcases hheld with rfl | rfl <;> rfl

theorem definedTypes_printedDefinitions [Runtime] (schema : Schema) :
    Sdl.Document.definedTypes (printedDefinitions schema) = (ownTypes schema).map (·.name) := by
  have hschema : Sdl.Document.definedTypes (schemaDefinition schema) = [] := by
    rcases schemaDefinition_cases schema with hnil | hone
    · rw [hnil]
      rfl
    · rw [hone]
      rfl
  have hdirectives : Sdl.Document.definedTypes ((ownDirectives schema).map fun d =>
      .directive (printedDirective schema (settledOf schema) d)) = [] := by
    rw [Sdl.Document.definedTypes, List.filterMap_map]
    exact List.filterMap_eq_nil_iff.2 fun _ _ => rfl
  rw [Sdl.Document.definedTypes] at hschema hdirectives ⊢
  rw [printedDefinitions, List.filterMap_append, List.filterMap_append, hschema, hdirectives,
    List.filterMap_map]
  exact congrFun List.filterMap_eq_map (ownTypes schema)

theorem agrees_printedDefinitions [Runtime] (hprintable : IsPrintable schema) :
    Sdl.Agrees written (printedDefinitions schema) := by
  apply Sdl.agrees_of_nodup
  rw [definedTypes_printedDefinitions]
  exact hprintable.names.types

/-! ## The detour -/

section

variable [Runtime] {place : String} (hheld : value = Result.ofSchema schema ∨
  value = .obj [("data", Result.ofSchema schema)]) (hloaded : schema.IsLoaded)
  (hnormal : schema.HasNormalDefaults)

include hheld hloaded hnormal

theorem documentOfValue_of_canBeTold (htold : schema.CanBeTold) :
    documentOfValue place value = .ok (printedDefinitions schema.retold) := by
  have hretellable := htold.isRetellable hloaded hnormal
  rw [documentOfValue_result hheld, Result.read_ofSchema hloaded.sound,
    (hloaded.isTold_iff hnormal).2 htold]
  change (match Document.definitions schema.retold with
    | .error cause => _
    | .ok made => _ : Except LoadError Sdl.Document) = _
  rw [hretellable.definitions_retold]
  dsimp only
  rw [hretellable.isPrintable.ofDefinitions?]

theorem documentOfValue_of_not_canBeTold (htold : ¬schema.CanBeTold) :
    documentOfValue place value = .error (.malformed place) := by
  have hnot : Result.isTold schema = false :=
    Bool.eq_false_iff.2 fun htrue => htold ((hloaded.isTold_iff hnormal).1 htrue)
  rw [documentOfValue_result hheld, Result.read_ofSchema hloaded.sound, hnot]
  rfl

end

section

variable [Runtime] {told : String} {place : Origin}
  (hplace : originsOf around.files told = .ok [place])
  (hvalue : HoldsValue around place value)
  (hheld : value = Result.ofSchema schema ∨ value = .obj [("data", Result.ofSchema schema)])
  (hloaded : schema.IsLoaded) (hnormal : schema.HasNormalDefaults)

include hplace hvalue hheld hloaded hnormal

/-- A schema that can be told is loaded as what it is after the detour, if that is a schema. -/
theorem load_of_isOf (htold : schema.CanBeTold)
    (hof : schema.retold.reprinted.IsOf (mergedDocument schema.retold)) :
    (load around [told]).result = .ok schema.retold.reprinted := by
  have hretellable := htold.isRetellable hloaded hnormal
  refine load_eq_ok_iff.2 ⟨printedDefinitions schema.retold, ?_,
    agrees_printedDefinitions hretellable.isPrintable, ?_⟩
  · rw [definitions_of_origin hplace, documentOf_of_holdsValue hvalue (get?_errors hheld),
      documentOfValue_of_canBeTold hheld hloaded hnormal htold]
  · rw [Document.firsts_marks_append hretellable.isPrintable.names, ofDocument?_eq_some_iff]
    exact hof

theorem graph_of_canBeTold {own : List Schema.Directive} (hown : schema.HasOwnDirectives own)
    (htold : schema.CanBeTold) :
    (graph around [told]).result = .ok schema.redirected.toGraph := by
  have hof := (htold.isRetellable hloaded hnormal).isOf_reprinted hown
  rw [result_graph, load_of_isOf hplace hvalue hheld hloaded hnormal htold hof,
    ← (corresponds_redirected hloaded.sound hown hof).toGraph_eq]
  rfl

theorem graph_of_not_canBeTold (htold : ¬schema.CanBeTold) :
    (graph around [told]).result = .error (.malformed place.label) := by
  have herror : definitions around [told] = .error (.malformed place.label) := by
    rw [definitions_of_origin hplace, documentOf_of_holdsValue hvalue (get?_errors hheld),
      documentOfValue_of_not_canBeTold hheld hloaded hnormal htold]
  rw [result_graph, load_eq_error herror]
  rfl

end

/-- A file with the text of an introspection result on one line holds the result. -/
theorem holdsValue_render [Runtime] (hloaded : schema.IsLoaded) {path : Path}
    (hcontent : around.files.content? path =
      some ((Result.ofSchema schema).render .oneLine ++ "\n").toUTF8)
    (hsuffix : path.suffix = jsonSuffix) :
    HoldsValue around (.file path) (Result.ofSchema schema) :=
  .file hcontent (Json.decoded?_render (Result.isExact_ofSchema hloaded).plain) hsuffix
    (Result.read_render_ofSchema hloaded trivial)

/-! ## Sources of definitions -/

section

variable [Runtime] (horigin : originsOf around.files source = .ok [origin])
  (htext : HoldsText around origin text) (hload : (load around [source]).result = .ok schema)

include horigin htext hload

theorem exists_document_of_holdsText :
    ∃ document tokens, Sdl.parse? text = some document ∧ Sdl.tokens? text = some tokens ∧
      schema.IsOf (Sdl.firsts (marks ++ document)) := by
  obtain ⟨document, hdefinitions, -, hschema⟩ := load_eq_ok_iff.1 hload
  rw [definitions_of_origin horigin, documentOf_of_holdsText htext, documentOfText]
    at hdefinitions
  cases hparse : Sdl.parse? text with
  | none =>
      rw [hparse] at hdefinitions
      cases hdefinitions
  | some found =>
      rw [hparse] at hdefinitions
      cases hdefinitions
      have htokens : ∃ tokens, Sdl.tokens? text = some tokens := by
        cases htokens : Sdl.tokens? text with
        | none =>
            rw [Sdl.parse?, htokens] at hparse
            cases hparse
        | some tokens => exact ⟨tokens, rfl⟩
      obtain ⟨tokens, htokens⟩ := htokens
      exact ⟨document, tokens, rfl, htokens, ofDocument?_eq_some_iff.1 hschema⟩

/-- The schema of a source is read as a detour needs it. -/
theorem isRead_of_holdsText
    (htypes : ∀ document ∈ Sdl.parse? text, Sdl.AvoidsBuiltInTypes document)
    (hplain : ∀ tokens ∈ Sdl.tokens? text, Sdl.HavePlainStrings tokens) :
    ∃ document ∈ Sdl.parse? text, schema.IsRead document := by
  obtain ⟨document, tokens, hparse, htokens, hof⟩ :=
    exists_document_of_holdsText horigin htext hload
  exact ⟨document, hparse, hof, Sdl.isSound_of_parse? hparse htokens (hplain tokens htokens),
    htypes document hparse⟩

end

theorem load_of_holdsText [Runtime] (horigin : originsOf around.files source = .ok [origin])
    (htext : HoldsText around origin text) (hparse : Sdl.parse? text = some document)
    (hnodup : document.definedTypes.Nodup) (hof : schema.IsOf (Sdl.firsts (marks ++ document))) :
    (load around [source]).result = .ok schema := by
  refine load_eq_ok_iff.2
    ⟨document, ?_, Sdl.agrees_of_nodup hnodup, ofDocument?_eq_some_iff.2 hof⟩
  rw [definitions_of_origin horigin, documentOf_of_holdsText htext, documentOfText, hparse]

/-! ## Both ways -/

/-- Definitions and the introspection result of their schema give graphs that differ in applied
directives alone.  Only those stay that tell of specifications and of deprecations, so the compiled
documents differ in what is open.  The result gives a graph exactly if its schema can be told. -/
theorem introspection_shows_alike [Runtime] {around other : Surroundings}
    {source told text : String} {origin place : Origin} {schema : Schema} {result value : Json}
    (horigin : originsOf around.files source = .ok [origin]) (htext : HoldsText around origin text)
    (hload : (load around [source]).result = .ok schema) (hroots : schema.HasValidRoots)
    (hown : ∀ document ∈ Sdl.parse? text, Sdl.AvoidsBuiltIn document)
    (hplain : ∀ tokens ∈ Sdl.tokens? text, Sdl.HavePlainStrings tokens)
    (hresult : schema.introspection? = some result)
    (hplace : originsOf other.files told = .ok [place]) (hvalue : HoldsValue other place value)
    (hheld : value = result ∨ value = .obj [("data", result)]) :
    (graph around [source]).result = .ok schema.toGraph ∧
      (schema.CanBeTold → (graph other [told]).result = .ok schema.redirected.toGraph) ∧
      (¬schema.CanBeTold → (graph other [told]).result = .error (.malformed place.label)) ∧
      schema.toGraph.SameButDirectives schema.redirected.toGraph ∧
      schema.toGraph.directives = schema.redirected.toGraph.directives ∧
      (∀ type ∈ schema.redirected.toGraph.types, type.directives ⊆ ["specifiedBy"] ∧
        ∀ field ∈ type.fields, field.directives ⊆ ["deprecated"]) ∧
      ∀ settings asked, schema.redirected.toGraph.document settings asked =
        (schema.toGraph.document settings asked).map
          (·.redefined fun _ definition => { definition with isOpen := false }) := by
  obtain ⟨hnormal, rfl⟩ := introspection?_eq_some_iff.1 hresult
  obtain ⟨document, hparse, hread⟩ := isRead_of_holdsText horigin htext hload
    (fun document hparse => (hown document hparse).types) hplain
  have hloaded := hread.isLoaded hroots
  obtain ⟨own, hdirectives⟩ := hread.exists_own (hown document hparse)
  refine ⟨?_, graph_of_canBeTold hplace hvalue hheld hloaded hnormal hdirectives,
    graph_of_not_canBeTold hplace hvalue hheld hloaded hnormal, sameButDirectives_redirected schema,
    rfl, directives_redirected schema, document_redirected schema⟩
  rw [result_graph, hload]
  rfl

/-! ## Three schemas -/

/-- Surroundings with one file, in which an introspection result stands. -/
def toldSurroundings [Runtime] (schema : Schema) : Surroundings :=
  let text := (Result.ofSchema schema).render .oneLine ++ "\n"
  { bareSurroundings with files := { root := .folder [("schema.json", .file text.toUTF8)] } }

def toldPath : Path := { parts := ["schema.json"] }

theorem originsOf_told [Runtime] (schema : Schema) :
    originsOf (toldSurroundings schema).files "schema.json" = .ok [.file toldPath] := by
  have hpath : Path.ofText "schema.json" = toldPath := by decide +kernel
  rw [originsOf_of_isFile (by decide +kernel) (by decide +kernel) (by rw [hpath]; rfl), hpath]

theorem holdsValue_told [Runtime] (hloaded : schema.IsLoaded) :
    HoldsValue (toldSurroundings schema) (.file toldPath) (Result.ofSchema schema) :=
  holdsValue_render hloaded rfl (by decide +kernel)

/-- A text that is loaded in place, as a schema that the specification allows. -/
structure LoadsInPlace [Runtime] (text : String) (document : Sdl.Document) (schema : Schema) :
    Prop where
  origins : originsOf bareSurroundings.files text = .ok [.inline text]
  plain : ∀ tokens ∈ Sdl.tokens? text, Sdl.HavePlainStrings tokens
  parse : Sdl.parse? text = some document
  types : Sdl.AvoidsBuiltInTypes document
  nodup : document.definedTypes.Nodup
  isOf : schema.IsOf (Sdl.firsts (marks ++ document))
  roots : schema.HasValidRoots

namespace LoadsInPlace

variable [Runtime] (hloads : LoadsInPlace text document schema)

include hloads

theorem avoidsBuiltIn
    (hdirectives : ∀ d ∈ document.directiveDefinitions, d.name ∉ Sdl.BuiltIn.directiveNames) :
    ∀ document ∈ Sdl.parse? text, Sdl.AvoidsBuiltIn document := by
  rw [hloads.parse]
  rintro _ ⟨⟩
  exact ⟨hloads.types, hdirectives⟩

theorem load_eq : (load bareSurroundings [text]).result = .ok schema :=
  load_of_holdsText hloads.origins (.inline text) hloads.parse hloads.nodup hloads.isOf

theorem isLoaded : schema.IsLoaded := by
  have htypes : ∀ document ∈ Sdl.parse? text, Sdl.AvoidsBuiltInTypes document := by
    rw [hloads.parse]
    rintro _ ⟨⟩
    exact hloads.types
  obtain ⟨document, -, hread⟩ :=
    isRead_of_holdsText hloads.origins (.inline text) hloads.load_eq htypes hloads.plain
  exact hread.isLoaded hloads.roots

end LoadsInPlace

theorem havePlainStrings_of_all [Runtime] {tokens : List Sdl.Token}
    (htokens : Sdl.tokens? text = some tokens)
    (hnone : (tokens.all fun | .string _ => false | _ => true) = true) :
    ∀ tokens ∈ Sdl.tokens? text, Sdl.HavePlainStrings tokens := by
  rw [htokens]
  rintro _ ⟨⟩
  exact fun _ hliteral => nomatch List.all_eq_true.1 hnone _ hliteral

/-- A type with a field that is deprecated. -/
def agedSource : String := "type Query \x7b size: Int @deprecated \x7d"

def agedDocument : Sdl.Document :=
  [.type none { name := "Query"
                body := .object [] [{ name := "size", type := .named "Int"
                                      directives := [{ name := "deprecated" }] }] }]

def agedSchema : Schema where
  types := [{ name := "Query"
              shape := .object [] [{ name := "size", type := .named "Int"
                                     deprecation := some Sdl.BuiltIn.deprecationReason
                                     directives := ["deprecated"] }] }]
  directives := markDirectives ++ BuiltIn.directives
  roots := { query := some "Query" }

section Usual

attribute [local instance] Runtime.usual

theorem agedSource_loads : LoadsInPlace agedSource agedDocument agedSchema := by
  have htokens : Sdl.tokens? agedSource = some [.name "type", .name "Query", .mark '\x7b',
      .name "size", .mark ':', .name "Int", .mark '@', .name "deprecated", .mark '\x7d'] := by
    decide +kernel
  have hparse : Sdl.parse? agedSource = some agedDocument := by
    rw [Sdl.parse?, htokens]
    rfl
  exact {
    origins := originsOf_inline hparse (by decide +kernel) (by decide +kernel) (by decide +kernel)
    plain := havePlainStrings_of_all htokens rfl
    parse := hparse
    types := by decide
    nodup := by decide
    isOf := ⟨by decide +kernel, rfl, rfl, rfl, rfl, by decide +kernel, by decide +kernel⟩
    roots := ⟨rfl, by decide +kernel⟩ }

theorem agedSchema_isTold :
    agedSchema.introspection? = some (Result.ofSchema agedSchema) ∧ agedSchema.CanBeTold := by
  have hresult : agedSchema.introspection? = some (Result.ofSchema agedSchema) :=
    if_pos (by decide +kernel)
  have hnormal := (introspection?_eq_some_iff.1 hresult).1
  exact ⟨hresult, (agedSource_loads.isLoaded.isTold_iff hnormal).1 (by decide +kernel)⟩

/-- A deprecated field shows after the detour that it is deprecated. -/
theorem agedSource_shows_alike :
    (graph bareSurroundings [agedSource]).result = .ok agedSchema.toGraph ∧
      (graph (toldSurroundings agedSchema) ["schema.json"]).result =
        .ok agedSchema.redirected.toGraph ∧
      (agedSchema.redirected.toGraph.types.flatMap fun type => type.fields.map (·.directives)) =
        [["deprecated"]] := by
  have hloads := agedSource_loads
  obtain ⟨hresult, hcan⟩ := agedSchema_isTold
  obtain ⟨hgraph, htold, -⟩ := introspection_shows_alike hloads.origins (.inline agedSource)
    hloads.load_eq hloads.roots (hloads.avoidsBuiltIn (by decide)) hloads.plain hresult
    (originsOf_told agedSchema) (holdsValue_told hloads.isLoaded) (.inl rfl)
  exact ⟨hgraph, htold hcan, by decide +kernel⟩

/-- A directive under the name of a built-in one, whose argument alone leads to a built-in type. -/
def skippedSource : String :=
  "directive @skip(size: Float) on FIELD type Query \x7b size: Int \x7d"

def skippedDocument : Sdl.Document :=
  [.directive { name := "skip", arguments := [{ name := "size", type := .named "Float" }]
                locations := [.field] },
    .type none { name := "Query"
                 body := .object [] [{ name := "size", type := .named "Int" }] }]

def skippedSchema : Schema where
  types := [{ name := "Query", shape := .object [] [{ name := "size", type := .named "Int" }] }]
  directives := markDirectives ++
    { name := "skip", arguments := [{ name := "size", type := .named "Float" }]
      locations := [.field] } :: BuiltIn.directives.filter (·.name ≠ "skip")
  roots := { query := some "Query" }

theorem skippedSource_loads : LoadsInPlace skippedSource skippedDocument skippedSchema := by
  have htokens : Sdl.tokens? skippedSource = some [.name "directive", .mark '@', .name "skip",
      .mark '(', .name "size", .mark ':', .name "Float", .mark ')', .name "on", .name "FIELD",
      .name "type", .name "Query", .mark '\x7b', .name "size", .mark ':', .name "Int",
      .mark '\x7d'] := by
    decide +kernel
  have hparse : Sdl.parse? skippedSource = some skippedDocument := by
    rw [Sdl.parse?, htokens]
    rfl
  exact {
    origins := originsOf_inline hparse (by decide +kernel) (by decide +kernel) (by decide +kernel)
    plain := havePlainStrings_of_all htokens rfl
    parse := hparse
    types := by decide
    nodup := by decide
    isOf := ⟨by decide +kernel, rfl, rfl, rfl, rfl, by decide +kernel, by decide +kernel⟩
    roots := ⟨rfl, by decide +kernel⟩ }

/-- The schema can be told, and its document does not define the directive again. -/
theorem skippedSchema_isTold :
    skippedSchema.introspection? = some (Result.ofSchema skippedSchema) ∧
      skippedSchema.CanBeTold ∧
      skippedSchema.retold.reprinted.IsOf (mergedDocument skippedSchema.retold) := by
  have hresult : skippedSchema.introspection? = some (Result.ofSchema skippedSchema) :=
    if_pos (by decide +kernel)
  have hnormal := (introspection?_eq_some_iff.1 hresult).1
  have hloaded := skippedSource_loads.isLoaded
  have htold : skippedSchema.CanBeTold := (hloaded.isTold_iff hnormal).1 (by decide +kernel)
  have hprintable := (htold.isRetellable hloaded hnormal).isPrintable
  exact ⟨hresult, htold, Schema.isOf_reprinted hprintable.isValid_mergedDocument
    (by decide +kernel) (by decide +kernel)⟩

/-- The name of a type in a hundred lists. -/
def inLists (name : String) : TypeRef :=
  Nat.iterate .list 100 (.named name)

def listLetters (name : String) : List Char :=
  List.replicate 100 '[' ++ name.toList ++ List.replicate 100 ']'

def deepLetters : List Char :=
  "input Inner \x7b inner: ".toList ++ listLetters "Int" ++
    " = 1 \x7d type Query \x7b size(outer: ".toList ++ listLetters "Inner" ++
      " = \x7b\x7d): Int \x7d".toList

/-- A default that holds another one, each in a hundred lists. -/
def deepSource : String := String.ofList deepLetters

theorem toList_deepSource : deepSource.toList = deepLetters := String.toList_ofList

def deepTokens : List Sdl.Token :=
  List.flatten [[.name "input", .name "Inner", .mark '\x7b', .name "inner", .mark ':'],
    (inLists "Int").tokens, [.mark '=', .int "1", .mark '\x7d', .name "type", .name "Query",
      .mark '\x7b', .name "size", .mark '(', .name "outer", .mark ':'],
    (inLists "Inner").tokens, [.mark '=', .mark '\x7b', .mark '\x7d', .mark ')', .mark ':',
      .name "Int", .mark '\x7d']]

def deepDocument : Sdl.Document :=
  [.type none { name := "Inner"
                body := .input [{ name := "inner", type := inLists "Int"
                                  default := some (.int "1") }] },
    .type none { name := "Query"
                 body := .object [] [{ name := "size", type := .named "Int"
                                       arguments := [{ name := "outer", type := inLists "Inner"
                                                       default := some (.object []) }] }] }]

def deepSchema : Schema where
  types := [{ name := "Inner"
              shape := .input [{ name := "inner", type := inLists "Int"
                                 default := some (.int "1") }] false },
    { name := "Query"
      shape := .object [] [{ name := "size", type := .named "Int"
                             arguments := [{ name := "outer", type := inLists "Inner"
                                             default := some (.object []) }] }] }]
  directives := markDirectives ++ BuiltIn.directives
  roots := { query := some "Query" }

set_option maxRecDepth 4000 in
theorem parse?_of_deepTokens (htokens : Sdl.tokens? text = some deepTokens) :
    Sdl.parse? text = some deepDocument := by
  rw [Sdl.parse?, htokens]
  rfl

theorem deepSource_loads : LoadsInPlace deepSource deepDocument deepSchema := by
  have htokens : Sdl.tokens? deepSource = some deepTokens := by
    rw [Sdl.tokens?, Text.hasSurrogate, toList_deepSource]
    decide +kernel
  have hparse := parse?_of_deepTokens htokens
  have hletters : '\x7b' ∈ deepSource.toList ∧ '/' ∉ deepSource.toList ∧
      '.' ∉ deepSource.toList := by
    rw [toList_deepSource]
    decide +kernel
  exact {
    origins := originsOf_inline hparse hletters.1 hletters.2.1 hletters.2.2
    plain := havePlainStrings_of_all htokens (by decide +kernel)
    parse := hparse
    types := by decide
    nodup := by decide
    isOf := ⟨by decide +kernel, rfl, rfl, rfl, rfl, by decide +kernel, by decide +kernel⟩
    roots := ⟨rfl, by decide +kernel⟩ }

theorem deepSchema_isNotTold :
    deepSchema.introspection? = some (Result.ofSchema deepSchema) ∧ ¬deepSchema.CanBeTold := by
  refine ⟨if_pos (by decide +kernel), fun htold => ?_⟩
  have hdeep : (deepSchema.inputValues.any fun input =>
      (deepSchema.normalDefault input).toOption.join.any fun w => Runtime.parsingDepth < w.depth) =
        true := by
    decide +kernel
  obtain ⟨input, hinput, hany⟩ := List.any_eq_true.1 hdeep
  obtain ⟨w, hdefault, hdepth⟩ := (Option.any_eq_true _ _).1 hany
  have hnormal := Results.eq_ok_of_toOption (Option.join_eq_some_iff.1 hdefault)
  exact absurd (htold.shallow input hinput w hnormal) (Nat.not_le.2 (of_decide_eq_true hdepth))

/-- Introspection results by which a schema does not show as its definitions do: one that keeps a
directive, one that makes no sense though the definitions load, and one that lacks a type, since
the definition of a built-in directive is left out of the document that is printed. -/
theorem introspection_shows_otherwise :
    ((load bareSurroundings [agedSource]).result = .ok agedSchema ∧ agedSchema.HasValidRoots ∧
      agedSchema.introspection? = some (Result.ofSchema agedSchema) ∧
      HoldsValue (toldSurroundings agedSchema) (.file toldPath) (Result.ofSchema agedSchema) ∧
      ∃ found, (graph (toldSurroundings agedSchema) ["schema.json"]).result = .ok found ∧
        ∃ type ∈ found.types, ∃ field ∈ type.fields, field.directives ≠ []) ∧
    ((load bareSurroundings [deepSource]).result = .ok deepSchema ∧ deepSchema.HasValidRoots ∧
      deepSchema.introspection? = some (Result.ofSchema deepSchema) ∧
      HoldsValue (toldSurroundings deepSchema) (.file toldPath) (Result.ofSchema deepSchema) ∧
      (graph (toldSurroundings deepSchema) ["schema.json"]).result =
        .error (.malformed "schema.json")) ∧
    (load bareSurroundings [skippedSource]).result = .ok skippedSchema ∧
      skippedSchema.HasValidRoots ∧
      skippedSchema.introspection? = some (Result.ofSchema skippedSchema) ∧
      HoldsValue (toldSurroundings skippedSchema) (.file toldPath)
        (Result.ofSchema skippedSchema) ∧
      ∃ found, (graph (toldSurroundings skippedSchema) ["schema.json"]).result = .ok found ∧
        ∃ type ∈ skippedSchema.toGraph.types, ∀ other ∈ found.types, other.name ≠ type.name := by
  have haged := agedSource_loads
  have hdeep := deepSource_loads
  have hskipped := skippedSource_loads
  obtain ⟨hagedResult, hagedTold⟩ := agedSchema_isTold
  obtain ⟨hdeepResult, hdeepNotTold⟩ := deepSchema_isNotTold
  obtain ⟨hskippedResult, hskippedTold, hskippedOf⟩ := skippedSchema_isTold
  have hagedValue := holdsValue_told haged.isLoaded
  have hdeepValue := holdsValue_told hdeep.isLoaded
  have hskippedValue := holdsValue_told hskipped.isLoaded
  have hdirectives : agedSchema.HasOwnDirectives [] := ⟨rfl, by simp, by simp⟩
  refine ⟨⟨haged.load_eq, haged.roots, hagedResult, hagedValue, agedSchema.redirected.toGraph, ?_,
    by decide +kernel⟩, ⟨hdeep.load_eq, hdeep.roots, hdeepResult, hdeepValue, ?_⟩,
    hskipped.load_eq, hskipped.roots, hskippedResult, hskippedValue,
    skippedSchema.retold.reprinted.toGraph, ?_, by decide +kernel⟩
  · exact graph_of_canBeTold (originsOf_told agedSchema) hagedValue (.inl rfl) haged.isLoaded
      (introspection?_eq_some_iff.1 hagedResult).1 hdirectives hagedTold
  · have hlabel : (Origin.file toldPath).label = "schema.json" := by decide +kernel
    rw [← hlabel]
    exact graph_of_not_canBeTold (originsOf_told deepSchema) hdeepValue (.inl rfl) hdeep.isLoaded
      (introspection?_eq_some_iff.1 hdeepResult).1 hdeepNotTold
  · have hload := load_of_isOf (originsOf_told skippedSchema) hskippedValue (.inl rfl)
      hskipped.isLoaded (introspection?_eq_some_iff.1 hskippedResult).1 hskippedTold hskippedOf
    rw [result_graph, hload]
    rfl

end Usual

end Sources

end ConfigSchema
