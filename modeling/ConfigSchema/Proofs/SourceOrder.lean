import ConfigSchema.Proofs.DeclarationOrder
import ConfigSchema.Proofs.LoadFailures

/-!
# The order of sources on the command line

The arguments are read in their order, whatever options stand between them.  The sources are the
values of the option in that order and behind them the plain arguments in that order, which is the
order of the command line unless an option is given again behind a plain argument.  The definitions
of the document come in the order of the sources.
-/

namespace ConfigSchema

namespace CommandLine

variable {given : List Given} {files : FileSystem}

/-- The text of a source, which is a value of the option for sources or a plain argument. -/
def source? : Given → Option String
  | .value option text => if option = .schema then some text else none
  | .plain text => some text
  | .flag _ => none

/-- The sources in the order in which they stand on the command line. -/
def sourcesAsGiven (given : List Given) : List String :=
  given.filterMap source?

/-- No value of the option for sources stands behind a plain argument. -/
def HasPlainsLast (given : List Given) : Prop :=
  ∀ before text after, given = before ++ .plain text :: after → values .schema after = []

/-! ## Reading -/

section

variable {argument text : String} {rest others : List String} {shown : List Given}
  {option : CommandOption}

theorem read?_of_plain (hplain : isOption argument = false) :
    read? (argument :: rest) = (read? rest).map (.plain argument :: ·) := by
  have hends : argument ≠ "--" := by
    rintro rfl
    contradiction
  rw [read?.eq_3 _ _ hends, if_neg (by simp [hplain])]

theorem read?_of_option (hends : argument ≠ "--") (hoption : isOption argument = true)
    (hread : readOption? argument = some { given := shown }) :
    read? (argument :: rest) = (read? rest).map (shown ++ ·) := by
  rw [read?.eq_3 _ _ hends, if_pos hoption, hread]

theorem read?_of_waiting (hends : argument ≠ "--") (hoption : isOption argument = true)
    (hread : readOption? argument = some { given := shown, waiting := some option }) :
    read? (argument :: text :: rest) =
      (read? rest).map (shown ++ .value option text :: ·) := by
  rw [read?.eq_3 _ _ hends, if_pos hoption, hread]

end

/-- Arguments that are read by themselves are read alike in front of others, unless they end the
options. -/
theorem read?_append {arguments others : List String} {more : List Given}
    (hoptions : "--" ∉ arguments) (hread : read? arguments = some given)
    (hothers : read? others = some more) : read? (arguments ++ others) = some (given ++ more) := by
  fun_induction read? arguments generalizing given with
  | case1 =>
      cases hread
      exact hothers
  | case2 rest => exact absurd List.mem_cons_self hoptions
  | case3 argument rest hends hoption hnone => contradiction
  | case4 argument rest hends hoption shown hshown ih =>
      obtain ⟨later, hlater, rfl⟩ := Option.map_eq_some_iff.1 hread
      have hrest := ih (fun hmem => hoptions (List.mem_cons_of_mem _ hmem)) hlater
      rw [List.cons_append, read?_of_option hends hoption hshown, hrest, Option.map_some,
        List.append_assoc]
  | case5 argument hends hoption shown option hshown => contradiction
  | case6 argument hends hoption shown option hshown text rest ih =>
      obtain ⟨later, hlater, rfl⟩ := Option.map_eq_some_iff.1 hread
      have hrest := ih (fun hmem => hoptions (by simp [hmem])) hlater
      rw [List.cons_append, List.cons_append, read?_of_waiting hends hoption hshown, hrest,
        Option.map_some, List.append_assoc]
      rfl
  | case7 argument rest hends hplain ih =>
      obtain ⟨later, hlater, rfl⟩ := Option.map_eq_some_iff.1 hread
      have hrest := ih (fun hmem => hoptions (List.mem_cons_of_mem _ hmem)) hlater
      rw [List.cons_append, read?_of_plain (eq_false_of_ne_true hplain), hrest]
      rfl

/-- A source behind its option, in the same argument or in the next one. -/
theorem read?_schema (text : String) :
    read? ["--schema", text] = some [.value .schema text] ∧
      read? ["--schema=" ++ text] = some [.value .schema text] := by
  have hwaiting : readOption? "--schema" = some { waiting := some .schema } := by decide +kernel
  have hletters : ("--schema=" ++ text).toList = "--schema".toList ++ '=' :: text.toList := by
    rw [String.toList_append]
    rfl
  have hplain : ∀ c ∈ "--schema".toList, decide (c ≠ '=') = true := by
    have hnone : '=' ∉ "--schema".toList := by decide +kernel
    rintro c hc
    rw [decide_eq_true_eq]
    rintro rfl
    exact hnone hc
  have hname : ("--schema=" ++ text).toList.takeWhile (· ≠ '=') = "--schema".toList := by
    rw [hletters, List.takeWhile_append_of_pos hplain, List.takeWhile_cons_of_neg (by simp),
      List.append_nil]
  have hbehind : ("--schema=" ++ text).toList.dropWhile (· ≠ '=') = '=' :: text.toList := by
    rw [hletters, List.dropWhile_append_of_pos hplain, List.dropWhile_cons_of_neg (by simp)]
  have hknown : CommandOption.longNames.lookup (String.ofList "--schema".toList) =
      some .schema := by decide +kernel
  have hjoined : readOption? ("--schema=" ++ text) = some { given := [.value .schema text] } := by
    unfold readOption?
    dsimp only
    rw [hname, hbehind, hknown]
    simp [CommandOption.takesValue]
  have hlength : "--schema=".length = 9 := by decide +kernel
  constructor
  · rw [read?_of_waiting (by decide) (by decide +kernel) hwaiting]
    rfl
  · rw [read?_of_option _ _ hjoined]
    · rfl
    · intro hends
      have hshort := congrArg String.toList hends
      rw [hletters] at hshort
      simp at hshort
    · simp only [isOption, hletters, String.length_append, hlength, Bool.and_eq_true,
        decide_eq_true_eq]
      exact ⟨rfl, by omega⟩

/-! ## Sources -/

section

variable {first : Given} {rest : List Given} {text : String}

theorem source_cases (first : Given) :
    (∃ text, first = .value .schema text) ∨ (∃ text, first = .plain text) ∨
      source? first = none := by
  cases first with
  | value option text =>
      by_cases hoption : option = .schema
      · exact .inl ⟨text, by rw [hoption]⟩
      · exact .inr (.inr (if_neg hoption))
  | flag option => exact .inr (.inr rfl)
  | plain text => exact .inr (.inl ⟨text, rfl⟩)

theorem sourcesOf_cons_schema :
    sourcesOf (.value .schema text :: rest) = text :: sourcesOf rest := rfl

theorem sourcesOf_cons_plain :
    sourcesOf (.plain text :: rest) = values .schema rest ++ text :: plains rest := rfl

theorem values_cons_of_source?_eq_none (hnone : source? first = none) :
    values .schema (first :: rest) = values .schema rest := by
  cases first with
  | value option text =>
      have hoption : option ≠ .schema := by
        rintro rfl
        contradiction
      exact List.filterMap_cons_none (if_neg hoption)
  | flag option => rfl
  | plain text => contradiction

theorem plains_cons_of_source?_eq_none (hnone : source? first = none) :
    plains (first :: rest) = plains rest := by
  cases first with
  | plain text => contradiction
  | _ => rfl

theorem sourcesOf_cons_of_source?_eq_none (hnone : source? first = none) :
    sourcesOf (first :: rest) = sourcesOf rest := by
  rw [sourcesOf, values_cons_of_source?_eq_none hnone, plains_cons_of_source?_eq_none hnone]
  rfl

theorem sourcesAsGiven_cons_schema :
    sourcesAsGiven (.value .schema text :: rest) = text :: sourcesAsGiven rest := rfl

theorem sourcesAsGiven_cons_plain :
    sourcesAsGiven (.plain text :: rest) = text :: sourcesAsGiven rest := rfl

theorem sourcesAsGiven_cons_of_source?_eq_none (hnone : source? first = none) :
    sourcesAsGiven (first :: rest) = sourcesAsGiven rest :=
  List.filterMap_cons_none hnone

theorem HasPlainsLast.tail (hlast : HasPlainsLast (first :: rest)) : HasPlainsLast rest := by
  intro before text after hsplit
  exact hlast (first :: before) text after (by rw [hsplit, List.cons_append])

theorem hasPlainsLast_cons (hrest : HasPlainsLast rest)
    (hfirst : ∀ text, first = .plain text → values .schema rest = []) :
    HasPlainsLast (first :: rest) := by
  intro before text after hsplit
  cases before with
  | nil =>
      obtain ⟨hplain, rfl⟩ := List.cons.inj hsplit
      exact hfirst text hplain
  | cons other before => exact hrest before text after (List.cons.inj hsplit).2

end

theorem values_sublist_sourcesAsGiven (given : List Given) :
    (values .schema given).Sublist (sourcesAsGiven given) := by
  induction given with
  | nil => exact List.Sublist.slnil
  | cons first rest ih =>
      rcases source_cases first with ⟨text, rfl⟩ | ⟨text, rfl⟩ | hnone
      · exact ih.cons_cons text
      · exact ih.cons text
      · rw [values_cons_of_source?_eq_none hnone, sourcesAsGiven_cons_of_source?_eq_none hnone]
        exact ih

theorem plains_sublist_sourcesAsGiven (given : List Given) :
    (plains given).Sublist (sourcesAsGiven given) := by
  induction given with
  | nil => exact List.Sublist.slnil
  | cons first rest ih =>
      rcases source_cases first with ⟨text, rfl⟩ | ⟨text, rfl⟩ | hnone
      · exact ih.cons text
      · exact ih.cons_cons text
      · rw [plains_cons_of_source?_eq_none hnone, sourcesAsGiven_cons_of_source?_eq_none hnone]
        exact ih

theorem sourcesOf_perm_sourcesAsGiven (given : List Given) :
    (sourcesOf given).Perm (sourcesAsGiven given) := by
  induction given with
  | nil => exact List.Perm.nil
  | cons first rest ih =>
      rcases source_cases first with ⟨text, rfl⟩ | ⟨text, rfl⟩ | hnone
      · exact ih.cons text
      · exact List.perm_middle.trans (ih.cons text)
      · rw [sourcesOf_cons_of_source?_eq_none hnone, sourcesAsGiven_cons_of_source?_eq_none hnone]
        exact ih

theorem sourcesOf_eq_sourcesAsGiven (hlast : HasPlainsLast given) :
    sourcesOf given = sourcesAsGiven given := by
  induction given with
  | nil => rfl
  | cons first rest ih =>
      have hrest := ih hlast.tail
      rcases source_cases first with ⟨text, rfl⟩ | ⟨text, rfl⟩ | hnone
      · rw [sourcesOf_cons_schema, sourcesAsGiven_cons_schema, hrest]
      · have hvalues := hlast [] text rest rfl
        rw [sourcesOf, hvalues, List.nil_append] at hrest
        rw [sourcesOf_cons_plain, hvalues, sourcesAsGiven_cons_plain, ← hrest, List.nil_append]
      · rw [sourcesOf_cons_of_source?_eq_none hnone, sourcesAsGiven_cons_of_source?_eq_none hnone,
          hrest]

/-- Sources that differ from one another stand in the order of the command line only if no value
of the option comes behind a plain argument. -/
theorem hasPlainsLast_of_eq (hnodup : (sourcesAsGiven given).Nodup)
    (hsame : sourcesOf given = sourcesAsGiven given) : HasPlainsLast given := by
  induction given with
  | nil =>
      intro before text after hsplit
      exact absurd hsplit (by simp)
  | cons first rest ih =>
      rcases source_cases first with ⟨text, rfl⟩ | ⟨text, rfl⟩ | hnone
      · rw [sourcesAsGiven_cons_schema, List.nodup_cons] at hnodup
        rw [sourcesOf_cons_schema, sourcesAsGiven_cons_schema, List.cons.injEq] at hsame
        exact hasPlainsLast_cons (ih hnodup.2 hsame.2) (by simp)
      · rw [sourcesAsGiven_cons_plain, List.nodup_cons] at hnodup
        rw [sourcesOf_cons_plain, sourcesAsGiven_cons_plain] at hsame
        -- A value that stands behind the plain argument would come first and be the same text.
        have hvalues : values .schema rest = [] := by
          cases hfound : values .schema rest with
          | nil => rfl
          | cons value more =>
              rw [hfound, List.cons_append, List.cons.injEq] at hsame
              have hmem : value ∈ values .schema rest := by
                rw [hfound]
                exact List.mem_cons_self
              have hlater := (values_sublist_sourcesAsGiven rest).subset hmem
              exact absurd (hsame.1 ▸ hlater) hnodup.1
        rw [hvalues, List.nil_append, List.cons.injEq] at hsame
        refine hasPlainsLast_cons (ih hnodup.2 ?_) fun _ _ => hvalues
        rw [sourcesOf, hvalues, List.nil_append, hsame.2]
      · rw [sourcesAsGiven_cons_of_source?_eq_none hnone] at hnodup
        rw [sourcesOf_cons_of_source?_eq_none hnone,
          sourcesAsGiven_cons_of_source?_eq_none hnone] at hsame
        refine hasPlainsLast_cons (ih hnodup hsame) ?_
        rintro text rfl
        contradiction

end CommandLine

/-! ## Definitions in the order of sources -/

namespace Sources

variable {around : Surroundings} {sources : List String} {schema : Schema}

/-- Sources with the documents that are read for them, in the same order. -/
def AreRead [Runtime] (around : Surroundings) (sources : List String)
    (found : List (List Sdl.Document)) : Prop :=
  List.Forall₂ (fun source documents => (Sources.documents around source).result = .ok documents)
    sources found

/-- The object types come in the order in which the documents of the sources first define them. -/
theorem names_objects_of_load [Runtime] (hload : (load around sources).result = .ok schema) :
    ∃ found, AreRead around sources found ∧
      schema.toGraph.objects.map (·.name) =
        ((found.flatten.flatten.filterMap Sdl.Definition.object?).eraseDups).filter
          (· ∉ Sdl.BuiltIn.typeNames) := by
  obtain ⟨document, hdefinitions, hagrees, hschema⟩ := load_eq_ok_iff.1 hload
  obtain ⟨found, hfound, rfl⟩ := Results.map_eq_ok_iff.1 hdefinitions
  have hof := Schema.ofDocument?_eq_some_iff.1 hschema
  refine ⟨found, Results.mapM_eq_ok_iff.1 hfound, ?_⟩
  rw [hof.names_objects, (agrees_marks_append_iff.2 hagrees).filterMap_object?_firsts]
  rfl

end Sources

namespace CommandLine

variable {files : FileSystem} {web : Web} {settings : Settings} {sources : List String}
  {graph : TypeGraph}

theorem exists_load_of_generation [Runtime]
    (hgraph : (Generation.load files web settings sources).result = .ok graph) :
    ∃ schema, (Sources.load { files, web, asking := { timeout := settings.fetchTimeout } }
      sources).result = .ok schema ∧ schema.toGraph = graph := by
  rw [Sources.result_loadStep] at hgraph
  cases hload : (Sources.load { files, web, asking := { timeout := settings.fetchTimeout } }
      sources).result with
  | error e =>
      rw [hload] at hgraph
      contradiction
  | ok schema =>
      rw [hload] at hgraph
      exact ⟨schema, rfl, Except.ok.inj hgraph⟩

/-- What a document defines comes in the order of the sources that it is made of. -/
theorem names_definitions_of_generation [Runtime]
    (hgraph : (Generation.load files web settings sources).result = .ok graph)
    {document : SchemaDocument} (hdocument : graph.document settings = .ok document) :
    ∃ found, Sources.AreRead { files, web, asking := { timeout := settings.fetchTimeout } } sources
        found ∧
      document.definitions.names =
        ((found.flatten.flatten.filterMap Sdl.Definition.object?).eraseDups).filter fun name =>
          name ∉ Sdl.BuiltIn.typeNames ∧ settings.rootType.isName name = false := by
  obtain ⟨schema, hload, rfl⟩ := exists_load_of_generation hgraph
  obtain ⟨found, hfound, hnames⟩ := Sources.names_objects_of_load hload
  obtain ⟨loaded, -, -, hschema⟩ := Sources.load_eq_ok_iff.1 hload
  have hof := Schema.ofDocument?_eq_some_iff.1 hschema
  have hnodup : (schema.toGraph.objects.map (·.name)).Nodup :=
    (Schema.nodup_names_toGraph hof.nodup_names_types).sublist (List.filter_sublist.map _)
  refine ⟨found, hfound, ?_⟩
  rw [TypeGraph.names_definitions_of_document hnodup hdocument, hnames, List.filter_filter]
  refine List.filter_congr fun name _ => ?_
  have hroot : TypeGraph.rootFor .null settings = settings.rootType := rfl
  rw [hroot, Bool.decide_and, Bool.and_comm]
  cases settings.rootType.isName name <;> rfl

theorem exists_given_of_meaning [Runtime] {arguments : List String} {invocation : Invocation}
    (hmeaning : meaning files arguments = .invoke invocation) :
    ∃ given, read? arguments = some given ∧ invocation.sources = sourcesOf given := by
  unfold meaning at hmeaning
  split at hmeaning
  · contradiction
  · next given hgiven =>
      refine ⟨given, hgiven, ?_⟩
      split at hmeaning
      · contradiction
      · split at hmeaning
        · rw [← Meaning.invoke.inj hmeaning]
          rfl
        · contradiction

/-- The loader gets the values of the option for sources and behind them the plain arguments, each
in the order in which they are read, so the definitions come in that order, too.  It is the order
of the command line if no value comes behind a plain argument, and for sources that differ from one
another only then. -/
theorem sources_follow_their_kinds [Runtime] (files : FileSystem) :
    (∀ arguments invocation, meaning files arguments = .invoke invocation →
      (∃ given, read? arguments = some given ∧
        invocation.sources = values .schema given ++ plains given ∧
        (values .schema given).Sublist (sourcesAsGiven given) ∧
        (plains given).Sublist (sourcesAsGiven given) ∧
        invocation.sources.Perm (sourcesAsGiven given) ∧
        (HasPlainsLast given → invocation.sources = sourcesAsGiven given) ∧
        ((sourcesAsGiven given).Nodup → invocation.sources = sourcesAsGiven given →
          HasPlainsLast given)) ∧
      ∀ web settings graph document,
        (Generation.load files web settings invocation.sources).result = .ok graph →
        graph.document settings = .ok document →
        ∃ found, Sources.AreRead { files, web, asking := { timeout := settings.fetchTimeout } }
            invocation.sources found ∧
          document.definitions.names =
            ((found.flatten.flatten.filterMap Sdl.Definition.object?).eraseDups).filter fun name =>
              name ∉ Sdl.BuiltIn.typeNames ∧ settings.rootType.isName name = false) ∧
      (∀ text, read? ["--schema", text] = some [.value .schema text] ∧
        read? ["--schema=" ++ text] = some [.value .schema text] ∧
        (isOption text = false → read? [text] = some [.plain text])) ∧
      ∀ arguments others given more, "--" ∉ arguments → read? arguments = some given →
        read? others = some more → read? (arguments ++ others) = some (given ++ more) := by
  refine ⟨?_, ?_, ?_⟩
  · intro arguments invocation hmeaning
    constructor
    · obtain ⟨given, hgiven, hsources⟩ := exists_given_of_meaning hmeaning
      refine ⟨given, hgiven, hsources, values_sublist_sourcesAsGiven given,
        plains_sublist_sourcesAsGiven given, ?_⟩
      rw [hsources]
      exact ⟨sourcesOf_perm_sourcesAsGiven given, sourcesOf_eq_sourcesAsGiven, hasPlainsLast_of_eq⟩
    · intro web settings graph document hgraph hdocument
      exact names_definitions_of_generation hgraph hdocument
  · intro text
    refine ⟨(read?_schema text).1, (read?_schema text).2, fun hplain => ?_⟩
    rw [read?_of_plain hplain]
    rfl
  · intro arguments others given more hoptions hread hothers
    exact read?_append hoptions hread hothers

/-- Arguments with three sources, the second of them behind the first option. -/
def mixedArguments : List String :=
  ["--schema", "type Query \x7b shelf: Shelf crate: Crate \x7d", "type Shelf \x7b size: Int \x7d",
    "--json", "schema.json", "--schema=type Crate \x7b size: Int \x7d"]

def mixedGiven : List Given :=
  [.value .schema "type Query \x7b shelf: Shelf crate: Crate \x7d",
    .plain "type Shelf \x7b size: Int \x7d", .value .json "schema.json",
    .value .schema "type Crate \x7b size: Int \x7d"]

def mixedSources : List String :=
  ["type Query \x7b shelf: Shelf crate: Crate \x7d", "type Crate \x7b size: Int \x7d",
    "type Shelf \x7b size: Int \x7d"]

def mixedInvocation : Invocation :=
  { sources := mixedSources, json := { root := "/", parts := ["schema.json"] } }

/-- The same with the plain argument last. -/
def sortedArguments : List String :=
  ["--schema", "type Query \x7b shelf: Shelf crate: Crate \x7d", "--json", "schema.json",
    "--schema=type Crate \x7b size: Int \x7d", "type Shelf \x7b size: Int \x7d"]

def sortedGiven : List Given :=
  [.value .schema "type Query \x7b shelf: Shelf crate: Crate \x7d", .value .json "schema.json",
    .value .schema "type Crate \x7b size: Int \x7d", .plain "type Shelf \x7b size: Int \x7d"]

section Usual

attribute [local instance] Runtime.usual

theorem exists_document_mixedSources :
    ∃ graph document,
      (Generation.load { root := .folder [] } (fun _ => .unreachable) {} mixedSources).result =
          .ok graph ∧
        graph.objects.map (·.name) = ["Query", "Crate", "Shelf"] ∧
        graph.document {} = .ok document := by
  have hloaded : ((Generation.load { root := .folder [] } (fun _ => .unreachable) {}
      mixedSources).result.toOption.any fun graph =>
        graph.objects.map (·.name) == ["Query", "Crate", "Shelf"] &&
          graph.types.all (fun type => type.label != "one of") &&
          graph.objects.all fun type => type.fields.all fun field =>
            !Sdl.BuiltIn.introspectionNames.contains field.type.base) = true := by decide +kernel
  cases hgraph : (Generation.load { root := .folder [] } (fun _ => .unreachable) {}
      mixedSources).result with
  | error e =>
      rw [hgraph] at hloaded
      contradiction
  | ok graph =>
      obtain ⟨schema, hload, rfl⟩ := exists_load_of_generation hgraph
      obtain ⟨loaded, hschema⟩ := Sources.exists_document_of_load hload
      have hof := Schema.ofDocument?_eq_some_iff.1 hschema
      simp only [hgraph, Except.toOption, Option.any_some, Bool.and_eq_true, beq_iff_eq,
        List.all_eq_true] at hloaded
      obtain ⟨⟨hnames, hunions⟩, hfields⟩ := hloaded
      have hbuilt : ∃ built, schema.toGraph.objectProperties false = .ok built := by
        rcases Schema.objectProperties_outcome hof.isWellKinded false with
          ⟨hbuilt, -⟩ | ⟨-, hfull⟩ | ⟨⟨type, htype, field, hfield, other, hother, hmeets⟩, -⟩
        · exact hbuilt
        · exact absurd (Runtime.hasRoomFor_usual (by decide)) hfull
        · have hplain := hfields type htype field hfield
          rw [Bool.not_eq_true', ← Bool.not_eq_true, List.contains_iff_mem] at hplain
          rcases hmeets with rfl | ⟨union, members, hunion, hshape, -⟩
          · exact absurd hother hplain
          · have hlabel := hunions union (Schema.mem_types_of_get? hunion)
            simp [TypeDef.label, hshape] at hlabel
      have hroot : "Query" ∈ schema.toGraph.objects.map (·.name) := by
        rw [hnames]
        exact List.mem_cons_self
      obtain ⟨type, htype, hname⟩ := List.mem_map.1 hroot
      have hhas : schema.toGraph.hasRoot (.str "Query") = true :=
        List.any_eq_true.2 ⟨type, htype, TypeGraph.isName_str_iff.2 hname⟩
      obtain ⟨document, hdocument⟩ : ∃ document, schema.toGraph.document {} = .ok document :=
        TypeGraph.exists_document_iff.2 ⟨hbuilt, .inl hhas⟩
      exact ⟨_, document, rfl, hnames, hdocument⟩

theorem sortedArguments_keep_order :
    meaning { root := .folder [] } sortedArguments = .invoke mixedInvocation ∧
      read? sortedArguments = some sortedGiven ∧ HasPlainsLast sortedGiven ∧
      (sourcesAsGiven sortedGiven).Nodup ∧
      mixedInvocation.sources = sourcesAsGiven sortedGiven ∧
      (∃ graph document,
        (Generation.load { root := .folder [] } (fun _ => .unreachable) {}
          mixedInvocation.sources).result = .ok graph ∧
          graph.document {} = .ok document ∧ document.definitions.names = ["Crate", "Shelf"]) ∧
      read? ["type Shelf \x7b size: Int \x7d"] = some [.plain "type Shelf \x7b size: Int \x7d"] ∧
      read? (["--json", "schema.json"] ++ ["type Shelf \x7b size: Int \x7d"]) =
        some ([.value .json "schema.json"] ++ [.plain "type Shelf \x7b size: Int \x7d"]) := by
  have hmeaning : meaning { root := .folder [] } sortedArguments = .invoke mixedInvocation := by
    decide +kernel
  have hsorted : read? sortedArguments = some sortedGiven := by decide +kernel
  have hnodup : (sourcesAsGiven sortedGiven).Nodup := by decide +kernel
  have hjson : read? ["--json", "schema.json"] = some [.value .json "schema.json"] := by
    decide +kernel
  have hdefines : mixedSources.map (fun source =>
      (Sources.documents
        { files := { root := .folder [] }, web := fun _ => .unreachable
          asking := { timeout := ({} : Settings).fetchTimeout } } source).result.toOption.map
            fun found => found.flatten.filterMap Sdl.Definition.object?) =
      [some ["Query"], some ["Crate"], some ["Shelf"]] := by decide +kernel
  obtain ⟨hinvoked, hread, happend⟩ := sources_follow_their_kinds { root := .folder [] }
  obtain ⟨⟨given, hgiven, -, -, -, -, hkept, honly⟩, hordered⟩ := hinvoked _ _ hmeaning
  obtain rfl : given = sortedGiven := Option.some.inj (hgiven.symm.trans hsorted)
  have hsame : mixedInvocation.sources = sourcesAsGiven sortedGiven := by decide +kernel
  have hlast := honly hnodup hsame
  have hplain := (hread "type Shelf \x7b size: Int \x7d").2.2 (by decide +kernel)
  refine ⟨hmeaning, hsorted, hlast, hnodup, hkept hlast, ?_, hplain,
    happend _ _ _ _ (by decide) hjson hplain⟩
  obtain ⟨graph, document, hgraph, -, hdocument⟩ := exists_document_mixedSources
  obtain ⟨found, hfound, hnames⟩ := hordered _ _ _ _ hgraph hdocument
  refine ⟨graph, document, hgraph, hdocument, ?_⟩
  obtain ⟨query, _, hquery, hthree, rfl⟩ := List.forall₂_cons_left_iff.1 hfound
  obtain ⟨crate, _, hcrate, htwo, rfl⟩ := List.forall₂_cons_left_iff.1 hthree
  obtain ⟨shelf, _, hshelf, hone, rfl⟩ := List.forall₂_cons_left_iff.1 htwo
  obtain rfl := List.forall₂_nil_left_iff.1 hone
  simp only [mixedSources, List.map_cons, List.map_nil, hquery, hcrate, hshelf, Except.toOption,
    Option.map_some, List.cons.injEq, Option.some.injEq, and_true] at hdefines
  obtain ⟨hquery, hcrate, hshelf⟩ := hdefines
  rw [hnames, List.flatten_cons, List.flatten_cons, List.flatten_cons, List.flatten_nil,
    List.append_nil, List.flatten_append, List.flatten_append, List.filterMap_append,
    List.filterMap_append, hquery, hcrate, hshelf]
  decide +kernel

theorem mixedArguments_change_order :
    meaning { root := .folder [] } mixedArguments = .invoke mixedInvocation ∧
      read? mixedArguments = some mixedGiven ∧
      mixedInvocation.sources ≠ sourcesAsGiven mixedGiven ∧
      ∃ graph document,
        (Generation.load { root := .folder [] } (fun _ => .unreachable) {}
          mixedInvocation.sources).result = .ok graph ∧
          graph.document {} = .ok document ∧ document.definitions.names = ["Crate", "Shelf"] := by
  refine ⟨by decide +kernel, by decide +kernel, by decide +kernel, ?_⟩
  obtain ⟨graph, document, hgraph, hobjects, hdocument⟩ := exists_document_mixedSources
  obtain ⟨schema, hload, rfl⟩ := exists_load_of_generation hgraph
  obtain ⟨loaded, hschema⟩ := Sources.exists_document_of_load hload
  have hnodup : (schema.toGraph.objects.map (·.name)).Nodup := by
    rw [hobjects]
    decide
  refine ⟨_, document, hgraph, hdocument, ?_⟩
  rw [TypeGraph.names_definitions_of_document hnodup hdocument, hobjects]
  decide +kernel

end Usual

end CommandLine

end ConfigSchema
