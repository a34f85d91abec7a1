import ConfigSchema.Generation.Output
import ConfigSchema.Proofs.AtomicWrites
import ConfigSchema.Proofs.Results

/-!
# Runs of a generation

A run makes all its artifacts before it writes the first of them, so a failure to make one leaves
the files as they are.  Then the document, the type declarations and the fragments are written in
this order up to the first that cannot be written: what is behind it is not touched, and what is
in front of it stays.  Of the one that cannot be written a temporary file may stay, if the medium
refuses to take it away.
-/

namespace ConfigSchema

/-- The order that a planned file gives. -/
def PlannedFile.order (file : PlannedFile) : WriteOrder :=
  { path := file.path, content := file.content,
    format := if file.isChecked then "json" else "text" }

@[simp] theorem PlannedFile.path_order (file : PlannedFile) : file.order.path = file.path := rfl

@[simp] theorem PlannedFile.isChecked_order (file : PlannedFile) :
    file.order.isChecked = file.isChecked := by
  cases hchecked : file.isChecked <;> simp [WriteOrder.isChecked, PlannedFile.order, hchecked]

namespace Generation

variable {medium : Medium} {tools : Toolbox} {files : FileSystem} {graph : TypeGraph}
  {settings : Settings} {targets : Targets} {file : PlannedFile}
  {done rest planned : List PlannedFile} {text : String}

/-! ## What the phases make -/

/-- The graph has a document, and this is its text. -/
def HasText [Runtime] (graph : TypeGraph) (settings : Settings) (text : String) : Prop :=
  ∃ document style, graph.document settings = .ok document ∧
    Json.Indentation.ofJson settings.indent = .ok style ∧ document.text style = .ok text

/-- If there is a place for fragments, there is room to make them and all documented types have
one. -/
def HasDocs [Runtime] (graph : TypeGraph) (targets : Targets) : Prop :=
  targets.docs ≠ none → Runtime.hasRoom [.render] = true ∧
    ∀ type ∈ graph.documented, ∃ content, graph.fragmentOf type [.render] = .ok content

/-- The phases of a generation fail in order: one can fail only where those before it succeed. -/
inductive PhaseFails [Runtime] (tools : Toolbox) (graph : TypeGraph) (settings : Settings)
    (targets : Targets) : GenerationError → Prop
  | document {e : DocumentError} (hdocument : graph.document settings = .error e) :
      PhaseFails tools graph settings targets (.document e)
  | indentation {document : SchemaDocument} {e : Json.Unindentable}
      (hdocument : graph.document settings = .ok document)
      (hstyle : Json.Indentation.ofJson settings.indent = .error e) :
      PhaseFails tools graph settings targets (.indentation e)
  | unwritten {document : SchemaDocument} {style : Json.Indentation} {limit : Json.Limit}
      (hdocument : graph.document settings = .ok document)
      (hstyle : Json.Indentation.ofJson settings.indent = .ok style)
      (hlimit : document.text style = .error limit) :
      PhaseFails tools graph settings targets (.beyond limit)
  | roomless {text : String} (htext : HasText graph settings text) (hasked : targets.docs ≠ none)
      (hfull : Runtime.hasRoom [.render] = false) :
      PhaseFails tools graph settings targets (.docs .tooDeep)
  | docs {text : String} {before after : List TypeDef} {type : TypeDef} {e : GraphError}
      (htext : HasText graph settings text) (hasked : targets.docs ≠ none)
      (hroom : Runtime.hasRoom [.render] = true)
      (htypes : graph.documented = before ++ type :: after)
      (hbefore : ∀ earlier ∈ before, ∃ content,
        graph.fragmentOf earlier [.render] = .ok content)
      (hfragment : graph.fragmentOf type [.render] = .error e) :
      PhaseFails tools graph settings targets (.docs e)
  | commandless {text : String} (htext : HasText graph settings text)
      (hdocs : HasDocs graph targets) (hasked : targets.typings ≠ none)
      (hcommand : settings.typingsCommand = none) :
      PhaseFails tools graph settings targets (.settings .commandless)
  | typings {text : String} {command : Json} {e : TypingsError}
      (htext : HasText graph settings text) (hdocs : HasDocs graph targets)
      (hasked : targets.typings ≠ none) (hcommand : settings.typingsCommand = some command)
      (hcompile : Typings.compile tools command Typings.defaultTimeout text = .error e) :
      PhaseFails tools graph settings targets (.typings e)

/-- Where the fragment of a type goes. -/
def fragmentPath [Runtime] (settings : Settings) (folder : Path) (type : TypeDef) : Path :=
  folder.join (Path.ofText (type.name ++ settings.markdownSuffix.display))

def PlansTypings [Runtime] (tools : Toolbox) (settings : Settings) (text : String) :
    Option Path → List PlannedFile → Prop
  | none, planned => planned = []
  | some path, planned =>
      ∃ command content, settings.typingsCommand = some command ∧
        Typings.compile tools command Typings.defaultTimeout text = .ok content ∧
        planned = [{ path, content }]

def PlansDocs [Runtime] (graph : TypeGraph) (settings : Settings) :
    Option Path → List PlannedFile → Prop
  | none, planned => planned = []
  | some folder, planned =>
      List.Forall₂ (fun type file => ∃ content,
        graph.fragmentOf type [.render] = .ok content ∧
        file = { path := fragmentPath settings folder type, content }) graph.documented planned

/-- The files of a generation: first the document and the type declarations, then the
fragments. -/
structure IsPlan [Runtime] (tools : Toolbox) (graph : TypeGraph) (settings : Settings)
    (targets : Targets) (first fragments : List PlannedFile) : Prop where
  first : ∃ text typings, HasText graph settings text ∧
    PlansTypings tools settings text targets.typings typings ∧
    first = { path := targets.json, content := text, isChecked := true } :: typings
  fragments : PlansDocs graph settings targets.docs fragments

theorem documentStep_of_error [Runtime] {e : DocumentError}
    (hdocument : graph.document settings = .error e) :
    (documentStep graph settings).result = .error (.document e) := by
  unfold documentStep
  rw [hdocument, Traced.result_bind]
  rfl

theorem documentStep_of_unindentable [Runtime] {document : SchemaDocument} {e : Json.Unindentable}
    (hdocument : graph.document settings = .ok document)
    (hstyle : Json.Indentation.ofJson settings.indent = .error e) :
    (documentStep graph settings).result = .error (.indentation e) := by
  unfold documentStep
  rw [hdocument, hstyle, Traced.result_bind]
  rfl

theorem documentStep_of_style [Runtime] {document : SchemaDocument} {style : Json.Indentation}
    (hdocument : graph.document settings = .ok document)
    (hstyle : Json.Indentation.ofJson settings.indent = .ok style) :
    (documentStep graph settings).result =
      ((document.text style).mapError GenerationError.beyond).map fun text => (document, text) := by
  unfold documentStep
  rw [hdocument, hstyle, Traced.result_bind]
  change Traced.result (Traced.leave _ >>= fun _ => _) = _
  rw [Traced.result_bind]
  change Traced.result (((document.text style).mapError GenerationError.beyond : Generating String)
    >>= fun text => pure (document, text)) = _
  cases document.text style <;> rfl

theorem documentStep_of_unwritten [Runtime] {document : SchemaDocument} {style : Json.Indentation}
    {limit : Json.Limit} (hdocument : graph.document settings = .ok document)
    (hstyle : Json.Indentation.ofJson settings.indent = .ok style)
    (hlimit : document.text style = .error limit) :
    (documentStep graph settings).result = .error (.beyond limit) := by
  rw [documentStep_of_style hdocument hstyle, hlimit]
  rfl

theorem documentStep_of_hasText [Runtime] (htext : HasText graph settings text) :
    ∃ document, (documentStep graph settings).result = .ok (document, text) := by
  rcases htext with ⟨document, style, hdocument, hstyle, hwritten⟩
  refine ⟨document, ?_⟩
  rw [documentStep_of_style hdocument hstyle, hwritten]
  rfl

theorem docsStep_result [Runtime] (graph : TypeGraph) (settings : Settings) :
    (docsStep graph settings).result =
      (graph.fragments settings).mapError GenerationError.docs := by
  unfold docsStep
  rw [Traced.result_bind]
  cases hfragments : graph.fragments settings <;> rfl

theorem typingsStep_of_command [Runtime] {command : Json}
    (hcommand : settings.typingsCommand = some command) (text : String) :
    (typingsStep tools settings text).result =
      (Typings.compile tools command Typings.defaultTimeout text).mapError .typings := by
  unfold typingsStep
  rw [hcommand]
  dsimp only
  rw [Traced.result_bind]
  rfl

/-- The fragments of a generation that is asked for them or not. -/
def fragmentsFor [Runtime] (graph : TypeGraph) (settings : Settings) (demand : Demand) :
    Except GenerationError (List Fragment) :=
  if demand.docs then (graph.fragments settings).mapError .docs else .ok []

def typingsFor [Runtime] (tools : Toolbox) (settings : Settings) (demand : Demand) (text : String) :
    Except GenerationError (Option String) :=
  if demand.typings then (typingsStep tools settings text).result.map some else .ok none

theorem generate_of_error [Runtime] {demand : Demand} {e : GenerationError}
    (herror : (documentStep graph settings).result = .error e) :
    (generate tools graph settings demand).result = .error e := by
  unfold generate
  rw [Traced.result_bind, herror]
  rfl

theorem generate_of_document [Runtime] {demand : Demand} {document : SchemaDocument}
    (hok : (documentStep graph settings).result = .ok (document, text)) :
    (generate tools graph settings demand).result =
      (fragmentsFor graph settings demand).bind fun fragments =>
        (typingsFor tools settings demand text).map fun typings =>
          { document, text, fragments, typings } := by
  have hcontinue (fragments : List Fragment) :
      (if demand.typings = true then do
          let typings ← (do return some (← typingsStep tools settings text))
          return { document, text, fragments, typings }
        else do
          let typings ← pure none
          return { document, text, fragments, typings } : Generating Artifacts).result =
        (typingsFor tools settings demand text).map fun typings =>
          { document, text, fragments, typings } := by
    unfold typingsFor
    split
    · rw [Traced.result_bind, Traced.result_bind]
      cases (typingsStep tools settings text).result <;> rfl
    · rfl
  unfold generate
  rw [Traced.result_bind, hok]
  unfold fragmentsFor
  cases demand.docs with
  | false => exact hcontinue []
  | true =>
      change Traced.result (docsStep graph settings >>= _) = _
      rw [Traced.result_bind, docsStep_result]
      cases (graph.fragments settings).mapError GenerationError.docs with
      | error e => rfl
      | ok fragments => exact hcontinue fragments

/-- The files that fragments go to. -/
def fragmentFiles (targets : Targets) (fragments : List Fragment) : List PlannedFile :=
  (targets.docs.map fun folder => fragments.map fun fragment =>
    { path := folder.join (Path.ofText fragment.file), content := fragment.content }).getD []

theorem fragments_eq_error_iff [Runtime] {e : GraphError} :
    graph.fragments settings = .error e ↔
      Runtime.hasRoom [.render] = false ∧ e = .tooDeep ∨
      Runtime.hasRoom [.render] = true ∧
        ∃ before type after, graph.documented = before ++ type :: after ∧
          (∀ earlier ∈ before, ∃ content, graph.fragmentOf earlier [.render] = .ok content) ∧
          graph.fragmentOf type [.render] = .error e := by
  unfold TypeGraph.fragments
  rw [TypeGraph.inRoom_eq_error_iff, Results.mapM_eq_error_iff]
  have hok (type : TypeDef) (toFragment : String → Fragment) :
      (∃ fragment, (graph.fragmentOf type [.render]).map toFragment = .ok fragment) ↔
        ∃ content, graph.fragmentOf type [.render] = .ok content := by
    cases graph.fragmentOf type [.render] <;> simp [Except.map]
  simp only [hok, Results.map_eq_error_iff]

theorem plansDocs_of_fragments [Runtime] {folder : Path} {fragments : List Fragment}
    (hfragments : graph.fragments settings = .ok fragments) :
    PlansDocs graph settings (some folder)
      (fragments.map fun fragment =>
        { path := folder.join (Path.ofText fragment.file), content := fragment.content }) := by
  have hall := Results.mapM_eq_ok_iff.1 (TypeGraph.inRoom_eq_ok_iff.1 hfragments).2
  rw [PlansDocs, List.forall₂_map_right_iff]
  apply hall.imp
  intro type fragment hfragment
  rcases Results.map_eq_ok_iff.1 hfragment with ⟨content, hcontent, rfl⟩
  exact ⟨content, hcontent, rfl⟩

/-- The fragments that are asked for are there, or the first that is not fails the phase. -/
theorem fragmentsFor_cases [Runtime] (graph : TypeGraph) (settings : Settings) (targets : Targets) :
    (∃ fragments, fragmentsFor graph settings targets.demand = .ok fragments ∧
        HasDocs graph targets ∧
        PlansDocs graph settings targets.docs (fragmentFiles targets fragments)) ∨
      ∃ e, fragmentsFor graph settings targets.demand = .error (.docs e) ∧
        targets.docs ≠ none ∧ graph.fragments settings = .error e := by
  unfold fragmentsFor Targets.demand fragmentFiles
  cases hdocs : targets.docs with
  | none => exact .inl ⟨[], rfl, fun hasked => absurd hdocs hasked, rfl⟩
  | some folder =>
      cases hfragments : graph.fragments settings with
      | error e => exact .inr ⟨e, rfl, by simp, rfl⟩
      | ok fragments =>
          refine .inl ⟨fragments, rfl, ?_, plansDocs_of_fragments hfragments⟩
          intro _
          rcases TypeGraph.inRoom_eq_ok_iff.1 hfragments with ⟨hroom, hall⟩
          refine ⟨hroom, fun type htype => ?_⟩
          rcases Results.exists_right_of_forall₂ (Results.mapM_eq_ok_iff.1 hall) htype with
            ⟨fragment, -, hfragment⟩
          rcases Results.map_eq_ok_iff.1 hfragment with ⟨content, hcontent, -⟩
          exact ⟨content, hcontent⟩

theorem fragmentsFor_of_hasDocs [Runtime] (hdocs : HasDocs graph targets) :
    ∃ fragments, fragmentsFor graph settings targets.demand = .ok fragments := by
  rcases fragmentsFor_cases graph settings targets with ⟨fragments, hok, -⟩ | ⟨e, -, hasked, herror⟩
  · exact ⟨fragments, hok⟩
  · rcases hdocs hasked with ⟨hroom, hall⟩
    rcases fragments_eq_error_iff.1 herror with
      ⟨hfull, -⟩ | ⟨-, before, type, after, htypes, -, hfails⟩
    · rw [hroom] at hfull
      contradiction
    · rcases hall type (by simp [htypes]) with ⟨content, hcontent⟩
      rw [hcontent] at hfails
      contradiction

/-- The file that type declarations go to. -/
def typingsFiles (targets : Targets) (typings : Option String) : List PlannedFile :=
  (targets.typings.bind fun path => typings.map fun content =>
    ({ path, content } : PlannedFile)).toList

theorem typingsFor_cases [Runtime] (hdocs : HasDocs graph targets)
    (htext : HasText graph settings text) :
    (∃ typings, typingsFor tools settings targets.demand text = .ok typings ∧
        PlansTypings tools settings text targets.typings (typingsFiles targets typings)) ∨
      ∃ e, PhaseFails tools graph settings targets e := by
  unfold typingsFor Targets.demand typingsFiles
  cases htypings : targets.typings with
  | none => exact .inl ⟨none, rfl, rfl⟩
  | some path =>
      have hasked : targets.typings ≠ none := by simp [htypings]
      cases hcommand : settings.typingsCommand with
      | none => exact .inr ⟨_, .commandless htext hdocs hasked hcommand⟩
      | some command =>
          cases hcompile : Typings.compile tools command Typings.defaultTimeout text with
          | error e => exact .inr ⟨_, .typings htext hdocs hasked hcommand hcompile⟩
          | ok content =>
              refine .inl ⟨some content, ?_, command, content, hcommand, hcompile, rfl⟩
              rw [typingsStep_of_command hcommand, hcompile]
              rfl

/-- A phase that fails is what the generation ends in. -/
theorem generate_of_phaseFails [Runtime] {e : GenerationError}
    (hfails : PhaseFails tools graph settings targets e) :
    (generate tools graph settings targets.demand).result = .error e := by
  cases hfails with
  | document hdocument => exact generate_of_error (documentStep_of_error hdocument)
  | indentation hdocument hstyle =>
      exact generate_of_error (documentStep_of_unindentable hdocument hstyle)
  | unwritten hdocument hstyle hlimit =>
      exact generate_of_error (documentStep_of_unwritten hdocument hstyle hlimit)
  | roomless htext hasked hfull =>
      rcases documentStep_of_hasText htext with ⟨document, hok⟩
      have herror : graph.fragments settings = .error .tooDeep :=
        fragments_eq_error_iff.2 (.inl ⟨hfull, rfl⟩)
      have hasked : targets.demand.docs = true := Option.isSome_iff_ne_none.2 hasked
      rw [generate_of_document hok, fragmentsFor, if_pos hasked, herror]
      rfl
  | docs htext hasked hroom htypes hbefore hfragment =>
      rcases documentStep_of_hasText htext with ⟨document, hok⟩
      have herror : graph.fragments settings = .error _ :=
        fragments_eq_error_iff.2 (.inr ⟨hroom, _, _, _, htypes, hbefore, hfragment⟩)
      have hasked : targets.demand.docs = true := Option.isSome_iff_ne_none.2 hasked
      rw [generate_of_document hok, fragmentsFor, if_pos hasked, herror]
      rfl
  | commandless htext hdocs hasked hcommand =>
      rcases documentStep_of_hasText htext with ⟨document, hok⟩
      rcases fragmentsFor_of_hasDocs hdocs with ⟨fragments, hfragments⟩
      have hasked : targets.demand.typings = true := Option.isSome_iff_ne_none.2 hasked
      rw [generate_of_document hok, hfragments, typingsFor, if_pos hasked, typingsStep, hcommand]
      rfl
  | typings htext hdocs hasked hcommand hcompile =>
      rcases documentStep_of_hasText htext with ⟨document, hok⟩
      rcases fragmentsFor_of_hasDocs hdocs with ⟨fragments, hfragments⟩
      have hasked : targets.demand.typings = true := Option.isSome_iff_ne_none.2 hasked
      rw [generate_of_document hok, hfragments, typingsFor, if_pos hasked,
        typingsStep_of_command hcommand, hcompile]
      rfl

theorem generate_cases_of_hasText [Runtime] (tools : Toolbox) (targets : Targets)
    (htext : HasText graph settings text) :
    (∃ e, PhaseFails tools graph settings targets e) ∨
      ∃ artifacts first fragments,
        (generate tools graph settings targets.demand).result = .ok artifacts ∧
        IsPlan tools graph settings targets first fragments ∧
        plan targets artifacts = first ++ fragments := by
  rcases documentStep_of_hasText htext with ⟨made, hok⟩
  rcases fragmentsFor_cases graph settings targets with
    ⟨fragments, hfragments, hdocs, hfiles⟩ | ⟨e, -, hasked, herror⟩
  · rcases typingsFor_cases hdocs htext with ⟨typings, htypings, hfile⟩ | hfails
    · refine .inr ⟨{ document := made, text, fragments, typings }, _, _, ?_,
        ⟨⟨_, _, htext, hfile, rfl⟩, hfiles⟩, rfl⟩
      rw [generate_of_document hok, hfragments]
      change Except.map _ (typingsFor tools settings targets.demand _) = _
      rw [htypings]
      rfl
    · exact .inl hfails
  · rcases fragments_eq_error_iff.1 herror with
      ⟨hfull, rfl⟩ | ⟨hroom, before, type, after, htypes, hbefore, hfragment⟩
    · exact .inl ⟨_, .roomless htext hasked hfull⟩
    · exact .inl ⟨_, .docs htext hasked hroom htypes hbefore hfragment⟩

/-- A generation makes the files of a plan unless one of its phases fails. -/
theorem generate_cases [Runtime] (tools : Toolbox) (graph : TypeGraph) (settings : Settings)
    (targets : Targets) :
    (∃ e, PhaseFails tools graph settings targets e) ∨
      ∃ artifacts first fragments,
        (generate tools graph settings targets.demand).result = .ok artifacts ∧
        IsPlan tools graph settings targets first fragments ∧
        plan targets artifacts = first ++ fragments := by
  cases hdocument : graph.document settings with
  | error e => exact .inl ⟨_, .document hdocument⟩
  | ok document =>
      cases hstyle : Json.Indentation.ofJson settings.indent with
      | error e => exact .inl ⟨_, .indentation hdocument hstyle⟩
      | ok style =>
          cases hwritten : document.text style with
          | error limit => exact .inl ⟨_, .unwritten hdocument hstyle hwritten⟩
          | ok text =>
              exact generate_cases_of_hasText tools targets
                ⟨document, style, hdocument, hstyle, hwritten⟩

/-! ## What the writes leave -/

/-- The files after planned ones have been written. -/
def written [Runtime] (medium : Medium) (files : FileSystem) (planned : List PlannedFile) :
    FileSystem :=
  Files.performAll files (planned.map fun file => (medium, file.order))

/-- The last of planned files that go to a location. -/
def lastAt (files : FileSystem) (planned : List PlannedFile) (location : Location) :
    Option PlannedFile :=
  (planned.filter fun file => files.placeOf file.path = location).getLast?

/-- A run writes files up to the first that cannot be written. -/
structure WritesFront [Runtime] {α : Type} (medium : Medium) (files : FileSystem)
    (done rest : List PlannedFile) (run : Run α) : Prop where
  succeed : ∀ front file later, done = front ++ file :: later →
    (Files.perform medium (written medium files front) file.order).2 = none
  complete : rest = [] → (∃ made, run.result = .ok made) ∧ run.files = written medium files done
  stopped : ∀ failing later, rest = failing :: later →
    ∃ e, run.result = .error (.writing e) ∧
      Files.perform medium (written medium files done) failing.order = (run.files, some e)

@[simp] theorem written_nil [Runtime] : written medium files [] = files := rfl

@[simp] theorem written_cons [Runtime] :
    written medium files (file :: rest) =
      written medium (Files.perform medium files file.order).1 rest := rfl

theorem written_concat [Runtime] :
    written medium files (done ++ [file]) =
      (Files.perform medium (written medium files done) file.order).1 := by
  rw [written, Files.performAll, List.map_append, List.foldl_append]
  rfl

theorem perform_order [Runtime] (medium : Medium) (files : FileSystem) (file : PlannedFile) :
    Files.perform medium files file.order =
      Files.write medium files file.path file.content file.isChecked := by
  rw [Files.perform, PlannedFile.isChecked_order]
  rfl

theorem writeAll_of_error [Runtime] {after : FileSystem} {e : WriteError}
    (hfails : Files.perform medium files file.order = (after, some e)) :
    (writeAll medium files (file :: rest)).files = after ∧
      (writeAll medium files (file :: rest)).result = .error (.writing e) := by
  rw [perform_order] at hfails
  rw [writeAll, hfails]
  exact ⟨rfl, rfl⟩

theorem writeAll_of_ok [Runtime] {after : FileSystem}
    (hwrites : Files.perform medium files file.order = (after, none)) :
    (writeAll medium files (file :: rest)).files = (writeAll medium after rest).files ∧
      (writeAll medium files (file :: rest)).result = (writeAll medium after rest).result := by
  rw [perform_order] at hwrites
  rw [writeAll, hwrites]
  exact ⟨rfl, rfl⟩

theorem writeAll_writesFront [Runtime] (medium : Medium) (files : FileSystem)
    (planned : List PlannedFile) :
    ∃ done rest, planned = done ++ rest ∧
      WritesFront medium files done rest (writeAll medium files planned) := by
  induction planned generalizing files with
  | nil =>
      refine ⟨[], [], rfl, by simp, ?_, by simp⟩
      intro _
      exact ⟨⟨(), rfl⟩, rfl⟩
  | cons file planned ih =>
      cases houtcome : Files.perform medium files file.order with
      | mk after failure =>
          cases failure with
          | some e =>
              rcases writeAll_of_error houtcome with ⟨hfiles, hresult⟩
              refine ⟨[], file :: planned, rfl, by simp, by simp, ?_⟩
              intro failing later hrest
              rcases List.cons.inj hrest with ⟨rfl, -⟩
              refine ⟨e, hresult, ?_⟩
              rw [hfiles]
              exact houtcome
          | none =>
              rcases ih after with ⟨done, rest, hplanned, hfront⟩
              rcases writeAll_of_ok houtcome with ⟨hfiles, hresult⟩
              have hafter : (Files.perform medium files file.order).1 = after := by rw [houtcome]
              refine ⟨file :: done, rest, by rw [hplanned]; rfl, ?_, ?_, ?_⟩
              · intro front next later hdone
                cases front with
                | nil =>
                    rcases List.cons.inj hdone with ⟨rfl, -⟩
                    rw [written_nil, houtcome]
                | cons first front =>
                    rcases List.cons.inj hdone with ⟨rfl, hlater⟩
                    rw [written_cons, hafter]
                    exact hfront.succeed front next later hlater
              · rw [hresult, hfiles, written_cons, hafter]
                exact hfront.complete
              · rw [hresult, hfiles, written_cons, hafter]
                exact hfront.stopped

theorem here_written [Runtime] (medium : Medium) (files : FileSystem) (planned : List PlannedFile) :
    (written medium files planned).here = files.here := by
  induction planned generalizing files with
  | nil => rfl
  | cons file rest ih => rw [written_cons, ih, Files.here_perform]

theorem placeOf_written [Runtime] (medium : Medium) (files : FileSystem)
    (planned : List PlannedFile)
    (path : Path) : (written medium files planned).placeOf path = files.placeOf path := by
  unfold FileSystem.placeOf FileSystem.start
  rw [here_written]

theorem lastAt_concat (files : FileSystem) (done : List PlannedFile) (file : PlannedFile)
    (location : Location) :
    lastAt files (done ++ [file]) location =
      if files.placeOf file.path = location then some file else lastAt files done location := by
  unfold lastAt
  rw [List.filter_append]
  by_cases hplace : files.placeOf file.path = location <;> simp [hplace]

/-- Writes that succeed leave at every location the content of the last that goes there. -/
theorem contentAt_written [Runtime]
    (hsucceed : ∀ front file later, done = front ++ file :: later →
      (Files.perform medium (written medium files front) file.order).2 = none)
    (location : Location) :
    (written medium files done).contentAt location =
      ((lastAt files done location).map fun file => file.content.toUTF8).or
        (files.contentAt location) := by
  induction done using List.reverseRecOn with
  | nil => rfl
  | append_singleton done file ih =>
      have hfront := ih fun front earlier later hdone =>
        hsucceed front earlier (later ++ [file]) (by rw [hdone]; simp)
      have hnone := hsucceed done file [] rfl
      rw [written_concat, lastAt_concat]
      rcases Files.perform_leaves medium (written medium files done) file.order location with
        ⟨-, hplace, hsight⟩ | ⟨hnot, hkeeps | ⟨hsome, -⟩⟩
      · rw [placeOf_written, PlannedFile.path_order] at hplace
        rw [if_pos hplace, FileSystem.contentAt_eq_some_iff.2 hsight]
        rfl
      · rw [placeOf_written, PlannedFile.path_order] at hnot
        rw [if_neg fun hplace => hnot ⟨hnone, hplace⟩, hkeeps.contentAt, hfront]
      · exact absurd hnone hsome

theorem lastAt_of_nodup (hplaces : (planned.map fun file => files.placeOf file.path).Nodup)
    (hfile : file ∈ planned) : lastAt files planned (files.placeOf file.path) = some file := by
  have hmem : file ∈ planned.filter fun other =>
      files.placeOf other.path = files.placeOf file.path := by
    simp [hfile]
  cases hlast : lastAt files planned (files.placeOf file.path) with
  | none =>
      rw [List.getLast?_eq_none_iff.1 hlast] at hmem
      contradiction
  | some last =>
      rcases List.mem_filter.1 (List.mem_of_getLast? hlast) with ⟨hlast, hplace⟩
      rw [decide_eq_true_iff] at hplace
      rw [List.inj_on_of_nodup_map hplaces hlast hfile hplace]

theorem lastAt_eq_none {location : Location}
    (hnone : ∀ file ∈ planned, files.placeOf file.path ≠ location) :
    lastAt files planned location = none := by
  unfold lastAt
  rw [List.getLast?_eq_none_iff, List.filter_eq_nil_iff]
  simpa using hnone

/-! ## Where fragments go -/

/-- Documented types have different names that are names of the language, and the suffix of their
files leads into no folder. -/
structure HasPlainNames [Runtime] (graph : TypeGraph) (settings : Settings) : Prop where
  nodup : (graph.documented.map (·.name)).Nodup
  isName : ∀ type ∈ graph.documented, Introspection.isName type.name = true
  suffix : '/' ∉ settings.markdownSuffix.display.toList

/-- The name of the file of a type is no way to another folder. -/
theorem fileName_spec [Runtime] (hnames : HasPlainNames graph settings) {type : TypeDef}
    (htype : type ∈ graph.documented) :
    '/' ∉ (type.name ++ settings.markdownSuffix.display).toList ∧
      Path.isPart (type.name ++ settings.markdownSuffix.display) = true ∧
      type.name ++ settings.markdownSuffix.display ≠ ".." := by
  have hname := hnames.isName type htype
  have hslash := Introspection.notMem_of_isName hname (by decide : Sdl.Lexer.isNamePart '/' = false)
  have hdot := Introspection.notMem_of_isName hname (by decide : Sdl.Lexer.isNamePart '.' = false)
  rcases List.exists_cons_of_ne_nil (String.toList_eq_nil_iff.not.2
    (Introspection.ne_empty_of_isName hname)) with ⟨c, rest, hletters⟩
  have hfile : (type.name ++ settings.markdownSuffix.display).toList =
      c :: (rest ++ settings.markdownSuffix.display.toList) := by
    rw [String.toList_append, hletters]
    rfl
  have hplain (front : List Char) : type.name ++ settings.markdownSuffix.display ≠
      String.ofList ('.' :: front) := by
    intro heq
    rw [heq, String.toList_ofList] at hfile
    rw [hletters, ← (List.cons.inj hfile).1] at hdot
    exact hdot List.mem_cons_self
  have hempty : type.name ++ settings.markdownSuffix.display ≠ "" := by
    intro heq
    rw [heq] at hfile
    contradiction
  refine ⟨?_, ?_, hplain ['.']⟩
  · rw [String.toList_append, List.mem_append, not_or]
    exact ⟨hslash, hnames.suffix⟩
  · simpa [Path.isPart, hempty] using hplain []

/-- A file that is named for a type stands in the folder itself. -/
theorem fragmentPath_eq [Runtime] (hnames : HasPlainNames graph settings) (folder : Path)
    {type : TypeDef} (htype : type ∈ graph.documented) :
    fragmentPath settings folder type =
      { folder with
        parts := folder.parts ++ [type.name ++ settings.markdownSuffix.display] } := by
  rcases fileName_spec hnames htype with ⟨hslash, hpart, -⟩
  rw [fragmentPath, Path.ofText_of_notMem hslash hpart]
  rfl

theorem placeOf_fragmentPath [Runtime] (hnames : HasPlainNames graph settings) (files : FileSystem)
    (folder : Path) {type : TypeDef} (htype : type ∈ graph.documented) :
    files.placeOf (fragmentPath settings folder type) =
      files.placeOf folder ++ [type.name ++ settings.markdownSuffix.display] := by
  rcases fileName_spec hnames htype with ⟨-, -, hup⟩
  rw [fragmentPath_eq hnames folder htype, FileSystem.placeOf, List.foldl_append, List.foldl_cons,
    List.foldl_nil, FileSystem.follow, if_neg hup]
  rfl

theorem nodup_fragmentPlaces [Runtime] (hnames : HasPlainNames graph settings) (files : FileSystem)
    (folder : Path) :
    (graph.documented.map fun type =>
      files.placeOf (fragmentPath settings folder type)).Nodup := by
  apply List.Nodup.map_on _ (List.Nodup.of_map _ hnames.nodup)
  intro type htype other hother hplaces
  rw [placeOf_fragmentPath hnames files folder htype,
    placeOf_fragmentPath hnames files folder hother, List.append_cancel_left_eq,
    List.cons.injEq] at hplaces
  have hletters := congrArg String.toList hplaces.1
  rw [String.toList_append, String.toList_append, List.append_cancel_right_eq] at hletters
  exact List.inj_on_of_nodup_map hnames.nodup htype hother (String.toList_injective hletters)

theorem nodup_places_of_plansDocs [Runtime] {docs : Option Path}
    (hplans : PlansDocs graph settings docs planned) (hnames : HasPlainNames graph settings)
    (files : FileSystem) :
    (planned.map fun file => files.placeOf file.path).Nodup := by
  cases docs with
  | none =>
      rw [PlansDocs] at hplans
      rw [hplans]
      exact List.nodup_nil
  | some folder =>
      have hpaths : (planned.map fun file => files.placeOf file.path) =
          graph.documented.map fun type => files.placeOf (fragmentPath settings folder type) := by
        rw [PlansDocs] at hplans
        generalize graph.documented = types at hplans ⊢
        induction hplans with
        | nil => rfl
        | cons hfile _ ih =>
            rcases hfile with ⟨content, -, rfl⟩
            rw [List.map_cons, List.map_cons, ih]
      rw [hpaths]
      exact nodup_fragmentPlaces hnames files folder

theorem lastAt_append (files : FileSystem) (first later : List PlannedFile) (location : Location) :
    lastAt files (first ++ later) location =
      (lastAt files later location).or (lastAt files first location) := by
  unfold lastAt
  rw [List.filter_append, List.getLast?_append]

/-! ## Runs in parts -/

/-- The write of the first of the files that are left has not been able to take its temporary file
away from this location. -/
def KeepsTemporary [Runtime] {α : Type} (medium : Medium) (files : FileSystem)
    (done rest : List PlannedFile) (run : Run α) (location : Location) : Prop :=
  ∃ failing later, rest = failing :: later ∧ medium.refuses (.removeFile location) = true ∧
    Files.IsStuck failing.order (written medium files done) run.files location

/-- At a location is the content of the last file that was written there, or else what was there
before, or a temporary file where no file was. -/
def ShowsAt [Runtime] {α : Type} (medium : Medium) (files : FileSystem)
    (done rest : List PlannedFile) (run : Run α) (location : Location) : Prop :=
  run.files.contentAt location =
      ((lastAt files done location).map fun file => file.content.toUTF8).or
        (files.contentAt location) ∨
    KeepsTemporary medium files done rest run location ∧ lastAt files done location = none ∧
      files.contentAt location = none

/-- What a run leaves that writes some files and not the rest. -/
structure Leaves [Runtime] {α : Type} (medium : Medium) (files : FileSystem)
    (done rest : List PlannedFile) (run : Run α) : Prop
    extends WritesFront medium files done rest run where
  unwritten : ∀ failing later, rest = failing :: later →
    Files.IsUnwritten failing.order (written medium files done) run.files ∨
      ∃ temporary, KeepsTemporary medium files done rest run temporary
  showsAt : ∀ location, ShowsAt medium files done rest run location
  apart : ((done ++ rest).map fun file => files.placeOf file.path).Nodup →
    (∀ file ∈ done, run.files.contentAt (files.placeOf file.path) = some file.content.toUTF8) ∧
      ∀ file ∈ rest, run.files.contentAt (files.placeOf file.path) =
          files.contentAt (files.placeOf file.path) ∨
        KeepsTemporary medium files done rest run (files.placeOf file.path) ∧
          files.contentAt (files.placeOf file.path) = none

/-- A file that is written stays, also where a temporary one does. -/
theorem ShowsAt.of_lastAt [Runtime] {α : Type} {run : Run α} {location : Location}
    (hshows : ShowsAt medium files done rest run location)
    (hlast : lastAt files done location = some file) :
    run.files.contentAt location = some file.content.toUTF8 := by
  rcases hshows with hcontent | ⟨-, hnone, -⟩
  · rw [hcontent, hlast]
    rfl
  · rw [hlast] at hnone
    contradiction

theorem WritesFront.showsAt [Runtime] {α : Type} {run : Run α}
    (hfront : WritesFront medium files done rest run)
    (hunwritten : ∀ failing later, rest = failing :: later →
      Files.IsUnwritten failing.order (written medium files done) run.files ∨
        ∃ temporary, KeepsTemporary medium files done rest run temporary)
    (location : Location) : ShowsAt medium files done rest run location := by
  unfold ShowsAt
  rw [← contentAt_written hfront.succeed location]
  cases rest with
  | nil =>
      rw [(hfront.complete rfl).2]
      exact .inl rfl
  | cons failing later =>
      rcases hunwritten failing later rfl with hkept | ⟨temporary, hkeeps⟩
      · exact .inl (hkept.keepsAt location).contentAt
      · obtain ⟨_, _, hrest, hrefused, hstuck⟩ := hkeeps
        by_cases hlocation : location = temporary
        · rw [hlocation]
          refine .inr ⟨⟨_, _, hrest, hrefused, hstuck⟩, ?_⟩
          have hnone : (written medium files done).contentAt temporary = none := by
            rw [FileSystem.contentAt, FileSystem.sight_eq_nothing_iff.1 hstuck.free]
            rfl
          rw [contentAt_written hfront.succeed, Option.or_eq_none_iff, Option.map_eq_none_iff]
            at hnone
          exact hnone
        · exact .inl (hstuck.keepsAt location hlocation).contentAt

theorem WritesFront.leaves [Runtime] {α : Type} {run : Run α}
    (hfront : WritesFront medium files done rest run) : Leaves medium files done rest run := by
  have hunwritten : ∀ failing later, rest = failing :: later →
      Files.IsUnwritten failing.order (written medium files done) run.files ∨
        ∃ temporary, KeepsTemporary medium files done rest run temporary := by
    intro failing later hrest
    rcases hfront.stopped failing later hrest with ⟨e, -, hfails⟩
    rcases Files.perform_cases medium (written medium files done) failing.order with
      ⟨hnone, -⟩ | ⟨-, hkept | ⟨temporary, hrefused, hstuck⟩⟩
    · rw [hfails] at hnone
      contradiction
    · rw [hfails] at hkept
      exact .inl hkept
    · rw [hfails] at hstuck
      exact .inr ⟨temporary, failing, later, hrest, hrefused, hstuck⟩
  have hshows := hfront.showsAt hunwritten
  refine ⟨hfront, hunwritten, hshows, ?_⟩
  intro hplaces
  rw [List.map_append] at hplaces
  refine ⟨?_, ?_⟩
  · intro file hfile
    exact (hshows _).of_lastAt (lastAt_of_nodup hplaces.of_append_left hfile)
  · intro file hfile
    have hnone : lastAt files done (files.placeOf file.path) = none := by
      apply lastAt_eq_none
      intro other hother heq
      exact List.disjoint_of_nodup_append hplaces (List.mem_map_of_mem hother)
        (heq ▸ List.mem_map_of_mem hfile)
    rcases hshows (files.placeOf file.path) with hsame | ⟨hkeeps, -, hnothing⟩
    · rw [hnone] at hsame
      exact .inl hsame
    · exact .inr ⟨hkeeps, hnothing⟩

theorem WritesFront.map [Runtime] {α β : Type} {run : Run α} {other : Run β} {f : α → β}
    (hfront : WritesFront medium files done rest run) (hfiles : other.files = run.files)
    (hresult : other.result = run.result.map f) : WritesFront medium files done rest other where
  succeed := hfront.succeed
  complete := by
    intro hrest
    rcases hfront.complete hrest with ⟨⟨made, hmade⟩, hcomplete⟩
    rw [hmade] at hresult
    exact ⟨⟨f made, hresult⟩, hfiles.trans hcomplete⟩
  stopped := by
    intro failing later hrest
    rcases hfront.stopped failing later hrest with ⟨e, he, hfails⟩
    rw [he] at hresult
    rw [hfiles]
    exact ⟨e, hresult, hfails⟩

theorem write_of_error [Runtime] {e : GenerationError}
    (herror : (generate tools graph settings targets.demand).result = .error e) :
    (write medium tools files graph settings targets).result = .error (.generation e) ∧
      (write medium tools files graph settings targets).files = files := by
  simp only [write, herror, and_self]

theorem write_of_ok [Runtime] (medium : Medium) (files : FileSystem) {artifacts : Artifacts}
    (hok : (generate tools graph settings targets.demand).result = .ok artifacts) :
    (write medium tools files graph settings targets).files =
        (writeAll medium files (plan targets artifacts)).files ∧
      (write medium tools files graph settings targets).result =
        (writeAll medium files (plan targets artifacts)).result.map fun _ => artifacts := by
  simp only [write, hok, and_self]

theorem write_leaves [Runtime] {artifacts : Artifacts}
    (hok : (generate tools graph settings targets.demand).result = .ok artifacts) :
    ∃ done rest, plan targets artifacts = done ++ rest ∧
      Leaves medium files done rest (write medium tools files graph settings targets) := by
  rcases writeAll_writesFront medium files (plan targets artifacts) with
    ⟨done, rest, hplan, hfront⟩
  have hwrite := write_of_ok medium files hok
  exact ⟨done, rest, hplan, (hfront.map hwrite.1 hwrite.2).leaves⟩

theorem WritesFront.result_ne [Runtime] {α : Type} {run : Run α}
    (hfront : WritesFront medium files done rest run) (e : GenerationError) :
    run.result ≠ .error (.generation e) := by
  intro hresult
  cases rest with
  | nil =>
      rcases (hfront.complete rfl).1 with ⟨made, hmade⟩
      rw [hmade] at hresult
      contradiction
  | cons failing later =>
      rcases hfront.stopped failing later rfl with ⟨e', he, -⟩
      rw [he] at hresult
      injection hresult with hcause
      contradiction

/-- Fragments are written behind everything else, so one that is written stays. -/
theorem Leaves.contentAt_fragment [Runtime] {α : Type} {run : Run α}
    {first shown : List PlannedFile} (hleaves : Leaves medium files (first ++ shown) rest run)
    (hplaces : (shown.map fun file => files.placeOf file.path).Nodup) (hfile : file ∈ shown) :
    run.files.contentAt (files.placeOf file.path) = some file.content.toUTF8 := by
  apply (hleaves.showsAt _).of_lastAt
  rw [lastAt_append, lastAt_of_nodup hplaces hfile]
  rfl

/-! ## Two graphs without fields -/

section Usual

attribute [local instance] Runtime.usual

theorem fragmentOf_of_fields_nil {type : TypeDef} (hfields : type.fields? = some []) :
    graph.fragmentOf type [.render] = .ok (TypeGraph.fragmentText type.description []) := by
  unfold TypeGraph.fragmentOf TypeGraph.fieldLines
  rw [TypeGraph.inRoom_of_hasRoom (by decide), hfields]
  dsimp only
  rw [List.map_nil, TypeGraph.outline]
  rfl

theorem not_phaseFails_of_fields_nil
    (hstep : (documentStep graph settings).result.isOk = true)
    (hfields : ∀ type ∈ graph.documented, type.fields? = some [])
    (htypings : targets.typings = none) :
    ¬ ∃ e, PhaseFails tools graph settings targets e := by
  have hfails {ε α : Type} {result : Except ε α} {e : ε} (hok : result.isOk = true) :
      result ≠ .error e := by
    rintro rfl
    contradiction
  rintro ⟨e, hphase⟩
  cases hphase with
  | document hdocument => exact hfails hstep (documentStep_of_error hdocument)
  | indentation hdocument hstyle =>
      exact hfails hstep (documentStep_of_unindentable hdocument hstyle)
  | unwritten hdocument hstyle hlimit =>
      exact hfails hstep (documentStep_of_unwritten hdocument hstyle hlimit)
  | roomless _ _ hfull => contradiction
  | docs _ _ _ htypes _ herror =>
      rw [fragmentOf_of_fields_nil (hfields _ (by simp [htypes]))] at herror
      contradiction
  | commandless _ _ hasked _ => exact hasked htypings
  | typings _ _ hasked _ _ => exact hasked htypings

def pairTypes : List TypeDef :=
  [{ name := "Shelf", directives := ["md"], shape := .object [] [] },
    { name := "Book", directives := ["md"], shape := .object [] [] }]

/-- A folder is where the second of two fragments goes. -/
def blockedFiles : FileSystem :=
  { root := .folder [("docs", .folder [("Book.generated.md", .folder [])])] }

def pairTargets : Targets :=
  { json := { parts := ["schema.json"] }, docs := some { parts := ["docs"] } }

theorem not_phaseFails_pairTypes :
    ¬ ∃ e, PhaseFails (fun _ => none) (.ofTypes pairTypes) { rootType := .str "Shelf" }
      pairTargets e :=
  not_phaseFails_of_fields_nil (by decide +kernel) (by decide) rfl

theorem hasPlainNames_pairTypes :
    HasPlainNames (.ofTypes pairTypes) { rootType := .str "Shelf" } where
  nodup := by decide
  isName := by decide
  suffix := by decide

end Usual

def pageTypes : List TypeDef :=
  [{ name := "Query", directives := ["md"], shape := .object [] [] }]

def pageSettings : Settings :=
  { typingsCommand := some (Json.texts ["echo"]) }

def declaring : Toolbox := fun _ =>
  some fun _ _ => { output := Bytes.ofString "declared" }

/-- The document and the type declarations go to one file by two ways, and the fragments to a
folder where that file stands. -/
def crossedTargets : Targets :=
  { json := { parts := ["x"] }, typings := some { parts := ["d", "..", "x"] },
    docs := some { parts := ["x"] } }

def emptyFiles : FileSystem := { root := .folder [] }

/-- What went wrong with a write, if that has ended a run. -/
def writeFailure? {α : Type} (run : Run α) : Option WriteError :=
  match run.result with
  | .error (.writing e) => some e
  | _ => none

theorem writeFailure?_of_map {α β : Type} {run : Run α} {other : Run β} {f : α → β}
    (hresult : other.result = run.result.map f) : writeFailure? other = writeFailure? run := by
  unfold writeFailure?
  rw [hresult]
  rcases run.result with (e | e) | made <;> rfl

section Usual

attribute [local instance] Runtime.usual

def pageText : String :=
  (((TypeGraph.ofTypes pageTypes).document pageSettings).toOption.bind fun document =>
    (document.text (.perLevel "  ")).toOption).getD ""

def crossedFiles : List PlannedFile :=
  [{ path := { parts := ["x"] }, content := pageText, isChecked := true },
    { path := { parts := ["d", "..", "x"] }, content := "declared" },
    { path := { parts := ["x", "Query.generated.md"] }, content := "" }]

theorem hasText_pageText : HasText (.ofTypes pageTypes) pageSettings pageText := by
  have hsome : (((TypeGraph.ofTypes pageTypes).document pageSettings).toOption.bind
      fun document => (document.text (.perLevel "  ")).toOption).isSome = true := by
    decide +kernel
  obtain ⟨text, htext⟩ := Option.isSome_iff_exists.1 hsome
  obtain ⟨document, hdocument, hwritten⟩ := Option.bind_eq_some_iff.1 htext
  refine ⟨document, .perLevel "  ", Results.eq_ok_of_toOption hdocument, rfl, ?_⟩
  rw [pageText, htext]
  exact Results.eq_ok_of_toOption hwritten

theorem generate_crossedTargets :
    ∃ artifacts, (generate declaring (.ofTypes pageTypes) pageSettings
        crossedTargets.demand).result = .ok artifacts ∧
      artifacts.text = pageText ∧ plan crossedTargets artifacts = crossedFiles := by
  rcases documentStep_of_hasText hasText_pageText with ⟨document, hok⟩
  have hfragments : fragmentsFor (.ofTypes pageTypes) pageSettings crossedTargets.demand =
      .ok [{ file := "Query.generated.md", content := "", typeName := "Query" }] := by
    have hfragment : (TypeGraph.ofTypes pageTypes).fragmentOf
        { name := "Query", directives := ["md"], shape := .object [] [] } [.render] = .ok "" :=
      fragmentOf_of_fields_nil rfl
    have hdocumented : (TypeGraph.ofTypes pageTypes).documented = pageTypes := by decide
    have hdocs : crossedTargets.demand.docs = true := rfl
    rw [fragmentsFor, if_pos hdocs, TypeGraph.fragments,
      TypeGraph.inRoom_of_hasRoom (by decide), hdocumented, pageTypes, List.mapM_cons,
      ← pageTypes, hfragment]
    rfl
  have htypings : typingsFor declaring pageSettings crossedTargets.demand pageText =
      .ok (some "declared") := Results.eq_ok_of_toOption (by decide +kernel)
  have hgenerate : (generate declaring (.ofTypes pageTypes) pageSettings
      crossedTargets.demand).result = _ := generate_of_document hok
  rw [hfragments, htypings] at hgenerate
  exact ⟨_, hgenerate, rfl, rfl⟩

end Usual

/-! ## The whole run -/

/-- A run that cannot make all its artifacts fails and changes nothing.  Any other writes a plan
up to the first file that cannot be written. -/
theorem write_stops_at_first_failure [Runtime] (medium : Medium) (tools : Toolbox)
    (files : FileSystem) (graph : TypeGraph) (settings : Settings) (targets : Targets) :
    let run := write medium tools files graph settings targets
    (∀ e, run.result = .error (.generation e) ↔ PhaseFails tools graph settings targets e) ∧
    ((∃ e, PhaseFails tools graph settings targets e) → run.files = files) ∧
    ((¬ ∃ e, PhaseFails tools graph settings targets e) →
      ∃ first fragments done rest, IsPlan tools graph settings targets first fragments ∧
        first ++ fragments = done ++ rest ∧ Leaves medium files done rest run ∧
        (HasPlainNames graph settings → ∀ shown, done = first ++ shown → ∀ file ∈ shown,
          run.files.contentAt (files.placeOf file.path) = some file.content.toUTF8)) ∧
    (HasPlainNames graph settings → ∀ folder,
      (∀ type ∈ graph.documented, fragmentPath settings folder type =
        { folder with
          parts := folder.parts ++ [type.name ++ settings.markdownSuffix.display] }) ∧
      (graph.documented.map fun type =>
        files.placeOf (fragmentPath settings folder type)).Nodup) := by
  intro run
  have hfailed : ∀ e, PhaseFails tools graph settings targets e →
      run.result = .error (.generation e) ∧ run.files = files :=
    fun e hfails => write_of_error (generate_of_phaseFails hfails)
  refine ⟨?_, ?_, ?_, ?_⟩
  · intro e
    refine ⟨?_, fun hfails => (hfailed e hfails).1⟩
    intro hresult
    rcases generate_cases tools graph settings targets with
      ⟨e', hfails⟩ | ⟨artifacts, first, fragments, hok, -, -⟩
    · rw [(hfailed e' hfails).1, Except.error.injEq, RunError.generation.injEq] at hresult
      rw [← hresult]
      exact hfails
    · rcases write_leaves hok with ⟨done, rest, -, hleaves⟩
      exact absurd hresult (hleaves.result_ne e)
  · rintro ⟨e, hfails⟩
    exact (hfailed e hfails).2
  · intro hnone
    rcases generate_cases tools graph settings targets with
      hfails | ⟨artifacts, first, fragments, hok, hplan, hfiles⟩
    · exact absurd hfails hnone
    · rcases write_leaves hok with ⟨done, rest, hsplit, hleaves⟩
      refine ⟨first, fragments, done, rest, hplan, hfiles ▸ hsplit, hleaves, ?_⟩
      intro hnames shown hdone file hfile
      have hshown : shown ++ rest = fragments := by
        rw [hfiles, hdone, List.append_assoc] at hsplit
        exact (List.append_cancel_left hsplit).symm
      have hplaces := nodup_places_of_plansDocs hplan.fragments hnames files
      rw [← hshown, List.map_append] at hplaces
      subst hdone
      exact hleaves.contentAt_fragment hplaces.of_append_left hfile
  · intro hnames folder
    exact ⟨fun type htype => fragmentPath_eq hnames folder htype,
      nodup_fragmentPlaces hnames files folder⟩

section Usual

attribute [local instance] Runtime.usual

theorem pairTypes_run_stops :
    (∃ first fragments done rest,
      IsPlan (fun _ => none) (.ofTypes pairTypes) { rootType := .str "Shelf" } pairTargets first
          fragments ∧
        first ++ fragments = done ++ rest ∧
        Leaves {} blockedFiles done rest (write {} (fun _ => none) blockedFiles
          (.ofTypes pairTypes) { rootType := .str "Shelf" } pairTargets) ∧
        ∀ shown, done = first ++ shown → ∀ file ∈ shown,
          (write {} (fun _ => none) blockedFiles (.ofTypes pairTypes)
            { rootType := .str "Shelf" } pairTargets).files.contentAt
              (blockedFiles.placeOf file.path) = some file.content.toUTF8) ∧
      (write {} (fun _ => none) blockedFiles (.ofTypes pairTypes) {} pairTargets).files =
        blockedFiles := by
  have hmissing : PhaseFails (fun _ => none) (.ofTypes pairTypes) {} pairTargets
      (.document (.rootNotFound (.str "Query"))) :=
    .document rfl
  rcases write_stops_at_first_failure {} (fun _ => none) blockedFiles (.ofTypes pairTypes)
    { rootType := .str "Shelf" } pairTargets with ⟨-, -, hwrites, -⟩
  rcases hwrites not_phaseFails_pairTypes with
    ⟨first, fragments, done, rest, hplan, hsplit, hleaves, hstays⟩
  have hunchanged := (write_stops_at_first_failure {} (fun _ => none) blockedFiles
    (.ofTypes pairTypes) {} pairTargets).2.1 ⟨_, hmissing⟩
  exact ⟨⟨first, fragments, done, rest, hplan, hsplit, hleaves, hstays hasPlainNames_pairTypes⟩,
    hunchanged⟩

/-- Paths that differ may lead to one file, where only the last of several contents stays. -/
theorem crossedTargets_lose_document :
    ∃ artifacts, (generate declaring (.ofTypes pageTypes) pageSettings
        crossedTargets.demand).result = .ok artifacts ∧
      ((plan crossedTargets artifacts).map (·.path)).Nodup ∧
      writeFailure? (write {} declaring emptyFiles (.ofTypes pageTypes) pageSettings
        crossedTargets) = some (.refused { parts := ["x", "Query.generated.md"] }) ∧
      (write {} declaring emptyFiles (.ofTypes pageTypes) pageSettings
        crossedTargets).files.content? crossedTargets.json ≠ some artifacts.text.toUTF8 := by
  rcases generate_crossedTargets with ⟨artifacts, hok, htext, hplan⟩
  rcases write_of_ok {} emptyFiles hok with ⟨hfiles, hresult⟩
  refine ⟨artifacts, hok, ?_, ?_, ?_⟩
  · rw [hplan]
    decide
  · rw [writeFailure?_of_map hresult, hplan]
    decide +kernel
  · rw [hfiles, htext, hplan]
    decide +kernel

end Usual

end Generation

end ConfigSchema
