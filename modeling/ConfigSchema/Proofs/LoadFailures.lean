import ConfigSchema.CommandLine.Outcome
import ConfigSchema.Proofs.Results

/-!
# Failures of loading

Nearly all that can go wrong while sources are loaded is reported as an error of loading.  What is
not comes from below: bytes that encode no text, names that cannot be looked up, JSON texts beyond
what can be read, and introspection results that are asked for parts they cannot have or whose
defaults cannot be written.  Sources are read in order, so what escapes is told by the first origin
that fails.
-/

namespace ConfigSchema

/-- Whether a failure is reported as an error of loading. -/
def LoadError.isReported [Runtime] (e : LoadError) : Bool :=
  e.message.isSome

/-- A reply tells success and brings a body. -/
def Reply.Brings [Runtime] (reply : Reply) (body : String) : Prop :=
  Text.hasSurrogate body = false ∧
    ∃ status, 200 ≤ status ∧ status ≤ 299 ∧ reply = .answered status body

theorem Reply.value_of_brings [Runtime] {reply : Reply} {body : String}
    (hbody : reply.Brings body) :
    reply.value = bodyValue body := by
  rcases hbody with ⟨hplain, status, hlow, hhigh, rfl⟩
  simp [Reply.value, hplain, hlow, hhigh]

theorem Reply.value_cases [Runtime] (reply : Reply) :
    reply.value = .error .failed ∨
      (reply.value = .error .unencodable ∧
        ∃ status body, reply = .answered status body ∧ Text.hasSurrogate body = true) ∨
      ∃ body, reply.Brings body := by
  cases reply with
  | answered status body =>
      by_cases hplain : Text.hasSurrogate body = true
      · exact .inr (.inl ⟨by simp [Reply.value, hplain], status, body, rfl, hplain⟩)
      · by_cases hstatus : 200 ≤ status ∧ status ≤ 299
        · rw [Bool.not_eq_true] at hplain
          exact .inr (.inr ⟨body, hplain, status, hstatus.1, hstatus.2, rfl⟩)
        · exact .inl (by simp [Reply.value, hplain, hstatus])
  | timedOut => exact .inl rfl
  | unreachable => exact .inl rfl

namespace Sources

/-- How a value that describes a schema fails without a report. -/
inductive ValueEscapes [Runtime] (origin : String) (value : Json) : LoadError → Prop
  | partless (hread : Introspection.read (describing value) = .error .notAnObject) :
      ValueEscapes origin value (.partless origin)
  | inexpressible {schema : Schema} {cause : Schema.Unwritable}
      (hread : Introspection.read (describing value) = .ok schema)
      (hwritten : Introspection.Document.definitions schema = .error cause) :
      ValueEscapes origin value (.inexpressible origin cause)

/-- How a reply fails without a report. -/
inductive ReplyEscapes [Runtime] (url : String) (reply : Reply) : LoadError → Prop
  | unencodable {status : Int} {body : String} (hreply : reply = .answered status body)
      (hbody : Text.hasSurrogate body = true) : ReplyEscapes url reply (.unencodable url)
  | undecodable {body : String} (hbody : reply.Brings body)
      (htext : bodyText? body.toUTF8.toList = none) : ReplyEscapes url reply (.undecodable url)
  | beyond {body text : String} {limit : Json.Limit} (hbody : reply.Brings body)
      (htext : bodyText? body.toUTF8.toList = some text)
      (hread : Json.read text .answer = .error (.beyond limit)) :
      ReplyEscapes url reply (.beyond limit)
  | value {body text : String} {entries : Entries Json} {cause : LoadError}
      (hbody : reply.Brings body) (htext : bodyText? body.toUTF8.toList = some text)
      (hread : Json.read text .answer = .ok (.obj entries))
      (hserved : ∀ errors, entries.get? "errors" = some errors → errors.isTruthy = false)
      (hvalue : ValueEscapes url (.obj entries) cause) : ReplyEscapes url reply cause

/-- How a file that is there fails without a report. -/
inductive FileEscapes [Runtime] (path : Path) (content : ByteArray) : LoadError → Prop
  | undecodable (hbytes : Text.decoded? content = none) :
      FileEscapes path content (.undecodable path.toText)
  | beyond {text : String} {limit : Json.Limit} (hbytes : Text.decoded? content = some text)
      (hsuffix : path.suffix = jsonSuffix)
      (hread : Json.read text .schema = .error (.beyond limit)) :
      FileEscapes path content (.beyond limit)
  | value {text : String} {entries : Entries Json} {cause : LoadError}
      (hbytes : Text.decoded? content = some text) (hsuffix : path.suffix = jsonSuffix)
      (hread : Json.read text .schema = .ok (.obj entries))
      (hvalue : ValueEscapes path.toText (.obj entries) cause) : FileEscapes path content cause

/-- How an origin fails without a report; definitions that stand in a source never do. -/
inductive OriginEscapes [Runtime] (around : Surroundings) : Origin → LoadError → Prop
  | url {address : String} {cause : LoadError}
      (hreply : ReplyEscapes address (around.web address) cause) :
      OriginEscapes around (.url address) cause
  | file {path : Path} {content : ByteArray} {cause : LoadError}
      (hcontent : around.files.content? path = some content)
      (hfile : FileEscapes path content cause) : OriginEscapes around (.file path) cause

/-- How a source fails without a report: its pattern cannot be followed, or the first of its
origins that fails does so. -/
inductive SourceEscapes [Runtime] (around : Surroundings) (source : String) : LoadError → Prop
  | pattern {fault : Files.PatternFault} (hurl : isUrl source = false)
      (hpattern : Files.Glyph.isPattern source = true) (hbrace : hasBrace source = false)
      (hpaths : Files.pathsOf around.files source = .error fault) :
      SourceEscapes around source (unfollowed source fault)
  | origin {before after : List Origin} {origin : Origin} {cause : LoadError}
      (horigins : originsOf around.files source = .ok (before ++ origin :: after))
      (hbefore : ∀ earlier ∈ before, ∃ document, documentOf around earlier = .ok document)
      (horigin : OriginEscapes around origin cause) : SourceEscapes around source cause

variable {around : Surroundings} {source name : String} {sources : List String} {e : LoadError}

/-! ## Origins -/

theorem isReported_of_documentOfText [Runtime] {text : String}
    (herror : documentOfText name text = .error e) : e.isReported = true := by
  unfold documentOfText at herror
  split at herror
  · contradiction
  · cases herror
    rfl

theorem documentOfValue_escapes_iff [Runtime] {value : Json} :
    documentOfValue name value = .error e ∧ e.isReported = false ↔
      ∃ entries, value = .obj entries ∧ ValueEscapes name value e := by
  constructor
  · rintro ⟨herror, hreported⟩
    unfold documentOfValue at herror
    split at herror
    · next entries =>
        refine ⟨entries, rfl, ?_⟩
        split at herror
        · cases herror
          contradiction
        · next hread =>
            cases herror
            exact .partless hread
        · next schema hread =>
            split at herror
            · next cause hwritten =>
                cases herror
                exact .inexpressible hread hwritten
            · split at herror
              · contradiction
              · cases herror
                contradiction
    · cases herror
      contradiction
  · rintro ⟨entries, rfl, hescapes⟩
    cases hescapes with
    | partless hread =>
        rw [documentOfValue, hread]
        exact ⟨rfl, rfl⟩
    | inexpressible hread hwritten =>
        simp only [documentOfValue, hread, hwritten]
        exact ⟨trivial, rfl⟩

theorem documentOfReply_escapes_iff [Runtime] {url : String} {reply : Reply} :
    documentOfReply url reply = .error e ∧ e.isReported = false ↔ ReplyEscapes url reply e := by
  constructor
  · rintro ⟨herror, hreported⟩
    unfold documentOfReply at herror
    rcases reply.value_cases with hfailed | ⟨hvalue, status, body, hreply, hbody⟩ | ⟨body, hbody⟩
    · rw [hfailed] at herror
      cases herror
      contradiction
    · rw [hvalue] at herror
      cases herror
      exact .unencodable hreply hbody
    · rw [Reply.value_of_brings hbody, bodyValue] at herror
      cases htext : bodyText? body.toUTF8.toList with
      | none =>
          rw [htext] at herror
          cases herror
          exact .undecodable hbody htext
      | some text =>
          simp only [htext] at herror
          cases hread : Json.read text .answer with
          | error cause =>
              rw [hread] at herror
              cases cause with
              | malformed =>
                  cases herror
                  contradiction
              | beyond limit =>
                  cases herror
                  exact .beyond hbody htext hread
          | ok value =>
              simp only [hread] at herror
              have hserved : ∀ errors, value.get? "errors" = some errors →
                  errors.isTruthy = false := by
                intro errors herrors
                rw [← Bool.not_eq_true]
                intro htruthy
                simp only [herrors, htruthy, if_true] at herror
                cases herror
                contradiction
              have hdescribed : documentOfValue url value = .error e := by
                cases herrors : value.get? "errors" with
                | none => simpa only [herrors] using herror
                | some errors => simpa [herrors, hserved errors herrors] using herror
              rcases documentOfValue_escapes_iff.1 ⟨hdescribed, hreported⟩ with
                ⟨entries, rfl, hescapes⟩
              exact .value hbody htext hread hserved hescapes
  · intro hescapes
    cases hescapes with
    | unencodable hreply hbody =>
        simp only [documentOfReply, hreply, Reply.value, hbody, if_true]
        exact ⟨rfl, rfl⟩
    | undecodable hbody htext =>
        simp only [documentOfReply, Reply.value_of_brings hbody, bodyValue, htext]
        exact ⟨rfl, rfl⟩
    | beyond hbody htext hread =>
        simp only [documentOfReply, Reply.value_of_brings hbody, bodyValue, htext, hread]
        exact ⟨rfl, rfl⟩
    | @value body text entries _ hbody htext hread hserved hvalue =>
        have hdescribed := documentOfValue_escapes_iff.2 ⟨entries, rfl, hvalue⟩
        have hreply : documentOfReply url reply = documentOfValue url (.obj entries) := by
          simp only [documentOfReply, Reply.value_of_brings hbody, bodyValue, htext, hread]
          cases herrors : (Json.obj entries).get? "errors" with
          | none => rfl
          | some errors => simp [hserved errors herrors]
        rw [hreply]
        exact hdescribed

theorem documentOfFile_escapes_iff [Runtime] {files : FileSystem} {path : Path} :
    documentOfFile files path = .error e ∧ e.isReported = false ↔
      ∃ content, files.content? path = some content ∧ FileEscapes path content e := by
  constructor
  · rintro ⟨herror, hreported⟩
    unfold documentOfFile at herror
    cases hcontent : files.content? path with
    | none =>
        rw [hcontent] at herror
        cases herror
        contradiction
    | some content =>
        refine ⟨content, rfl, ?_⟩
        simp only [hcontent] at herror
        cases hbytes : Text.decoded? content with
        | none =>
            rw [hbytes] at herror
            cases herror
            exact .undecodable hbytes
        | some text =>
            simp only [hbytes] at herror
            by_cases hsuffix : path.suffix = jsonSuffix
            · simp only [hsuffix, if_true] at herror
              cases hread : Json.read text .schema with
              | error cause =>
                  rw [hread] at herror
                  cases cause with
                  | malformed =>
                      cases herror
                      contradiction
                  | beyond limit =>
                      cases herror
                      exact .beyond hbytes hsuffix hread
              | ok value =>
                  simp only [hread] at herror
                  rcases documentOfValue_escapes_iff.1 ⟨herror, hreported⟩ with
                    ⟨entries, rfl, hescapes⟩
                  exact .value hbytes hsuffix hread hescapes
            · simp only [hsuffix, if_false] at herror
              rw [isReported_of_documentOfText herror] at hreported
              contradiction
  · rintro ⟨content, hcontent, hescapes⟩
    unfold documentOfFile
    simp only [hcontent]
    cases hescapes with
    | undecodable hbytes =>
        rw [hbytes]
        exact ⟨rfl, rfl⟩
    | beyond hbytes hsuffix hread =>
        simp only [hbytes, hsuffix, if_true, hread]
        exact ⟨trivial, rfl⟩
    | @value text entries _ hbytes hsuffix hread hvalue =>
        simp only [hbytes, hsuffix, if_true, hread]
        exact documentOfValue_escapes_iff.2 ⟨entries, rfl, hvalue⟩

theorem documentOf_escapes_iff [Runtime] {origin : Origin} :
    documentOf around origin = .error e ∧ e.isReported = false ↔ OriginEscapes around origin e := by
  cases origin with
  | url address =>
      rw [documentOf, documentOfReply_escapes_iff]
      constructor
      · exact .url
      · rintro ⟨hreply⟩
        exact hreply
  | file path =>
      rw [documentOf, documentOfFile_escapes_iff]
      constructor
      · rintro ⟨content, hcontent, hfile⟩
        exact .file hcontent hfile
      · intro hescapes
        cases hescapes with
        | file hcontent hfile => exact ⟨_, hcontent, hfile⟩
  | inline text =>
      constructor
      · rintro ⟨herror, hreported⟩
        rw [isReported_of_documentOfText herror] at hreported
        contradiction
      · intro hescapes
        cases hescapes

/-! ## Sources -/

theorem isReported_unfollowed [Runtime] (fault : Files.PatternFault) :
    (unfollowed source fault).isReported = false := by
  cases fault <;> rfl

theorem originsOf_escapes_iff [Runtime] {files : FileSystem} :
    originsOf files source = .error e ∧ e.isReported = false ↔
      isUrl source = false ∧ Files.Glyph.isPattern source = true ∧ hasBrace source = false ∧
        ∃ fault, Files.pathsOf files source = .error fault ∧ e = unfollowed source fault := by
  constructor
  · rintro ⟨herror, hreported⟩
    unfold originsOf at herror
    dsimp only at herror
    split at herror
    · cases herror
    · next hurl =>
        split at herror
        · next hpattern =>
            rw [Bool.and_eq_true, Bool.not_eq_true'] at hpattern
            split at herror
            · next fault hpaths =>
                cases herror
                exact ⟨by simpa using hurl, hpattern.1, hpattern.2, fault, hpaths, rfl⟩
            · cases herror
              cases hreported
            · cases herror
        · split at herror
          · cases herror
          · split at herror
            · cases herror
              cases hreported
            · split at herror
              · cases herror
                cases hreported
              · cases herror
  · rintro ⟨hurl, hpattern, hbrace, fault, hpaths, rfl⟩
    refine ⟨?_, isReported_unfollowed fault⟩
    simp [originsOf, hurl, hpattern, hbrace, hpaths]

theorem result_documents [Runtime] (around : Surroundings) (source : String) :
    (documents around source).result =
      (originsOf around.files source).bind fun origins => origins.mapM (documentOf around) := by
  unfold documents
  rw [Traced.result_bind]
  change (originsOf around.files source).bind _ = _
  apply congrArg
  funext origins
  rw [Traced.result_mapM]
  rfl

theorem documents_escapes_iff [Runtime] :
    (documents around source).result = .error e ∧ e.isReported = false ↔
      SourceEscapes around source e := by
  rw [result_documents]
  constructor
  · rintro ⟨herror, hreported⟩
    cases horigins : originsOf around.files source with
    | error cause =>
        rw [horigins] at herror
        cases herror
        rcases originsOf_escapes_iff.1 ⟨horigins, hreported⟩ with
          ⟨hurl, hpattern, hbrace, fault, hpaths, rfl⟩
        exact .pattern hurl hpattern hbrace hpaths
    | ok origins =>
        rw [horigins] at herror
        rcases Results.mapM_eq_error_iff.1 herror with
          ⟨before, origin, after, rfl, hbefore, horigin⟩
        exact .origin horigins hbefore (documentOf_escapes_iff.1 ⟨horigin, hreported⟩)
  · intro hescapes
    cases hescapes with
    | pattern hurl hpattern hbrace hpaths =>
        have horigins := originsOf_escapes_iff.2 ⟨hurl, hpattern, hbrace, _, hpaths, rfl⟩
        rw [horigins.1]
        exact ⟨rfl, horigins.2⟩
    | origin horigins hbefore horigin =>
        rcases documentOf_escapes_iff.2 horigin with ⟨herror, hreported⟩
        rw [horigins]
        exact ⟨Results.mapM_eq_error_iff.2 ⟨_, _, _, rfl, hbefore, herror⟩, hreported⟩

theorem isReported_of_merged [Runtime] {documents : List Sdl.Document}
    (herror : merged documents = .error e) :
    e.isReported = true := by
  unfold merged at herror
  cases hmerge : Sdl.merge (marks :: documents) with
  | error type =>
      rw [hmerge] at herror
      cases herror
      rfl
  | ok document =>
      rw [hmerge] at herror
      contradiction

theorem isReported_of_schemaOf [Runtime] {document : Sdl.Document}
    (herror : schemaOf document = .error e) :
    e.isReported = true := by
  unfold schemaOf at herror
  split at herror
  · contradiction
  · cases herror
    rfl

theorem result_load [Runtime] (around : Surroundings) (sources : List String) :
    (load around sources).result =
      (sources.mapM fun source => (documents around source).result).bind fun documents =>
        (merged documents.flatten).bind schemaOf := by
  unfold load
  rw [Traced.result_bind, Traced.result_mapM]
  apply congrArg
  funext documents
  simp only [Traced.result_bind, Traced.result_leave, Traced.result_pure]
  change (merged documents.flatten).bind _ = _
  apply congrArg
  funext document
  change (schemaOf document).bind _ = _
  cases schemaOf document <;> rfl

/-- Loading fails without a report exactly where the first source that fails does; merging and what
follows always report. -/
theorem load_escapes_iff [Runtime] :
    (load around sources).result = .error e ∧ e.isReported = false ↔
      ∃ before source after, sources = before ++ source :: after ∧
        (∀ earlier ∈ before, ∃ found, (documents around earlier).result = .ok found) ∧
        SourceEscapes around source e := by
  rw [result_load]
  constructor
  · rintro ⟨herror, hreported⟩
    cases hfound : sources.mapM fun source => (documents around source).result with
    | error cause =>
        rw [hfound] at herror
        cases herror
        rcases Results.mapM_eq_error_iff.1 hfound with
          ⟨before, source, after, rfl, hbefore, hsource⟩
        exact ⟨before, source, after, rfl, hbefore, documents_escapes_iff.1 ⟨hsource, hreported⟩⟩
    | ok found =>
        rw [hfound] at herror
        change (merged found.flatten).bind schemaOf = .error e at herror
        cases hmerged : merged found.flatten with
        | error cause =>
            rw [hmerged] at herror
            cases herror
            rw [isReported_of_merged hmerged] at hreported
            contradiction
        | ok document =>
            rw [hmerged] at herror
            rw [isReported_of_schemaOf herror] at hreported
            contradiction
  · rintro ⟨before, source, after, rfl, hbefore, hsource⟩
    rcases documents_escapes_iff.2 hsource with ⟨herror, hreported⟩
    rw [Results.mapM_eq_error_iff.2 ⟨before, source, after, rfl, hbefore, herror⟩]
    exact ⟨rfl, hreported⟩

/-! ## The command line -/

theorem result_loadStep [Runtime] (files : FileSystem) (web : Web) (settings : Settings)
    (sources : List String) :
    (Generation.load files web settings sources).result =
      ((load { files, web, asking := { timeout := settings.fetchTimeout } } sources).result.map
        Schema.toGraph).mapError .loading := by
  unfold Generation.load Sources.graph Traced.mapError
  simp only [Traced.result_bind]
  cases (load { files, web, asking := { timeout := settings.fetchTimeout } } sources).result <;> rfl

theorem execute_of_load_error [Runtime] {files : FileSystem} {web : Web} {arguments : List String}
    {invocation : Invocation} {settings : Settings}
    (hmeaning : CommandLine.meaning files arguments = .invoke invocation)
    (hsettings : CommandLine.settingsOf files invocation = .ok settings)
    (hload : (load { files, web, asking := { timeout := settings.fetchTimeout } }
      invocation.sources).result = .error e) (medium : Medium) (tools : Toolbox) :
    ∃ log, CommandLine.execute medium tools files web arguments =
      { exitCode := 1, failure := some (.run (.generation (.loading e))), log, files } := by
  have hresult : (Generation.load files web settings invocation.sources).result =
      .error (.loading e) := by
    rw [result_loadStep, hload]
    rfl
  simp only [CommandLine.execute, hmeaning, CommandLine.perform, hsettings, Generation.run, hresult]
  exact ⟨_, rfl⟩

/-- Loading gives a schema or reports, unless the first source that fails escapes; and whatever
ends it ends the command with status one and leaves the files as they are. -/
theorem load_reports_unless_escaping [Runtime] (around : Surroundings) (sources : List String) :
    (∀ e, (load around sources).result = .error e ∧ e.isReported = false ↔
      ∃ before source after, sources = before ++ source :: after ∧
        (∀ earlier ∈ before, ∃ found, (documents around earlier).result = .ok found) ∧
        SourceEscapes around source e) ∧
      ∀ medium tools arguments invocation settings e,
        CommandLine.meaning around.files arguments = .invoke invocation →
        CommandLine.settingsOf around.files invocation = .ok settings →
        around.asking = { timeout := settings.fetchTimeout } → sources = invocation.sources →
        (load around sources).result = .error e →
        ∃ log, CommandLine.execute medium tools around.files around.web arguments =
          { exitCode := 1, failure := some (.run (.generation (.loading e))), log,
            files := around.files } := by
  refine ⟨fun e => load_escapes_iff, ?_⟩
  rintro medium tools arguments invocation settings e hmeaning hsettings hasking rfl hload
  rcases around with ⟨files, web, asking⟩
  simp only at hmeaning hsettings hasking
  subst hasking
  exact execute_of_load_error hmeaning hsettings hload medium tools

/-- A file of definitions whose only byte starts no character. -/
def brokenFile : FileSystem :=
  { root := .folder [("schema.graphql", .file ⟨#[0xFF]⟩)] }

def brokenSurroundings : Surroundings :=
  { files := brokenFile, web := fun _ => .unreachable
    asking := { timeout := ({} : Settings).fetchTimeout } }

section Usual

attribute [local instance] Runtime.usual

theorem brokenFile_escapes :
    (load brokenSurroundings ["schema.graphql"]).result = .error (.undecodable "schema.graphql") ∧
      (LoadError.undecodable "schema.graphql").isReported = false ∧
      ∃ log, CommandLine.execute {} (fun _ => none) brokenFile (fun _ => .unreachable)
          ["--schema", "schema.graphql", "--json", "schema.json"] =
        { exitCode := 1,
          failure := some (.run (.generation (.loading (.undecodable "schema.graphql")))), log,
          files := brokenFile } := by
  rcases load_reports_unless_escaping brokenSurroundings ["schema.graphql"] with
    ⟨hescapes, hcommand⟩
  have horigin : OriginEscapes brokenSurroundings (.file { parts := ["schema.graphql"] })
      (.undecodable "schema.graphql") :=
    .file (show _ = some ⟨#[0xFF]⟩ by rfl) (.undecodable (by decide +kernel))
  have horigins : originsOf brokenFile "schema.graphql" =
      .ok ([] ++ .file { parts := ["schema.graphql"] } :: []) := by
    have hurl : isUrl "schema.graphql" = false := by decide +kernel
    have hpattern : Files.Glyph.isPattern "schema.graphql" = false := by decide +kernel
    have hpath : Path.ofText "schema.graphql" = { parts := ["schema.graphql"] } := by
      decide +kernel
    have hfile : brokenFile.isFile { parts := ["schema.graphql"] } = true := by decide +kernel
    simp [originsOf, hurl, hpattern, hpath, hfile]
  have hload := (hescapes _).2
    ⟨[], "schema.graphql", [], rfl, by simp, .origin horigins (by simp) horigin⟩
  have hmeaning : CommandLine.meaning brokenFile
      ["--schema", "schema.graphql", "--json", "schema.json"] =
        .invoke { sources := ["schema.graphql"]
                  json := { root := "/", parts := ["schema.json"] } } := by
    decide +kernel
  refine ⟨hload.1, hload.2, ?_⟩
  exact hcommand {} (fun _ => none) _ _ {} _ hmeaning rfl rfl rfl hload.1

end Usual

end Sources

end ConfigSchema
