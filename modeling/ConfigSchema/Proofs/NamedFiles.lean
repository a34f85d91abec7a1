import ConfigSchema.Proofs.LoadFailures
import ConfigSchema.Proofs.PatternMatches

/-!
# Files that are named

A source that is the path of a file is that file, unless its name can be read as a pattern: then it
is whatever the pattern finds.  So the files that a pattern finds can be named one by one instead,
unless one of them has such a name.
-/

namespace ConfigSchema

namespace Sources

/-- Whether a source is taken as a pattern of files unless it is an address. -/
def isGlob (source : String) : Bool :=
  Files.Glyph.isPattern source && !hasBrace source

def readOrigin [Runtime] (around : Surroundings) (origin : Origin) : Loading Sdl.Document := do
  Traced.leave (opening around origin)
  documentOf around origin

/-- The documents of sources, one list. -/
def allDocuments [Runtime] (around : Surroundings) (sources : List String) :
    Loading (List Sdl.Document) :=
  List.flatten <$> sources.mapM (documents around)

variable {around : Surroundings} {source : String}

/-! ## Origins of a file -/

theorem originsOf_of_isGlob [Runtime] {files : FileSystem} (hurl : isUrl source = false)
    (hglob : isGlob source = true) :
    originsOf files source =
      match Files.pathsOf files source with
      | .error fault => .error (unfollowed source fault)
      | .ok [] => .error (.noMatch source)
      | .ok paths => .ok (paths.map .file) := by
  unfold originsOf
  rw [isGlob] at hglob
  simp only [hurl, hglob, if_true]
  rfl

theorem originsOf_of_isFile [Runtime] {files : FileSystem} (hurl : isUrl source = false)
    (hglob : isGlob source = false) (hfile : files.isFile (Path.ofText source) = true) :
    originsOf files source = .ok [.file (Path.ofText source)] := by
  unfold originsOf
  rw [isGlob] at hglob
  simp only [hurl, hglob, hfile, if_true]
  rfl

theorem originsOf_eq_iff [Runtime] {files : FileSystem} (hurl : isUrl source = false)
    (hfile : files.isFile (Path.ofText source) = true) :
    originsOf files source = .ok [.file (Path.ofText source)] ↔
      (isGlob source = true → Files.pathsOf files source = .ok [Path.ofText source]) := by
  cases hglob : isGlob source with
  | false => simp [originsOf_of_isFile hurl hglob hfile]
  | true =>
      rw [originsOf_of_isGlob hurl hglob]
      simp only [true_imp_iff]
      constructor
      · intro horigins
        split at horigins
        · contradiction
        · contradiction
        · next paths _ hpaths =>
            rw [Except.ok.injEq, List.map_eq_singleton_iff] at horigins
            rcases horigins with ⟨path, rfl, hpath⟩
            rw [Origin.file.injEq] at hpath
            rw [hpaths, hpath]
      · intro hpaths
        rw [hpaths]
        rfl

/-! ## Documents -/

theorem documents_of_ok [Runtime] {origins : List Origin}
    (hok : originsOf around.files source = .ok origins) :
    documents around source = origins.mapM (readOrigin around) := by
  rw [documents, hok]
  rfl

theorem documents_of_error [Runtime] {e : LoadError}
    (herror : originsOf around.files source = .error e) :
    documents around source = Traced.ofExcept (.error e) := by
  rw [documents, herror]
  rfl

theorem documents_of_file [Runtime] {path : Path}
    (hok : originsOf around.files source = .ok [.file path]) :
    documents around source = (fun document => [document]) <$> readOrigin around (.file path) := by
  rw [documents_of_ok hok]
  simp

theorem allDocuments_append [Runtime] (sources others : List String) :
    allDocuments around (sources ++ others) = do
      let first ← allDocuments around sources
      let second ← allDocuments around others
      return first ++ second := by
  simp [allDocuments]

theorem allDocuments_singleton [Runtime] : allDocuments around [source] = documents around source :=
    by
  simp [allDocuments]

/-- Files that are named one by one. -/
theorem allDocuments_of_files [Runtime] {sources : List String}
    (hfiles : ∀ source ∈ sources,
      originsOf around.files source = .ok [.file (Path.ofText source)]) :
    allDocuments around sources =
      (sources.map fun source => Origin.file (Path.ofText source)).mapM (readOrigin around) := by
  induction sources with
  | nil => rfl
  | cons source rest ih =>
      rw [List.forall_mem_cons] at hfiles
      rw [← List.singleton_append, allDocuments_append, allDocuments_singleton,
        documents_of_file hfiles.1, ih hfiles.2]
      simp

theorem load_congr [Runtime] {sources others : List String}
    (hsame : allDocuments around sources = allDocuments around others) :
    load around sources = load around others := by
  have hload : ∀ sources, load around sources = allDocuments around sources >>= fun documents => do
      Traced.leave ((Sdl.repeatedTypes (marks :: documents)).map fun type =>
        log .debug .loader ("Skipping duplicate definition of " ++ type))
      let schema ← schemaOf (← merged documents)
      Traced.leave [log .info .loader
        ("Loaded schema with " ++ toString schema.orderedTypes.length ++ " types")]
      return schema := by
    intro sources
    rw [allDocuments, bind_map_left]
    rfl
  rw [hload, hload, hsame]

/-! ## Patterns and the files that they find -/

/-- Whether a source is the path of a file and no address, and loads that file only. -/
def LoadsItself [Runtime] (files : FileSystem) (source : String) : Prop :=
  isUrl source = false ∧ files.isFile (Path.ofText source) = true ∧
    (isGlob source = true → Files.pathsOf files source = .ok [Path.ofText source])

theorem originsOf_of_paths [Runtime] {files : FileSystem} (hurl : isUrl source = false)
    (hglob : isGlob source = true) {paths : List Path}
    (hpaths : Files.pathsOf files source = .ok paths) (hsome : paths ≠ []) :
    originsOf files source = .ok (paths.map .file) := by
  rw [originsOf_of_isGlob hurl hglob, hpaths]
  cases paths with
  | nil => exact absurd rfl hsome
  | cons path rest => rfl

/-- The files that a pattern finds can be named instead of it. -/
theorem load_of_matches [Runtime] {pattern : String} (hurl : isUrl pattern = false)
    (hglob : isGlob pattern = true) {paths : List Path}
    (hpaths : Files.pathsOf around.files pattern = .ok paths) (hsome : paths ≠ [])
    (hthemselves : ∀ text ∈ Files.matchesOf around.files pattern, LoadsItself around.files text)
    (before after : List String) :
    load around (before ++ pattern :: after) =
      load around (before ++ (Files.matchesOf around.files pattern ++ after)) := by
  have hfiles : ∀ text ∈ Files.matchesOf around.files pattern,
      originsOf around.files text = .ok [.file (Path.ofText text)] := by
    intro text htext
    rcases hthemselves text htext with ⟨htextUrl, hfile, hself⟩
    exact (originsOf_eq_iff htextUrl hfile).2 hself
  have hpattern : documents around pattern =
      allDocuments around (Files.matchesOf around.files pattern) := by
    rw [documents_of_ok (originsOf_of_paths hurl hglob hpaths hsome), allDocuments_of_files hfiles,
      Files.pathsOf_eq_of_ok hpaths, List.map_map]
    rfl
  apply load_congr
  rw [← List.singleton_append, allDocuments_append, allDocuments_append, allDocuments_append,
    allDocuments_append, allDocuments_singleton, hpattern]

/-- What is read for a source that is taken as a pattern. -/
structure ReadsMatches [Runtime] (around : Surroundings) (source : String) : Prop where
  unfollowed : ∀ fault, Files.pathsOf around.files source = .error fault →
    documents around source = Traced.ofExcept (.error (unfollowed source fault))
  nothing : Files.pathsOf around.files source = .ok [] →
    documents around source = Traced.ofExcept (.error (.noMatch source))
  found : ∀ paths, Files.pathsOf around.files source = .ok paths → paths ≠ [] →
    documents around source = (paths.map .file).mapM (readOrigin around)
  /-- If brackets make no set, a file of that very name is read, maybe among others. -/
  itself : ∀ paths, Files.pathsOf around.files source = .ok paths → Files.EndsInName source →
    (∀ name ∈ Files.namesOf source, ∀ set, Files.Glyph.set set ∉ Files.Glyph.read name.toList) →
    Path.ofText source ∈ paths

theorem readsMatches_of_isGlob [Runtime] (hurl : isUrl source = false)
    (hglob : isGlob source = true)
    (hfile : around.files.isFile (Path.ofText source) = true) : ReadsMatches around source where
  unfollowed := by
    intro fault hpaths
    apply documents_of_error
    rw [originsOf_of_isGlob hurl hglob, hpaths]
  nothing := by
    intro hpaths
    apply documents_of_error
    rw [originsOf_of_isGlob hurl hglob, hpaths]
  found := by
    intro paths hpaths hsome
    exact documents_of_ok (originsOf_of_paths hurl hglob hpaths hsome)
  itself := by
    intro paths hpaths hends hsets
    exact Files.mem_pathsOf hfile hends hsets hpaths

/-- A source that is the path of a file loads this file and nothing else, but for one that can be
read as a pattern and does not find just itself.  The files that a pattern finds load as the pattern
does if they are named instead of it and none of them is such a source. -/
theorem existing_files_load [Runtime] (around : Surroundings) :
    (∀ source, isUrl source = false → around.files.isFile (Path.ofText source) = true →
      let path := Path.ofText source
      (originsOf around.files source = .ok [.file path] ↔
          (isGlob source = true → Files.pathsOf around.files source = .ok [path])) ∧
        (originsOf around.files source = .ok [.file path] → documents around source =
          (fun document => [document]) <$> readOrigin around (.file path)) ∧
        (isGlob source = true → ReadsMatches around source)) ∧
      ∀ pattern paths, isUrl pattern = false → isGlob pattern = true →
        Files.pathsOf around.files pattern = .ok paths → paths ≠ [] →
        (∀ text ∈ Files.matchesOf around.files pattern, LoadsItself around.files text) →
        ∀ before after, load around (before ++ pattern :: after) =
          load around (before ++ (Files.matchesOf around.files pattern ++ after)) := by
  constructor
  · intro source hurl hfile path
    exact ⟨originsOf_eq_iff hurl hfile, documents_of_file,
      fun hglob => readsMatches_of_isGlob hurl hglob hfile⟩
  · intro pattern paths hurl hglob hpaths hsome hthemselves before after
    exact load_of_matches hurl hglob hpaths hsome hthemselves before after

/-- Two files, of which the name of one is a pattern that only the other fits. -/
def bracketFiles : FileSystem :=
  { root := .folder [("x[1].graphql", .file "type Query \x7b a: Int \x7d".toUTF8),
      ("x1.graphql", .file "type Query \x7b b: Int \x7d".toUTF8)] }

def bracketSurroundings : Surroundings :=
  { brokenSurroundings with files := bracketFiles }

section Usual

attribute [local instance] Runtime.usual

theorem bracketFiles_load :
    originsOf bracketFiles "x1.graphql" = .ok [.file { parts := ["x1.graphql"] }] ∧
      bracketFiles.isFile (Path.ofText "x[1].graphql") = true ∧
      originsOf bracketFiles "x[1].graphql" ≠ .ok [.file { parts := ["x[1].graphql"] }] ∧
      documents bracketSurroundings "x[1].graphql" =
        [Origin.file { parts := ["x1.graphql"] }].mapM (readOrigin bracketSurroundings) ∧
      load bracketSurroundings ["x?.graphql"] = load bracketSurroundings ["x1.graphql"] := by
  rcases existing_files_load bracketSurroundings with ⟨hnamed, hmatches⟩
  have hplain : Path.ofText "x1.graphql" = { parts := ["x1.graphql"] } := by decide +kernel
  have hbracket : Path.ofText "x[1].graphql" = { parts := ["x[1].graphql"] } := by decide +kernel
  have hfile : bracketFiles.isFile (Path.ofText "x[1].graphql") = true := by decide +kernel
  have hpaths : Files.pathsOf bracketFiles "x[1].graphql" = .ok [{ parts := ["x1.graphql"] }] := by
    decide +kernel
  have hfound : Files.pathsOf bracketFiles "x?.graphql" = .ok [{ parts := ["x1.graphql"] }] := by
    decide +kernel
  have htexts : Files.matchesOf bracketSurroundings.files "x?.graphql" = ["x1.graphql"] := by
    decide +kernel
  have hitself : LoadsItself bracketFiles "x1.graphql" := by
    have hglob : isGlob "x1.graphql" = false := by decide +kernel
    refine ⟨by decide +kernel, by decide +kernel, fun htrue => ?_⟩
    rw [hglob] at htrue
    contradiction
  have hall : ∀ text ∈ Files.matchesOf bracketSurroundings.files "x?.graphql",
      LoadsItself bracketSurroundings.files text := by
    intro text htext
    rw [htexts, List.mem_singleton] at htext
    rw [htext]
    exact hitself
  rcases hnamed "x1.graphql" hitself.1 hitself.2.1 with ⟨hplainIff, -, -⟩
  rcases hnamed "x[1].graphql" (by decide +kernel) hfile with ⟨hbracketIff, -, hreads⟩
  refine ⟨?_, hfile, ?_, ?_, ?_⟩
  · rw [← hplain]
    exact hplainIff.2 hitself.2.2
  · intro horigins
    rw [← hbracket] at horigins
    have hwrong := hbracketIff.1 horigins (by decide +kernel)
    rw [hbracket] at hwrong
    exact absurd (hpaths.symm.trans hwrong) (by decide)
  · exact (hreads (by decide +kernel)).found _ hpaths (by simp)
  · have hload := hmatches "x?.graphql" _ (by decide +kernel) (by decide +kernel) hfound (by simp)
      hall [] []
    rw [htexts] at hload
    exact hload

end Usual

end Sources

end ConfigSchema
