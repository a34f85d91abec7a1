import ConfigSchema.Files.Pattern
import ConfigSchema.Proofs.FileTrees
import Mathlib.Data.List.Lex

/-!
# What a pattern finds

A pattern finds texts, and their paths are what it stands for.  If brackets in it make no set, each
name of it fits itself; so if there is a file of that very name, the pattern finds it, whatever else
it finds.
-/

namespace ConfigSchema

theorem FileNode.mem_insideEntries_of_entry (base : Location) {entries : List (String × FileNode)}
    {name : String} {child : FileNode} (hmem : (name, child) ∈ entries) :
    (base ++ [name], child) ∈ insideEntries base entries ∧
      ∀ below ∈ child.inside (base ++ [name]), below ∈ insideEntries base entries := by
  induction entries with
  | nil => simp at hmem
  | cons entry rest ih =>
      rw [insideEntries]
      rcases List.mem_cons.1 hmem with rfl | hrest
      · exact ⟨List.mem_cons_self, fun below hbelow =>
          List.mem_cons_of_mem _ (List.mem_append_left _ hbelow)⟩
      · obtain ⟨hself, hinside⟩ := ih hrest
        exact ⟨List.mem_cons_of_mem _ (List.mem_append_right _ hself), fun below hbelow =>
          List.mem_cons_of_mem _ (List.mem_append_right _ (hinside below hbelow))⟩

theorem Text.precedes_iff [Runtime] {one other : String} :
    precedes one other = true ↔ one.toList.map codeOf ≤ other.toList.map codeOf := by
  rw [precedes, Bool.not_eq_true', ← Bool.not_eq_true, List.lex_eq_true_iff_lt, not_lt]

namespace Files

/-- The texts that a pattern finds, in order. -/
def matchesOf [Runtime] (files : FileSystem) (pattern : String) : List String :=
  let root := (Path.ofText pattern).root
  let parts := Text.parts '/' pattern
  let segments := (parts.filter (· ≠ "")).map Segment.ofText
  let front := (segments.takeWhile (·.isPlain)).map (·.text)
  let found := expand files (parts.getLast? = some "") (segments.dropWhile (·.isPlain))
    [startAt files root front]
  ((found.map (Match.text root)).filter (· ≠ "")).mergeSort Text.precedes

theorem pathsOf_eq_of_ok [Runtime] {files : FileSystem} {pattern : String} {paths : List Path}
    (hok : pathsOf files pattern = .ok paths) :
    paths = (matchesOf files pattern).map Path.ofText := by
  unfold pathsOf at hok
  dsimp only at hok
  split at hok
  · cases hok
  · cases hok
    rfl

theorem sorted_matchesOf [Runtime] (files : FileSystem) (pattern : String) :
    (matchesOf files pattern).Pairwise fun one other => Text.precedes one other = true := by
  apply List.pairwise_mergeSort
  · intro one other another hfirst hsecond
    rw [Text.precedes_iff] at hfirst hsecond ⊢
    exact hfirst.trans hsecond
  · intro one other
    rw [Bool.or_eq_true, Text.precedes_iff, Text.precedes_iff]
    exact le_total _ _

/-! ## Names that fit themselves -/

namespace Glyph

theorem mem_remainders (c : Char) (rest : List Char) : rest ∈ remainders (c :: rest) := by
  refine List.mem_cons_of_mem (c :: rest) ?_
  cases rest with
  | nil => exact List.mem_singleton.2 rfl
  | cons next later => exact List.mem_cons_self

theorem fits_cons {glyph : Glyph} {glyphs : List Glyph} {c : Char} {rest : List Char}
    (hany : glyph ≠ .any) (hfor : glyph.isFor c = true) (hrest : fits glyphs rest = true) :
    fits (glyph :: glyphs) (c :: rest) = true := by
  cases glyph with
  | any => exact absurd rfl hany
  | one | set | char => exact Bool.and_eq_true_iff.2 ⟨hfor, hrest⟩

/-- A name in which brackets make no set fits itself. -/
theorem fits_read_self {name : List Char} (hsets : ∀ set, Glyph.set set ∉ read name) :
    fits (read name) name = true := by
  have hbehind : ∀ {first glyphs}, (∀ set, Glyph.set set ∉ first :: glyphs) →
      ∀ set, Glyph.set set ∉ glyphs :=
    fun hnone set hmem => hnone set (List.mem_cons_of_mem _ hmem)
  fun_induction read name with
  | case1 => rfl
  | case2 rest ih =>
      rw [fits]
      exact List.any_eq_true.2 ⟨rest, mem_remainders '*' rest, ih (hbehind hsets)⟩
  | case3 rest ih => exact fits_cons (by simp) rfl (ih (hbehind hsets))
  | case4 rest text behind hclosed ih => exact absurd List.mem_cons_self (hsets (setOf text))
  | case5 rest hopen ih => exact fits_cons (by simp) (by rfl) (ih (hbehind hsets))
  | case6 c rest hstar hmark hbracket ih =>
      exact fits_cons (by simp) (decide_eq_true rfl) (ih (hbehind hsets))

end Glyph

/-! ## Ways through a tree -/

variable {files : FileSystem} {place next final : Location} {name : String} {names : List String}

namespace Segment

theorem foldl_step_none (files : FileSystem) (names : List String) :
    names.foldl (step files) none = none := by
  induction names with
  | nil => rfl
  | cons name rest ih => exact ih

theorem step_of_ne_dot (hdot : name ≠ ".") :
    step files (some place) name = files.step place name := by
  rw [step, Option.bind_some, if_neg hdot]

/-- Only folders lead on. -/
theorem isFolder_of_step (hstep : step files (some place) name = some next) :
    (files.root.at? place).any FileNode.isFolder = true := by
  rw [step, Option.bind_some] at hstep
  split at hstep
  · split at hstep
    · next hfolder => exact hfolder
    · contradiction
  · exact FileSystem.sight_eq_folder_iff.1 (FileSystem.sight_of_step hstep).1

theorem isFolder_of_foldl (hwalk : names.foldl (step files) (some place) = some final)
    (hnames : names ≠ []) : (files.root.at? place).any FileNode.isFolder = true := by
  cases names with
  | nil => exact absurd rfl hnames
  | cons name rest =>
      rw [List.foldl_cons] at hwalk
      cases hstep : step files (some place) name with
      | none =>
          rw [hstep, foldl_step_none] at hwalk
          contradiction
      | some next => exact isFolder_of_step hstep

/-- A wild name that is followed as it is leads to an entry. -/
theorem exists_entry_of_step (hwild : Glyph.isPattern name = true)
    (hstep : step files (some place) name = some next) :
    next = place ++ [name] ∧ ∃ entries node, files.root.at? place = some (.folder entries) ∧
      (name, node) ∈ entries ∧ files.root.at? next = some node := by
  have hdot : name ≠ "." := by
    rintro rfl
    contradiction
  have hup : name ≠ ".." := by
    rintro rfl
    contradiction
  rw [step_of_ne_dot hdot] at hstep
  have hfolder := (FileSystem.sight_of_step hstep).1
  rcases (FileSystem.step_eq_some_iff hfolder).1 hstep with ⟨rfl, hentry⟩
  rcases FileSystem.exists_entries_of_sight hfolder with ⟨entries, hentries⟩
  have hsome := hentry.resolve_left hup
  rw [ne_eq, FileSystem.sight_eq_nothing_iff] at hsome
  rcases Option.ne_none_iff_exists'.1 hsome with ⟨node, hnode⟩
  have hfollow : FileSystem.follow place name = place ++ [name] := if_neg hup
  have hget := hnode
  rw [FileSystem.at?_concat, hentries, Option.bind_some] at hget
  rw [hfollow]
  exact ⟨rfl, entries, node, hentries, Entries.mem_of_get? hget, hnode⟩

theorem fits_self (hsets : ∀ set, Glyph.set set ∉ Glyph.read name.toList) :
    fits name name = true := by
  rw [fits, Glyph.fits_read_self hsets, Bool.and_true]
  cases isHidden name <;> rfl

theorem mem_extend [Runtime] {front : List String} {onlyFolders : Bool}
    (hstep : step files (some place) name = some next)
    (hfolder : onlyFolders = true → (files.root.at? next).any FileNode.isFolder = true)
    (hsets : ∀ set, Glyph.set set ∉ Glyph.read name.toList) :
    { names := front ++ [name], location := some next } ∈
      (ofText name).extend files onlyFolders { names := front, location := some place } := by
  have hkept : ∀ {node : FileNode}, files.root.at? next = some node →
      (!onlyFolders || node.isFolder) = true := by
    intro node hnode
    rw [hnode, Option.any_some] at hfolder
    cases onlyFolders with
    | false => rfl
    | true => exact hfolder rfl
  unfold ofText
  split
  · next hdepth =>
      rcases exists_entry_of_step (by rw [hdepth]; decide) hstep with
        ⟨rfl, entries, node, hentries, hmem, hnode⟩
      have hat : files.at? (some place) = some (.folder entries) := hentries
      have hshown : (!([name].any isHidden)) = true := by
        rw [hdepth]
        decide
      simp only [extend, hat, Option.map_some]
      refine List.mem_append_right _ (List.mem_map.2 ⟨([name], node), ?_, rfl⟩)
      rw [below, hat, Option.map_some, Option.getD_some, FileNode.entries, List.mem_filter,
        Bool.and_eq_true]
      exact ⟨(FileNode.mem_insideEntries_of_entry [] hmem).1, hshown, hkept hnode⟩
  · split
    · next hwild =>
        rcases exists_entry_of_step hwild hstep with ⟨rfl, entries, node, hentries, hmem, hnode⟩
        have hat : files.at? (some place) = some (.folder entries) := hentries
        simp only [extend, hat, Option.map_some, Option.getD_some, FileNode.entries]
        refine List.mem_map.2 ⟨(name, node), ?_, rfl⟩
        rw [List.mem_filter, Bool.and_eq_true]
        exact ⟨hmem, fits_self hsets, hkept hnode⟩
    · simp [extend, hstep]

end Segment

/-- A pattern whose names fit themselves also finds where the names lead. -/
theorem mem_expand [Runtime] (hwalk : names.foldl (Segment.step files) (some place) = some final)
    (hsets : ∀ name ∈ names, ∀ set, Glyph.set set ∉ Glyph.read name.toList) {found : List Match}
    {front : List String} (hmem : { names := front, location := some place } ∈ found) :
    { names := front ++ names, location := some final } ∈
      expand files false (names.map Segment.ofText) found := by
  induction names generalizing front place found with
  | nil =>
      rw [List.foldl_nil, Option.some.injEq] at hwalk
      rw [List.append_nil, ← hwalk]
      exact hmem
  | cons name rest ih =>
      rw [List.forall_mem_cons] at hsets
      rw [List.foldl_cons] at hwalk
      rw [List.map_cons, expand, ← List.singleton_append, ← List.append_assoc]
      cases hstep : Segment.step files (some place) name with
      | none =>
          rw [hstep, Segment.foldl_step_none] at hwalk
          contradiction
      | some next =>
          rw [hstep] at hwalk
          refine ih hwalk hsets.2 (List.mem_flatMap.2 ⟨_, hmem, ?_⟩)
          refine Segment.mem_extend hstep (fun hmore => ?_) hsets.1
          refine Segment.isFolder_of_foldl hwalk ?_
          rintro rfl
          contradiction

/-! ## Files that patterns name -/

/-- The names of a path and the dots between them lead to the same place. -/
theorem foldl_step_of_foldlM (hempty : "" ∉ names)
    (hlast : ∀ last, names.getLast? = some last → Path.isPart last = true)
    (hwalk : (names.filter Path.isPart).foldlM files.step place = some final) :
    names.foldl (Segment.step files) (some place) = some final := by
  induction names generalizing place with
  | nil => exact hwalk
  | cons name rest ih =>
      rw [List.mem_cons, not_or] at hempty
      have hrest : ∀ last, rest.getLast? = some last → Path.isPart last = true :=
        fun last hback => hlast last (by simp [List.getLast?_cons, hback])
      rw [List.foldl_cons]
      by_cases hdot : name = "."
      · have hpart : ¬ Path.isPart name = true := by simp [Path.isPart, hdot]
        rw [List.filter_cons_of_neg hpart] at hwalk
        have hfolder : (files.root.at? place).any FileNode.isFolder = true := by
          refine Segment.isFolder_of_foldl (ih hempty.2 hrest hwalk) ?_
          rintro rfl
          exact hpart (hlast name rfl)
        rw [Segment.step, Option.bind_some, if_pos hdot, if_pos hfolder]
        exact ih hempty.2 hrest hwalk
      · have hpart : Path.isPart name = true := by simp [Path.isPart, hdot, Ne.symm hempty.1]
        rw [List.filter_cons_of_pos hpart, List.foldlM_cons] at hwalk
        rw [Segment.step_of_ne_dot hdot]
        cases hstep : files.step place name with
        | none =>
            rw [hstep] at hwalk
            contradiction
        | some next =>
            rw [hstep] at hwalk
            exact ih hempty.2 hrest hwalk

theorem text_ofText (name : String) : (Segment.ofText name).text = name := by
  unfold Segment.ofText
  split
  · next hdepth => exact hdepth.symm
  · split <;> rfl

/-! ## Texts of paths -/

theorem exists_replicate_of_rootOf (slashes : Nat) :
    ∃ count, (Path.rootOf slashes).toList = List.replicate count '/' ∧
      Path.rootOf count = Path.rootOf slashes := by
  unfold Path.rootOf
  split
  · exact ⟨0, rfl, rfl⟩
  · split
    · exact ⟨2, rfl, rfl⟩
    · exact ⟨1, rfl, rfl⟩

theorem cut_replicate_append (count : Nat) (letters : List Char) :
    Text.cut '/' (List.replicate count '/' ++ letters) =
      List.replicate count [] ++ Text.cut '/' letters := by
  induction count with
  | zero => rfl
  | succ count ih =>
      rw [List.replicate_succ, List.cons_append, Text.cut, if_pos rfl, ih]
      rfl

theorem cut_intercalate (hnames : names ≠ []) (hslash : ∀ name ∈ names, '/' ∉ name.toList) :
    Text.cut '/' ("/".intercalate names).toList = names.map String.toList := by
  induction names with
  | nil => exact absurd rfl hnames
  | cons name rest ih =>
      rw [List.forall_mem_cons] at hslash
      cases rest with
      | nil =>
          have hsingle : "/".intercalate [name] = name := rfl
          rw [hsingle, Text.cut_of_notMem hslash.1]
          rfl
      | cons next others =>
          have hsplit : ("/".intercalate (name :: next :: others)).toList =
              name.toList ++ '/' :: ("/".intercalate (next :: others)).toList := by
            simp [String.toList_intercalate]
          rw [hsplit, Text.cut_append, Text.cut_of_notMem hslash.1, ih (by simp) hslash.2]
          rfl

/-- Names with slashes between them, of which the first is not empty, are the parts of their path
behind those that its root makes. -/
theorem exists_parts_of_names (slashes : Nat) {first : String} {rest : List String}
    (hfirst : first ≠ "") (hslash : ∀ name ∈ first :: rest, '/' ∉ name.toList) :
    ∃ count, Path.rootOf count = Path.rootOf slashes ∧
      ((Path.rootOf slashes ++ "/".intercalate (first :: rest)).toList.takeWhile (· = '/')).length =
        count ∧
      Text.parts '/' (Path.rootOf slashes ++ "/".intercalate (first :: rest)) =
        List.replicate count "" ++ first :: rest := by
  rcases exists_replicate_of_rootOf slashes with ⟨count, hroot, hcount⟩
  have hcut := cut_intercalate (List.cons_ne_nil first rest) hslash
  have hletters : (Path.rootOf slashes ++ "/".intercalate (first :: rest)).toList =
      List.replicate count '/' ++ ("/".intercalate (first :: rest)).toList := by
    rw [String.toList_append, hroot]
  have hnone : ("/".intercalate (first :: rest)).toList.takeWhile (· = '/') = [] := by
    cases hjoined : ("/".intercalate (first :: rest)).toList with
    | nil => rfl
    | cons c later =>
        rw [List.takeWhile_cons_of_neg]
        rw [decide_eq_true_eq]
        rintro rfl
        -- A text that starts with a slash has an empty name first.
        rw [hjoined, Text.cut, if_pos rfl, List.map_cons] at hcut
        exact hfirst (String.toList_eq_nil_iff.1 (List.cons.inj hcut).1.symm)
  have hslashes : (List.replicate count '/' ++
      ("/".intercalate (first :: rest)).toList).takeWhile (· = '/') = List.replicate count '/' := by
    have hall : ∀ c ∈ List.replicate count '/', decide (c = '/') = true :=
      fun c hc => decide_eq_true (List.eq_of_mem_replicate hc)
    rw [List.takeWhile_append_of_pos hall, hnone, List.append_nil]
  have hback : ((first :: rest).map String.toList).map String.ofList = first :: rest := by
    rw [List.map_map]
    exact (List.map_congr_left fun name _ => String.ofList_toList).trans (List.map_id _)
  refine ⟨count, hcount, ?_, ?_⟩
  · rw [hletters, hslashes, List.length_replicate]
  · rw [Text.parts, hletters, cut_replicate_append, hcut, List.map_append, List.map_replicate,
      hback]

/-- The names of a path with slashes between them are read back. -/
theorem ofText_of_names (slashes : Nat) {first : String} {rest : List String}
    (hfirst : first ≠ "") (hslash : ∀ name ∈ first :: rest, '/' ∉ name.toList) :
    Path.ofText (Path.rootOf slashes ++ "/".intercalate (first :: rest)) =
      { root := Path.rootOf slashes, parts := (first :: rest).filter Path.isPart } := by
  rcases exists_parts_of_names slashes hfirst hslash with ⟨count, hcount, hlength, hparts⟩
  rw [Path.ofText, hlength, hcount, hparts, List.filter_append,
    List.filter_replicate_of_neg (by decide), List.nil_append]

/-! ## Files that patterns name -/

def namesOf (source : String) : List String :=
  (Text.parts '/' source).filter (· ≠ "")

/-- The text does not end in a slash or a dot behind one. -/
def EndsInName (source : String) : Prop :=
  ∃ last, (Text.parts '/' source).getLast? = some last ∧ Path.isPart last = true

variable {source : String}

theorem plain_of_mem_namesOf (hname : name ∈ namesOf source) : name ≠ "" ∧ '/' ∉ name.toList := by
  rcases List.mem_filter.1 hname with ⟨hmem, hne⟩
  rcases List.mem_map.1 hmem with ⟨letters, hletters, rfl⟩
  refine ⟨of_decide_eq_true hne, ?_⟩
  rw [String.toList_ofList]
  exact Text.separator_notMem_of_mem_cut hletters

theorem parts_ofText (source : String) :
    (Path.ofText source).parts = (namesOf source).filter Path.isPart := by
  rw [Path.ofText, namesOf, List.filter_filter]
  refine List.filter_congr fun name _ => ?_
  by_cases hname : name = "" <;> simp [Path.isPart, hname]

theorem EndsInName.exists_last (hends : EndsInName source) :
    ∃ last, (namesOf source).getLast? = some last ∧ Path.isPart last = true := by
  rcases hends with ⟨last, hlast, hpart⟩
  rcases List.getLast?_eq_some_iff.1 hlast with ⟨front, hfront⟩
  have hne : last ≠ "" := by
    rintro rfl
    contradiction
  refine ⟨last, ?_, hpart⟩
  rw [namesOf, hfront, List.filter_append, List.filter_cons_of_pos (by simpa using hne),
    List.filter_nil, List.getLast?_append, List.getLast?_singleton, Option.some_or]

/-- The names in front of the first wildcard are plain. -/
def isPlainName (name : String) : Bool :=
  (Segment.ofText name).isPlain

/-- Whether a text ends in a slash. -/
def wantsFolder (source : String) : Bool :=
  (Text.parts '/' source).getLast? = some ""

/-- The names of a pattern in front of the first wildcard. -/
def frontOf (source : String) : List String :=
  (namesOf source).takeWhile isPlainName

def behindOf (source : String) : List Segment :=
  ((namesOf source).dropWhile isPlainName).map Segment.ofText

/-- The places that a pattern finds. -/
def foundBy [Runtime] (files : FileSystem) (source : String) : List Match :=
  expand files (wantsFolder source) (behindOf source)
    [startAt files (Path.ofText source).root (frontOf source)]

/-- Why a source cannot be followed as a pattern. -/
def faultOf? [Runtime] (files : FileSystem) (source : String) : Option PatternFault :=
  patternFault? files (wantsFolder source) (Path.ofText source).root (frontOf source)
    (behindOf source)

theorem plainTexts_eq (source : String) :
    ((((namesOf source).map Segment.ofText).takeWhile (·.isPlain)).map (·.text)) =
      frontOf source := by
  rw [List.takeWhile_map, List.map_map]
  exact (List.map_congr_left fun name _ => text_ofText name).trans (List.map_id _)

theorem matchesOf_eq [Runtime] (files : FileSystem) (source : String) :
    matchesOf files source =
      (((foundBy files source).map (Match.text (Path.ofText source).root)).filter
        (· ≠ "")).mergeSort Text.precedes := by
  unfold matchesOf
  dsimp only
  rw [← namesOf, plainTexts_eq, List.dropWhile_map]
  rfl

theorem pathsOf_eq [Runtime] (files : FileSystem) (source : String) :
    pathsOf files source =
      match faultOf? files source with
      | some fault => .error fault
      | none => .ok ((matchesOf files source).map Path.ofText) := by
  rw [matchesOf_eq]
  unfold pathsOf
  dsimp only
  rw [← namesOf, plainTexts_eq, List.dropWhile_map]
  rfl

theorem wantsFolder_of_endsInName (hends : EndsInName source) : wantsFolder source = false := by
  rcases hends with ⟨last, hlast, hpart⟩
  rw [wantsFolder, decide_eq_false_iff_not, hlast, Option.some.injEq]
  rintro rfl
  contradiction

theorem mem_matchesOf [Runtime] {found : Match} (hfound : found ∈ foundBy files source)
    (htext : found.text (Path.ofText source).root ≠ "") :
    found.text (Path.ofText source).root ∈ matchesOf files source := by
  rw [matchesOf_eq, List.mem_mergeSort, List.mem_filter]
  exact ⟨List.mem_map_of_mem hfound, decide_eq_true htext⟩

/-- What the names of a pattern lead to is found by the pattern if its names fit themselves. -/
theorem mem_foundBy [Runtime] (hends : EndsInName source)
    (hwalk : (namesOf source).foldl (Segment.step files)
      (some (files.start (Path.ofText source))) = some final)
    (hsets : ∀ name ∈ namesOf source, ∀ set, Glyph.set set ∉ Glyph.read name.toList) :
    { names := namesOf source, location := some final } ∈ foundBy files source := by
  rw [foundBy, wantsFolder_of_endsInName hends]
  rw [← List.takeWhile_append_dropWhile (p := isPlainName) (l := namesOf source),
    List.foldl_append] at hwalk
  cases hmid : ((namesOf source).takeWhile isPlainName).foldl (Segment.step files)
      (some (files.start (Path.ofText source))) with
  | none =>
      rw [hmid, Segment.foldl_step_none] at hwalk
      contradiction
  | some mid =>
      rw [hmid] at hwalk
      have hfront : startAt files (Path.ofText source).root
          ((namesOf source).takeWhile isPlainName) =
            { names := (namesOf source).takeWhile isPlainName, location := some mid } :=
        congrArg (Match.mk _ · false) hmid
      have hfound := mem_expand hwalk
        (fun name hname => hsets name (List.dropWhile_subset _ hname))
        (List.mem_singleton.2 hfront.symm)
      rw [List.takeWhile_append_dropWhile] at hfound
      exact hfound

/-- If there is a file of the very name that a pattern is, and brackets make no set in the pattern,
then the pattern finds it. -/
theorem mem_pathsOf [Runtime] {paths : List Path} (hfile : files.isFile (Path.ofText source) = true)
    (hends : EndsInName source)
    (hsets : ∀ name ∈ namesOf source, ∀ set, Glyph.set set ∉ Glyph.read name.toList)
    (hok : pathsOf files source = .ok paths) : Path.ofText source ∈ paths := by
  rcases hends.exists_last with ⟨last, hlast, hpart⟩
  have hmem : last ∈ namesOf source := List.mem_of_getLast? hlast
  have hempty : "" ∉ namesOf source := fun hnil => (plain_of_mem_namesOf hnil).1 rfl
  have hback : ∀ other, (namesOf source).getLast? = some other → Path.isPart other = true := by
    intro other hother
    rw [hlast, Option.some.injEq] at hother
    rw [← hother]
    exact hpart
  obtain ⟨final, hfinal⟩ : ∃ final, files.locate (Path.ofText source) = some final := by
    refine Option.ne_none_iff_exists'.1 fun hnone => ?_
    simp [FileSystem.isFile, FileSystem.content?, FileSystem.node?, hnone] at hfile
  rw [FileSystem.locate, parts_ofText] at hfinal
  have hfound := mem_foundBy hends (foldl_step_of_foldlM hempty hback hfinal) hsets
  have htext : Match.text (Path.ofText source).root
      { names := namesOf source, location := some final } =
        (Path.ofText source).root ++ "/".intercalate (namesOf source) := by
    simp [Match.text]
  have hsame : Path.ofText ((Path.ofText source).root ++ "/".intercalate (namesOf source)) =
      Path.ofText source := by
    have hplain := fun name (hname : name ∈ namesOf source) => plain_of_mem_namesOf hname
    refine Eq.trans ?_ (congrArg (Path.mk _) (parts_ofText source).symm)
    cases hnames : namesOf source with
    | nil => simp [hnames] at hmem
    | cons first rest =>
        rw [hnames] at hplain
        exact ofText_of_names _ (hplain first List.mem_cons_self).1
          fun name hname => (hplain name hname).2
  have hne : (Path.ofText source).root ++ "/".intercalate (namesOf source) ≠ "" := by
    intro hnil
    rw [hnil] at hsame
    have hparts := (congrArg Path.parts hsame).trans (parts_ofText source)
    have hkept : last ∈ (namesOf source).filter Path.isPart := List.mem_filter.2 ⟨hmem, hpart⟩
    rw [← hparts] at hkept
    contradiction
  rw [pathsOf_eq_of_ok hok]
  rw [← htext] at hne hsame
  exact List.mem_map.2 ⟨_, mem_matchesOf hfound hne, hsame⟩

end Files

end ConfigSchema
