import ConfigSchema.Proofs.DeclarationOrder
import ConfigSchema.Proofs.JsonStrings
import ConfigSchema.Proofs.NamedFiles
import ConfigSchema.Proofs.PatternPlaces

/-!
# The files of a pattern

A source that is read as a pattern stands for all places that the pattern leads to, in the order of
their texts, folders and files alike.  So it loads all files whose names it covers, each of them
once unless it has names of two stars twice, if it leads to nothing else; otherwise it does not
load at all.
-/

namespace ConfigSchema

/-! ## Order of texts -/

namespace Text

theorem codeOf_injective [Runtime] : Function.Injective codeOf :=
  Function.LeftInverse.injective ofCode_codeOf

theorem eq_of_precedes [Runtime] {one other : String} (hone : precedes one other = true)
    (hother : precedes other one = true) : one = other := by
  rw [precedes_iff] at hone hother
  have hcodes := le_antisymm hone hother
  exact String.toList_inj.1 (codeOf_injective.list_map hcodes)

theorem precedes_append [Runtime] (text rest : String) : precedes text (text ++ rest) = true := by
  rw [precedes_iff, String.toList_append, List.map_append]
  exact not_lt.1 (List.le_append_left (α := Nat))

end Text

theorem FileSystem.IsEntryName.isPathName {name : String} (hentry : FileSystem.IsEntryName name) :
    name ≠ "" ∧ '/' ∉ name.toList := by
  refine ⟨?_, hentry.2.2⟩
  rintro rfl
  exact absurd hentry.1 (by decide)

namespace Files

variable {files : FileSystem} {source : String} {place : Match} {names : List String}

/-! ## Texts of places -/

/-- Names that can stand in a path. -/
def ArePathNames (names : List String) : Prop :=
  ∀ name ∈ names, name ≠ "" ∧ '/' ∉ name.toList

/-- A slash at the end stands in front of one more name, which is empty. -/
theorem text_of_names {root first : String} {rest : List String}
    (hnames : place.names = first :: rest) :
    place.text root =
      root ++ "/".intercalate (first :: (rest ++ if place.endsInSlash then [""] else [])) := by
  rw [Match.text, hnames]
  cases place.endsInSlash with
  | false => simp
  | true =>
      have hlast : "/".intercalate (first :: rest ++ [""]) =
          "/".intercalate (first :: rest) ++ "/" ++ "/".intercalate [""] :=
        String.intercalate_append_of_ne_nil (by simp) (by simp)
      rw [if_pos rfl, ← List.cons_append, hlast]
      simp [String.append_assoc]

theorem text_of_nil {root : String} (hnames : place.names = []) : place.text root = root := by
  rw [Match.text, hnames]
  simp

theorem slash_notMem_of_names {first : String} {rest : List String}
    (hnames : ArePathNames (first :: rest)) (slash : Bool) :
    ∀ name ∈ first :: (rest ++ if slash then [""] else []), '/' ∉ name.toList := by
  intro name hname
  rw [← List.cons_append, List.mem_append] at hname
  rcases hname with hname | hlast
  · exact (hnames name hname).2
  · cases slash with
    | false => contradiction
    | true =>
        rw [List.mem_singleton.1 hlast]
        decide

theorem namesOf_rootOf (slashes : Nat) : namesOf (Path.rootOf slashes) = [] := by
  unfold Path.rootOf
  split
  · decide
  · split <;> decide

theorem ofText_rootOf (slashes : Nat) :
    Path.ofText (Path.rootOf slashes) = { root := Path.rootOf slashes } := by
  unfold Path.rootOf
  split
  · decide
  · split <;> decide

theorem namesOf_text (slashes : Nat) (hnames : ArePathNames place.names) :
    namesOf (place.text (Path.rootOf slashes)) = place.names := by
  cases hplace : place.names with
  | nil => rw [text_of_nil hplace, namesOf_rootOf]
  | cons first rest =>
      rw [hplace] at hnames
      have hnonempty : ∀ name ∈ first :: rest, decide (name ≠ "") = true :=
        fun name hname => decide_eq_true (hnames name hname).1
      obtain ⟨count, -, -, hparts⟩ := exists_parts_of_names slashes
        (hnames first List.mem_cons_self).1 (slash_notMem_of_names hnames place.endsInSlash)
      rw [text_of_names hplace, namesOf, hparts, ← List.cons_append, List.filter_append,
        List.filter_append, List.filter_replicate_of_neg (by decide), List.nil_append,
        List.filter_eq_self.2 hnonempty]
      cases place.endsInSlash with
      | false => simp
      | true => simp

theorem ofText_text (slashes : Nat) (hnames : ArePathNames place.names) :
    Path.ofText (place.text (Path.rootOf slashes)) =
      { root := Path.rootOf slashes, parts := place.names.filter Path.isPart } := by
  cases hplace : place.names with
  | nil => rw [text_of_nil hplace, ofText_rootOf, List.filter_nil]
  | cons first rest =>
      rw [hplace] at hnames
      rw [text_of_names hplace, ofText_of_names slashes (hnames first List.mem_cons_self).1
        (slash_notMem_of_names hnames place.endsInSlash), ← List.cons_append, List.filter_append]
      cases place.endsInSlash with
      | false => simp
      | true => simp [Path.isPart]

theorem endsInSlash_of_text {other : Match} (hsame : other.names = place.names)
    (hnames : place.names ≠ []) {root : String} (htext : other.text root = place.text root) :
    other.endsInSlash = place.endsInSlash := by
  have hlength := congrArg String.length htext
  rw [Match.text, Match.text, hsame] at hlength
  cases hother : other.endsInSlash <;> cases hplace : place.endsInSlash <;>
    simp [hother, hplace, hnames] at hlength ⊢

/-! ## Places of a source -/

def segmentsOf (source : String) : List Segment :=
  (namesOf source).map Segment.ofText

/-- No name of a source is one dot or two. -/
def GoesDown (source : String) : Prop :=
  ∀ name ∈ namesOf source, name ≠ "." ∧ name ≠ ".."

theorem eq_of_ofText_eq_plain {name text : String} (hplain : Segment.ofText name = .plain text) :
    name = text := by
  rw [← text_ofText name, hplain]
  rfl

theorem segmentsOf_eq (source : String) :
    segmentsOf source = (frontOf source).map .plain ++ behindOf source := by
  have hfront : (frontOf source).map Segment.ofText = (frontOf source).map .plain := by
    refine List.map_congr_left fun name hname => ?_
    have hplain : (Segment.ofText name).isPlain = true :=
      List.all_eq_true.1 List.all_takeWhile name hname
    cases hsegment : Segment.ofText name with
    | plain text => rw [eq_of_ofText_eq_plain hsegment]
    | wild | anyDepth =>
        rw [hsegment] at hplain
        contradiction
  rw [← hfront, behindOf, frontOf, ← List.map_append, List.takeWhile_append_dropWhile, segmentsOf]

theorem mem_namesOf_of_behindOf {text : String} (hmem : Segment.plain text ∈ behindOf source) :
    text ∈ namesOf source := by
  obtain ⟨name, hname, hplain⟩ := List.mem_map.1 hmem
  rw [← eq_of_ofText_eq_plain hplain]
  exact List.dropWhile_subset _ hname

/-- Where a source leads: from what its names in front of the first wildcard lead to, there or
not, by the names behind. -/
def LeadsTo [Runtime] (files : FileSystem) (source : String) (place : Match) : Prop :=
  Leads files (wantsFolder source) (behindOf source)
    (startAt files (Path.ofText source).root (frontOf source)) place

theorem mem_foundBy_iff [Runtime] (htree : files.IsTree) : place ∈ foundBy files source ↔
    LeadsTo files source place := by
  rw [foundBy, mem_expand_iff htree]
  simp [LeadsTo]

theorem LeadsTo.forall_names [Runtime] {P : String → Prop} (htree : files.IsTree)
    (hentry : ∀ name, FileSystem.IsEntryName name → P name)
    (hsource : ∀ name ∈ namesOf source, P name) (hleads : LeadsTo files source place) :
    ∀ name ∈ place.names, P name := by
  refine Leads.forall_names htree hentry (fun text htext => ?_) hleads fun name hname => ?_
  · exact hsource text (mem_namesOf_of_behindOf htext)
  · exact hsource name (List.takeWhile_subset _ hname)

theorem LeadsTo.arePathNames [Runtime] (htree : files.IsTree)
    (hleads : LeadsTo files source place) :
    ArePathNames place.names :=
  hleads.forall_names htree (fun _ hentry => hentry.isPathName)
    fun _ hname => plain_of_mem_namesOf hname

theorem mem_matchesOf_iff [Runtime] (htree : files.IsTree) {text : String} :
    text ∈ matchesOf files source ↔
      text ≠ "" ∧ ∃ place, LeadsTo files source place ∧
        place.text (Path.ofText source).root = text := by
  rw [matchesOf_eq, List.mem_mergeSort, List.mem_filter, List.mem_map, decide_eq_true_eq,
    and_comm]
  simp only [mem_foundBy_iff htree]

theorem matchesOf_of_sorted [Runtime] {texts : List String}
    (htexts : ((foundBy files source).map (Match.text (Path.ofText source).root)).filter
      (· ≠ "") = texts)
    (hsorted : texts.Pairwise fun one other => Text.precedes one other = true) :
    matchesOf files source = texts := by
  rw [matchesOf_eq, htexts]
  exact List.mergeSort_of_pairwise hsorted

theorem names_of_text [Runtime] (htree : files.IsTree) (hleads : LeadsTo files source place)
    (hnames : ArePathNames names) {slash : Bool}
    (htext : place.text (Path.ofText source).root =
      Match.text (Path.ofText source).root { names, location := none, endsInSlash := slash }) :
    place.names = names := by
  have hread := congrArg namesOf htext
  rw [Path.ofText] at hread
  rw [namesOf_text _ (hleads.arePathNames htree), namesOf_text _ hnames] at hread
  exact hread

theorem isDown_of_mem_behindOf (hdown : GoesDown source) :
    ∀ segment ∈ behindOf source, segment.IsDown := by
  intro segment hsegment
  cases segment with
  | plain text => exact hdown text (mem_namesOf_of_behindOf hsegment)
  | wild | anyDepth => trivial

/-- What a pattern finds is just what it covers. -/
theorem mem_matchesOf_iff_covers [Runtime] (htree : files.IsTree) (hdown : GoesDown source)
    (hends : wantsFolder source = false) (hnames : names ≠ []) {node : FileNode}
    (hnode : files.root.at? (files.start (Path.ofText source) ++ names) = some node) :
    (Path.ofText source).root ++ "/".intercalate names ∈ matchesOf files source ↔
      Covers (segmentsOf source) names := by
  have hpath : ArePathNames names :=
    fun name hname => (isEntryName_of_node htree hnode name hname).isPathName
  have hstart : ∀ later, names = frontOf source ++ later →
      startAt files (Path.ofText source).root (frontOf source) =
        { names := frontOf source
          location := some (files.start (Path.ofText source) ++ frontOf source) } := by
    rintro later rfl
    obtain ⟨upper, hupper, -⟩ := exists_node_on_way _ hnode
    have hfront := foldl_step_of_isDown
      (fun name hname => hdown name (List.takeWhile_subset _ hname)) hupper
    exact congrArg (Match.mk _ · false) hfront
  have htext : Match.text (Path.ofText source).root { names, location := none } =
      (Path.ofText source).root ++ "/".intercalate names := by
    simp [Match.text]
  rw [mem_matchesOf_iff htree, segmentsOf_eq, covers_append_iff, ← htext]
  constructor
  · rintro ⟨-, place, hleads, hplace⟩
    have hsame := names_of_text htree hleads hpath hplace
    have hslash := endsInSlash_of_text hsame hnames hplace
    obtain ⟨later, hlater⟩ := Leads.names_isPrefix hleads
    rw [hsame] at hlater
    rw [LeadsTo, hends, hstart later hlater.symm] at hleads
    obtain ⟨more, hmore, -, hcovers⟩ :=
      covers_of_leads (isDown_of_mem_behindOf hdown) hleads rfl hslash
    exact ⟨more, hsame.symm.trans hmore, hcovers⟩
  · rintro ⟨later, rfl, hcovers⟩
    have hleads : LeadsTo files source
        { names := frontOf source ++ later
          location := some (files.start (Path.ofText source) ++ frontOf source ++ later) } := by
      rw [LeadsTo, hends, hstart later rfl]
      rw [← List.append_assoc] at hnode
      exact leads_of_covers hcovers (isDown_of_mem_behindOf hdown) hnode fun _ => rfl
    refine ⟨?_, _, hleads, rfl⟩
    intro hempty
    have hread := congrArg namesOf hempty
    rw [Path.ofText, namesOf_text _ hpath] at hread
    exact hnames hread

/-- The place of a text that a pattern finds, if the pattern goes down only. -/
theorem placeOf_text [Runtime] (htree : files.IsTree) (hdown : GoesDown source)
    (hleads : LeadsTo files source place) :
    files.placeOf (Path.ofText (place.text (Path.ofText source).root)) =
      files.start (Path.ofText source) ++ place.names := by
  have hnames : ∀ name ∈ place.names, Path.isPart name = true ∧ name ≠ ".." := by
    refine hleads.forall_names htree (fun _ hentry => ⟨hentry.1, hentry.2.1⟩) fun name hname => ?_
    refine ⟨?_, (hdown name hname).2⟩
    simp [Path.isPart, (hdown name hname).1, (plain_of_mem_namesOf hname).1]
  have hread : Path.ofText (place.text (Path.ofText source).root) =
      { root := (Path.ofText source).root, parts := place.names } := by
    refine (ofText_text _ (hleads.arePathNames htree)).trans (congrArg (Path.mk _) ?_)
    exact List.filter_eq_self.2 fun name hname => (hnames name hname).1
  have hfollow : ∀ (names : List String) (location : Location), (∀ name ∈ names, name ≠ "..") →
      names.foldl FileSystem.follow location = location ++ names := by
    intro names
    induction names with
    | nil => simp
    | cons first rest ih =>
        intro location hall
        rw [List.forall_mem_cons] at hall
        rw [List.foldl_cons, FileSystem.follow, if_neg hall.1, ih _ hall.2, List.append_assoc]
        rfl
  rw [hread]
  exact hfollow _ _ fun name hname => (hnames name hname).2

/-- A pattern that goes down, with one name of two stars at most, finds no place twice. -/
theorem nodup_placeOf_matchesOf [Runtime] (htree : files.IsTree) (hdown : GoesDown source)
    (hdepths : (namesOf source).count "**" ≤ 1) :
    ((matchesOf files source).map fun text => files.placeOf (Path.ofText text)).Nodup := by
  have hcount : (behindOf source).count .anyDepth ≤ 1 := by
    have hstars : ∀ name, (Segment.ofText name == .anyDepth) = (name == "**") := by
      intro name
      rw [Bool.eq_iff_iff, beq_iff_eq, beq_iff_eq]
      refine ⟨fun hdepth => ?_, fun hname => by rw [hname]; rfl⟩
      rw [← text_ofText name, hdepth]
      rfl
    rw [behindOf, List.count_eq_countP, List.countP_map]
    refine le_trans ?_ hdepths
    rw [List.count_eq_countP]
    refine le_of_eq_of_le (List.countP_congr fun name _ => ?_) (List.dropWhile_sublist _).countP_le
    rw [Function.comp_apply, hstars]
  have hfound : ((foundBy files source).map (·.names)).Nodup :=
    nodup_names_expand htree hcount (List.nodup_singleton _)
      fun _ => ⟨_, fun start hstart => by rw [List.mem_singleton.1 hstart]⟩
  have hplaces : ((foundBy files source).map (Match.text (Path.ofText source).root)).map
      (fun text => files.placeOf (Path.ofText text)) =
        ((foundBy files source).map (·.names)).map (files.start (Path.ofText source) ++ ·) := by
    rw [List.map_map, List.map_map]
    refine List.map_congr_left fun place hplace => ?_
    rw [Function.comp_apply, Function.comp_apply]
    exact placeOf_text htree hdown ((mem_foundBy_iff htree).1 hplace)
  rw [matchesOf_eq, ((List.mergeSort_perm _ _).map _).nodup_iff]
  refine List.Nodup.sublist (List.filter_sublist.map _) ?_
  rw [hplaces]
  exact hfound.map fun _ _ hsame => List.append_cancel_left hsame

theorem text_of_not_endsInSlash {root : String} (hslash : place.endsInSlash = false) :
    place.text root = root ++ "/".intercalate place.names := by
  simp [Match.text, hslash]

theorem text_of_endsInSlash {root : String} (hslash : place.endsInSlash = true)
    (hnames : place.names ≠ []) : place.text root = root ++ "/".intercalate place.names ++ "/" := by
  simp [Match.text, hslash, hnames]

/-- Where the names of a pattern in front of two stars lead to a folder. -/
def LeadsToFolder (files : FileSystem) (source : String) : Prop :=
  (files.at? (startAt files (Path.ofText source).root (frontOf source)).location).any
    FileNode.isFolder = true

theorem foundBy_of_depths [Runtime] (hnames : namesOf source = frontOf source ++ ["**"])
    (hends : wantsFolder source = false) :
    foundBy files source = Segment.anyDepth.extend files false
      (startAt files (Path.ofText source).root (frontOf source)) := by
  have hbehind : behindOf source = [.anyDepth] := by
    have hsplit := List.takeWhile_append_dropWhile (p := isPlainName) (l := namesOf source)
    rw [← frontOf, hnames] at hsplit
    rw [behindOf, hnames, List.append_cancel_left hsplit]
    rfl
  rw [foundBy, hbehind, hends]
  simp [expand]

/-- Names and two stars find the names themselves first, with a slash behind them. -/
theorem head?_matchesOf_of_depths [Runtime] (htree : files.IsTree) (hfront : frontOf source ≠ [])
    (hnames : namesOf source = frontOf source ++ ["**"]) (hends : wantsFolder source = false)
    (hpassable : Runtime.starsNeedFolder = true → LeadsToFolder files source) :
    (matchesOf files source).head? =
      some ((Path.ofText source).root ++ "/".intercalate (frontOf source) ++ "/") := by
  have hleads : ∀ place, LeadsTo files source place ↔ place ∈ Segment.anyDepth.extend files false
      (startAt files (Path.ofText source).root (frontOf source)) := by
    intro place
    rw [← mem_foundBy_iff htree, foundBy_of_depths hnames hends]
  have hself : Match.text (Path.ofText source).root
      { startAt files (Path.ofText source).root (frontOf source) with endsInSlash := true } =
        (Path.ofText source).root ++ "/".intercalate (frontOf source) ++ "/" :=
    text_of_endsInSlash rfl hfront
  -- Every other text goes on behind that slash.
  have hothers : ∀ text ∈ matchesOf files source, ∃ more,
      text = (Path.ofText source).root ++ "/".intercalate (frontOf source) ++ "/" ++ more := by
    intro text htext
    obtain ⟨-, place, hplace, rfl⟩ := (mem_matchesOf_iff htree).1 htext
    rcases (mem_extend_anyDepth_iff htree).1 ((hleads place).1 hplace) with
      ⟨-, rfl⟩ | ⟨location, way, node, hstart, hway, -, -, -, rfl⟩
    · exact ⟨"", by rw [hself, String.append_empty]⟩
    · refine ⟨"/".intercalate way, ?_⟩
      have hjoined : "/".intercalate (frontOf source ++ way) =
          "/".intercalate (frontOf source) ++ "/" ++ "/".intercalate way :=
        String.intercalate_append_of_ne_nil hfront hway
      rw [text_of_not_endsInSlash rfl, startAt, hjoined]
      simp only [String.append_assoc]
  have hmem : (Path.ofText source).root ++ "/".intercalate (frontOf source) ++ "/" ∈
      matchesOf files source := by
    rw [mem_matchesOf_iff htree, ← hself]
    refine ⟨?_, _, (hleads _).2 ((mem_extend_anyDepth_iff htree).2 (.inl ⟨hpassable, rfl⟩)), rfl⟩
    rw [hself, ne_eq, String.append_eq_empty_iff]
    exact fun hempty => absurd hempty.2 (by decide)
  have hsorted := sorted_matchesOf files source
  cases hmatches : matchesOf files source with
  | nil =>
      rw [hmatches] at hmem
      contradiction
  | cons first rest =>
      rw [hmatches] at hmem hsorted hothers
      obtain ⟨more, rfl⟩ := hothers first List.mem_cons_self
      rcases List.mem_cons.1 hmem with heq | hlater
      · rw [List.head?_cons, ← heq]
      · have hback := (List.pairwise_cons.1 hsorted).1 _ hlater
        rw [List.head?_cons, Text.eq_of_precedes hback (Text.precedes_append _ _)]

/-- If two stars need a folder, they find nothing elsewhere. -/
theorem matchesOf_of_not_leadsToFolder [Runtime]
    (hnames : namesOf source = frontOf source ++ ["**"]) (hends : wantsFolder source = false)
    (hstars : Runtime.starsNeedFolder = true) (hfolder : ¬ LeadsToFolder files source) :
    matchesOf files source = [] := by
  rw [LeadsToFolder, Bool.not_eq_true] at hfolder
  have hnone : entriesAt files (startAt files (Path.ofText source).root
      (frontOf source)).location = [] := by
    rcases entriesAt_cases files (startAt files (Path.ofText source).root
      (frontOf source)).location with hentries | hnone
    · rw [hentries, Option.any_some] at hfolder
      contradiction
    · exact hnone
  have hfound : foundBy files source = [] := by
    rw [foundBy_of_depths hnames hends, Segment.extend, hstars, hfolder, Segment.below,
      ← entriesAt, hnone]
    rfl
  rw [matchesOf_eq, hfound, List.map_nil, List.filter_nil, List.mergeSort_nil]

/-- With enough room, the only fault that a pattern can have is one of its names. -/
theorem faultOf?_of_hasRoomFor [Runtime] (htree : files.IsTree) {depth : Nat}
    (hdepth : HasDepth files depth)
    (hroom : Runtime.HasRoomFor (depth + (namesOf source).length + 2)) :
    faultOf? files source =
      (nameFault? ("/".intercalate (frontOf source))).map PatternFault.unnamable := by
  have hbehind : (behindOf source).length ≤ (namesOf source).length := by
    rw [behindOf, List.length_map]
    exact (List.dropWhile_sublist _).length_le
  have hlength := length_whileFollowing_le (wantsFolder source) (behindOf source)
  have hnames := hroom (whileFollowing (wantsFolder source) (behindOf source)) (by omega)
  rw [faultOf?, patternFault?, hnames,
    canExpand_of_hasRoomFor htree hdepth (hroom.mono (by omega))]
  cases nameFault? ("/".intercalate (frontOf source)) <;> rfl

end Files

/-! ## Documents of a source -/

namespace Sources

variable {around : Surroundings} {source : String} {pattern : String} {path : Path}

theorem documentOfText_ne_noMatch [Runtime] {origin text : String} :
    documentOfText origin text ≠ .error (.noMatch pattern) := by
  unfold documentOfText
  split <;> simp

theorem documentOfValue_ne_noMatch [Runtime] {origin : String} {value : Json} :
    documentOfValue origin value ≠ .error (.noMatch pattern) := by
  unfold documentOfValue
  split
  · split
    · simp
    · simp
    · split
      · simp
      · split <;> simp
  · simp

theorem documentOf_file_ne_noMatch [Runtime] :
    documentOf around (.file path) ≠ .error (.noMatch pattern) := by
  rw [documentOf, documentOfFile]
  split
  · simp
  · split
    · simp
    · split
      · split
        · simp
        · simp
        · exact documentOfValue_ne_noMatch
      · exact documentOfText_ne_noMatch

theorem documentOf_of_not_isFile [Runtime] (hfile : around.files.isFile path = false) :
    documentOf around (.file path) = .error (.unreadable path) := by
  have hcontent : around.files.content? path = none := by
    rw [FileSystem.isFile] at hfile
    exact Option.isSome_eq_false_iff.1 hfile |> Option.isNone_iff_eq_none.1
  rw [documentOf, documentOfFile, hcontent]

/-- The documents of what a pattern finds. -/
theorem result_documents_of_isGlob [Runtime] (hurl : isUrl source = false)
    (hglob : isGlob source = true) :
    (documents around source).result =
      match Files.faultOf? around.files source with
      | some fault => .error (unfollowed source fault)
      | none =>
          if Files.matchesOf around.files source = [] then .error (.noMatch source)
          else (Files.matchesOf around.files source).mapM fun text =>
            documentOf around (.file (Path.ofText text)) := by
  rw [result_documents, originsOf_of_isGlob hurl hglob, Files.pathsOf_eq]
  cases Files.faultOf? around.files source with
  | some fault => rfl
  | none =>
      cases hmatches : Files.matchesOf around.files source with
      | nil => rfl
      | cons first rest =>
          rw [if_neg (List.cons_ne_nil first rest)]
          change (Except.ok _).bind _ = _
          rw [Except.bind, List.map_map, List.mapM_map]
          rfl

/-- What becomes of a source that is read as a pattern. -/
structure LoadsMatches [Runtime] (around : Surroundings) (source : String) : Prop where
  sorted : (Files.matchesOf around.files source).Pairwise
    fun one other => Text.precedes one other = true
  leads : around.files.IsTree → ∀ text, text ∈ Files.matchesOf around.files source ↔
    text ≠ "" ∧ ∃ place, Files.LeadsTo around.files source place ∧
      place.text (Path.ofText source).root = text
  /-- Of what is there, the pattern finds what it covers. -/
  covers : around.files.IsTree → Files.GoesDown source → Files.wantsFolder source = false →
    ∀ names node, names ≠ [] →
      around.files.root.at? (around.files.start (Path.ofText source) ++ names) = some node →
        ((Path.ofText source).root ++ "/".intercalate names ∈
          Files.matchesOf around.files source ↔ Files.Covers (Files.segmentsOf source) names)
  once : around.files.IsTree → Files.GoesDown source → (Files.namesOf source).count "**" ≤ 1 →
    ((Files.matchesOf around.files source).map fun text =>
      around.files.placeOf (Path.ofText text)).Nodup
  nothing : (documents around source).result = .error (.noMatch source) ↔
    Files.matchesOf around.files source = []
  loads : ∀ found, (documents around source).result = .ok found ↔
    Files.matchesOf around.files source ≠ [] ∧
      List.Forall₂
        (fun text document => documentOf around (.file (Path.ofText text)) = .ok document)
        (Files.matchesOf around.files source) found
  /-- The first match that is no file ends the loading. -/
  unreadable : ∀ before text after,
    Files.matchesOf around.files source = before ++ text :: after →
    (∀ earlier ∈ before, ∃ document,
      documentOf around (.file (Path.ofText earlier)) = .ok document) →
    around.files.isFile (Path.ofText text) = false →
    (documents around source).result = .error (.unreadable (Path.ofText text))
  /-- Two stars behind names find the names themselves, unless they need a folder there. -/
  depths : around.files.IsTree → Files.wantsFolder source = false → Files.frontOf source ≠ [] →
    Files.namesOf source = Files.frontOf source ++ ["**"] →
    (Runtime.starsNeedFolder = true → Files.LeadsToFolder around.files source) →
    let path : Path := { root := (Path.ofText source).root
                         parts := (Files.frontOf source).filter Path.isPart }
    around.files.isFile path = false →
    (documents around source).result = .error (.unreadable path)
  noFolder : Files.wantsFolder source = false →
    Files.namesOf source = Files.frontOf source ++ ["**"] → Runtime.starsNeedFolder = true →
    ¬ Files.LeadsToFolder around.files source →
    (documents around source).result = .error (.noMatch source)

theorem loadsMatches_of_isGlob [Runtime] (hurl : isUrl source = false)
    (hglob : isGlob source = true) (hfault : Files.faultOf? around.files source = none) :
    LoadsMatches around source := by
  have hresult : (documents around source).result =
      if Files.matchesOf around.files source = [] then .error (.noMatch source)
      else (Files.matchesOf around.files source).mapM fun text =>
        documentOf around (.file (Path.ofText text)) := by
    rw [result_documents_of_isGlob hurl hglob, hfault]
  have hunreadable : ∀ before text after,
      Files.matchesOf around.files source = before ++ text :: after →
      (∀ earlier ∈ before, ∃ document,
        documentOf around (.file (Path.ofText earlier)) = .ok document) →
      around.files.isFile (Path.ofText text) = false →
      (documents around source).result = .error (.unreadable (Path.ofText text)) := by
    intro before text after hmatches hbefore hfile
    rw [hresult, if_neg (by simp [hmatches]), Results.mapM_eq_error_iff]
    exact ⟨before, text, after, hmatches, hbefore, documentOf_of_not_isFile hfile⟩
  constructor
  case sorted => exact Files.sorted_matchesOf around.files source
  case leads => exact fun htree text => Files.mem_matchesOf_iff htree
  case covers =>
    intro htree hdown hends names node hnames hnode
    exact Files.mem_matchesOf_iff_covers htree hdown hends hnames hnode
  case once => exact Files.nodup_placeOf_matchesOf
  case nothing =>
    rw [hresult]
    by_cases hmatches : Files.matchesOf around.files source = []
    · simp [hmatches]
    · rw [if_neg hmatches]
      simp only [hmatches, iff_false]
      intro herror
      obtain ⟨text, -, hdocument⟩ := Results.exists_error_of_mapM herror
      exact documentOf_file_ne_noMatch hdocument
  case loads =>
    intro found
    rw [hresult]
    by_cases hmatches : Files.matchesOf around.files source = []
    · simp [hmatches]
    · rw [if_neg hmatches, Results.mapM_eq_ok_iff]
      exact ⟨fun hall => ⟨hmatches, hall⟩, fun hboth => hboth.2⟩
  case unreadable => exact hunreadable
  case depths =>
    intro htree hends hnames hsource hpassable path hfile
    have hhead := Files.head?_matchesOf_of_depths htree hnames hsource hends hpassable
    obtain ⟨rest, hmatches⟩ := List.head?_eq_some_iff.1 hhead
    have hpath : Path.ofText ((Path.ofText source).root ++ "/".intercalate (Files.frontOf source) ++
        "/") = path := by
      have hplain : Files.ArePathNames (Files.frontOf source) :=
        fun name hname => Files.plain_of_mem_namesOf (List.takeWhile_subset _ hname)
      have htext : Files.Match.text (Path.ofText source).root
          { names := Files.frontOf source, location := none, endsInSlash := true } =
            (Path.ofText source).root ++ "/".intercalate (Files.frontOf source) ++ "/" :=
        Files.text_of_endsInSlash rfl hnames
      rw [← htext]
      exact Files.ofText_text _ hplain
    rw [← hpath] at hfile ⊢
    exact hunreadable [] _ rest hmatches (by simp) hfile
  case noFolder =>
    intro hends hnames hstars hfolder
    rw [hresult, if_pos (Files.matchesOf_of_not_leadsToFolder hnames hends hstars hfolder)]

/-- A source that is read as a pattern stands for all that it leads to, in order.  It loads if these
are files that load, one at least; what it leads to holds the files whose names it covers, once if
it names two stars once, but also folders, and those end the loading.  If it cannot be followed it
fails for that, which it does only for a name if there is room enough. -/
theorem patterns_load_their_matches [Runtime] (around : Surroundings) (source : String)
    (hurl : isUrl source = false) (hglob : isGlob source = true) :
    (Files.faultOf? around.files source = none → LoadsMatches around source) ∧
    (∀ fault, Files.faultOf? around.files source = some fault →
      (documents around source).result = .error (unfollowed source fault)) ∧
    (around.files.IsTree → ∀ depth, Files.HasDepth around.files depth →
      Runtime.HasRoomFor (depth + (Files.namesOf source).length + 2) →
      Files.faultOf? around.files source =
        (Files.nameFault? ("/".intercalate (Files.frontOf source))).map .unnamable) := by
  refine ⟨loadsMatches_of_isGlob hurl hglob, ?_, ?_⟩
  · intro fault hfault
    rw [result_documents_of_isGlob hurl hglob, hfault]
  · intro htree depth hdepth hroom
    exact Files.faultOf?_of_hasRoomFor htree hdepth hroom

/-- Two files, one of them in a folder beside the other one. -/
def nestedFiles : FileSystem :=
  { root := .folder [("schemas", .folder [
      ("crate.graphql", .file "type Crate \x7b size: Int \x7d".toUTF8),
      ("more", .folder [("shelf.graphql", .file "type Shelf \x7b size: Int \x7d".toUTF8)])])] }

def nestedSurroundings : Surroundings :=
  { bareSurroundings with files := nestedFiles }

section Usual

attribute [local instance] Runtime.usual

theorem nestedFiles_load_matches :
    (∃ found, (documents nestedSurroundings "schemas/**/*.graphql").result = .ok found ∧
      List.Forall₂ (fun text document =>
          documentOf nestedSurroundings (.file (Path.ofText text)) = .ok document)
        (Files.matchesOf nestedFiles "schemas/**/*.graphql") found) ∧
      "schemas/more/shelf.graphql" ∈ Files.matchesOf nestedFiles "schemas/**/*.graphql" ∧
      ((Files.matchesOf nestedFiles "schemas/**/*.graphql").map fun text =>
        nestedFiles.placeOf (Path.ofText text)).Nodup ∧
      (documents nestedSurroundings "schemas/**").result =
        .error (.unreadable { parts := ["schemas"] }) ∧
      (documents nestedSurroundings "schemas/*").result =
        .error (.unreadable { parts := ["schemas", "more"] }) ∧
      (documents nestedSurroundings "*.gql").result = .error (.noMatch "*.gql") ∧
      (documents nestedSurroundings "\x00/*").result = .error (.unnamable "\x00/*" .zero) := by
  have htree : nestedFiles.IsTree := by decide +kernel
  have hdeep := (patterns_load_their_matches nestedSurroundings "schemas/**/*.graphql"
    (by decide +kernel) (by decide +kernel)).1 (by decide +kernel)
  have hfolder := (patterns_load_their_matches nestedSurroundings "schemas/**"
    (by decide +kernel) (by decide +kernel)).1 (by decide +kernel)
  have hflat := (patterns_load_their_matches nestedSurroundings "schemas/*"
    (by decide +kernel) (by decide +kernel)).1 (by decide +kernel)
  have hnothing := (patterns_load_their_matches nestedSurroundings "*.gql"
    (by decide +kernel) (by decide +kernel)).1 (by decide +kernel)
  have hfault := (patterns_load_their_matches nestedSurroundings "\x00/*"
    (by decide +kernel) (by decide +kernel)).2.1 (.unnamable .zero) (by decide +kernel)
  have hdown : Files.GoesDown "schemas/**/*.graphql" := by
    have hnames : Files.namesOf "schemas/**/*.graphql" = ["schemas", "**", "*.graphql"] := by
      decide +kernel
    rw [Files.GoesDown, hnames]
    decide
  have hreads : ∀ text, (documentOf nestedSurroundings (.file (Path.ofText text))).toOption.isSome =
      true → ∃ document,
        documentOf nestedSurroundings (.file (Path.ofText text)) = .ok document := by
    intro text hsome
    obtain ⟨document, hdocument⟩ := Option.isSome_iff_exists.1 hsome
    exact ⟨document, Results.eq_ok_of_toOption hdocument⟩
  obtain ⟨crate, hcrate⟩ := hreads "schemas/crate.graphql" (by decide +kernel)
  refine ⟨?_, ?_, hdeep.once htree hdown (by decide +kernel), ?_, ?_,
    hnothing.nothing.2 (by decide +kernel), hfault⟩
  · have hmatches : Files.matchesOf nestedFiles "schemas/**/*.graphql" =
        ["schemas/crate.graphql", "schemas/more/shelf.graphql"] :=
      Files.matchesOf_of_sorted (by decide +kernel) (by decide +kernel)
    obtain ⟨shelf, hshelf⟩ := hreads "schemas/more/shelf.graphql" (by decide +kernel)
    have hall : List.Forall₂ (fun text document =>
          documentOf nestedSurroundings (.file (Path.ofText text)) = .ok document)
        (Files.matchesOf nestedFiles "schemas/**/*.graphql") [crate, shelf] := by
      rw [hmatches]
      exact .cons hcrate (.cons hshelf .nil)
    exact ⟨_, (hdeep.loads _).2 ⟨by simp [nestedSurroundings, hmatches], hall⟩, hall⟩
  · have hsegments : Files.segmentsOf "schemas/**/*.graphql" =
        [.plain "schemas", .anyDepth, .wild "*.graphql"] := by decide +kernel
    have hcovers : Files.Covers [.plain "schemas", .anyDepth, .wild "*.graphql"]
        ["schemas", "more", "shelf.graphql"] := by
      have hlast : Files.Covers [.wild "*.graphql"] ["shelf.graphql"] :=
        .wild (by decide +kernel) .nil
      have hdepths : Files.Covers [.anyDepth, .wild "*.graphql"] (["more"] ++ ["shelf.graphql"]) :=
        .depths (by decide) (by simp) hlast
      exact .plain hdepths
    have hfind := hdeep.covers htree hdown (by decide +kernel)
      ["schemas", "more", "shelf.graphql"] _ (by simp) rfl
    rw [hsegments] at hfind
    exact hfind.2 hcovers
  · exact hfolder.depths htree (by decide +kernel) (by decide +kernel) (by decide +kernel)
      (fun hstars => absurd hstars (by decide)) (by decide +kernel)
  · have hmatches : Files.matchesOf nestedFiles "schemas/*" =
        ["schemas/crate.graphql", "schemas/more"] :=
      Files.matchesOf_of_sorted (by decide +kernel) (by decide +kernel)
    refine hflat.unreadable ["schemas/crate.graphql"] "schemas/more" [] hmatches ?_
      (by decide +kernel)
    intro earlier hearlier
    rw [List.mem_singleton.1 hearlier]
    exact ⟨crate, hcrate⟩

/-- Two stars behind a name that is not there find it, unless they need a folder. -/
example :
    Files.pathsOf nestedFiles "missing/**" = .ok [{ parts := ["missing"] }] ∧
      @Files.pathsOf { Runtime.usual with starsNeedFolder := true } nestedFiles "missing/**" =
        .ok [] := by
  decide +kernel

end Usual

end Sources

end ConfigSchema
