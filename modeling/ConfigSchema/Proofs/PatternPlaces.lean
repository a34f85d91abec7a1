import ConfigSchema.Proofs.PatternMatches

/-!
# Where patterns lead

A pattern leads from a place on by its names, one after the other.  In a tree whose entries have
proper names, each place is found as often as the pattern leads there, which is once if the pattern
has one name of two stars at most.
-/

namespace ConfigSchema

namespace FileNode

/-- No two entries of a folder have one name. -/
def HasUniqueNames (tree : FileNode) : Prop :=
  ∀ place entries, tree.at? place = some (.folder entries) → (Entries.names entries).Nodup

variable {tree node child : FileNode} {entries : List (String × FileNode)} {name : String}
  {way rest : Location}

theorem HasUniqueNames.of_entry (hunique : (FileNode.folder entries).HasUniqueNames)
    (hmem : (name, child) ∈ entries) : child.HasUniqueNames := by
  intro place others hplace
  refine hunique (name :: place) others ?_
  rw [at?, FileNode.entries, Entries.get?_eq_some_of_mem (hunique [] entries rfl) hmem]
  exact hplace

theorem at?_folder_cons_iff (hnodup : (Entries.names entries).Nodup) :
    (FileNode.folder entries).at? (name :: rest) = some node ↔
      ∃ child, (name, child) ∈ entries ∧ child.at? rest = some node := by
  rw [at?, FileNode.entries, Option.bind_eq_some_iff]
  constructor
  · rintro ⟨child, hget, hnode⟩
    exact ⟨child, Entries.mem_of_get? hget, hnode⟩
  · rintro ⟨child, hmem, hnode⟩
    exact ⟨child, Entries.get?_eq_some_of_mem hnodup hmem, hnode⟩

theorem at?_append (tree : FileNode) (place rest : Location) :
    tree.at? (place ++ rest) = (tree.at? place).bind fun node => node.at? rest := by
  induction place generalizing tree with
  | nil => rfl
  | cons name place ih =>
      rw [List.cons_append, at?, at?]
      cases Entries.get? name tree.entries with
      | none => rfl
      | some child => exact ih child

theorem HasUniqueNames.at? (hunique : tree.HasUniqueNames) {place : Location}
    (hnode : tree.at? place = some node) : node.HasUniqueNames := by
  intro rest entries hrest
  refine hunique (place ++ rest) entries ?_
  rw [at?_append, hnode]
  exact hrest

theorem hasUniqueNames_empty : (FileNode.folder []).HasUniqueNames := by
  intro place entries hplace
  cases place with
  | nil =>
      cases hplace
      exact List.nodup_nil
  | cons name rest => contradiction

theorem mem_inside_of_at? (base : Location) (hrest : rest ≠ [])
    (hnode : tree.at? rest = some node) :
    (base ++ rest, node) ∈ tree.inside base := by
  induction rest generalizing tree base with
  | nil => exact absurd rfl hrest
  | cons name later ih =>
      rw [at?, Option.bind_eq_some_iff] at hnode
      obtain ⟨child, hget, hnode⟩ := hnode
      cases tree with
      | file content => contradiction
      | folder entries =>
          obtain ⟨hself, hbelow⟩ := mem_insideEntries_of_entry base (Entries.mem_of_get? hget)
          rw [inside]
          cases later with
          | nil =>
              obtain rfl := Option.some.inj hnode
              exact hself
          | cons next others =>
              rw [List.append_cons]
              exact hbelow _ (ih (base ++ [name]) (by simp) hnode)

mutual

theorem exists_of_mem_inside (base : Location) (tree : FileNode) (hunique : tree.HasUniqueNames)
    (hmem : (way, node) ∈ tree.inside base) :
    ∃ rest, rest ≠ [] ∧ way = base ++ rest ∧ tree.at? rest = some node := by
  cases tree with
  | file content =>
      rw [inside] at hmem
      contradiction
  | folder entries =>
      rw [inside] at hmem
      obtain ⟨name, child, later, hentry, hnode, rfl⟩ :=
        exists_of_mem_insideEntries base entries (fun _ hentry => hunique.of_entry hentry) hmem
      exact ⟨name :: later, by simp, rfl,
        (at?_folder_cons_iff (hunique [] entries rfl)).2 ⟨child, hentry, hnode⟩⟩

theorem exists_of_mem_insideEntries (base : Location) (entries : List (String × FileNode))
    (hunique : ∀ entry ∈ entries, entry.2.HasUniqueNames)
    (hmem : (way, node) ∈ insideEntries base entries) :
    ∃ name child rest, (name, child) ∈ entries ∧ child.at? rest = some node ∧
      way = base ++ name :: rest := by
  cases entries with
  | nil =>
      rw [insideEntries] at hmem
      contradiction
  | cons entry others =>
      obtain ⟨first, tree⟩ := entry
      rw [List.forall_mem_cons] at hunique
      rw [insideEntries, List.mem_cons, List.mem_append] at hmem
      rcases hmem with hself | hbelow | hlater
      · obtain ⟨rfl, rfl⟩ := Prod.mk.inj hself
        exact ⟨first, node, [], List.mem_cons_self, rfl, rfl⟩
      · obtain ⟨rest, -, rfl, hnode⟩ := exists_of_mem_inside _ tree hunique.1 hbelow
        exact ⟨first, tree, rest, List.mem_cons_self, hnode, List.append_assoc base [first] rest⟩
      · obtain ⟨name, child, rest, hentry, hnode, rfl⟩ :=
          exists_of_mem_insideEntries base others hunique.2 hlater
        exact ⟨name, child, rest, List.mem_cons_of_mem _ hentry, hnode, rfl⟩

end

/-- What is inside a folder is what can be reached from it. -/
theorem mem_inside_iff (base : Location) (tree : FileNode) (hunique : tree.HasUniqueNames) :
    (way, node) ∈ tree.inside base ↔
      ∃ rest, rest ≠ [] ∧ way = base ++ rest ∧ tree.at? rest = some node := by
  constructor
  · exact exists_of_mem_inside base tree hunique
  · rintro ⟨rest, hrest, rfl, hnode⟩
    exact mem_inside_of_at? base hrest hnode

mutual

theorem nodup_inside (base : Location) (tree : FileNode) (hunique : tree.HasUniqueNames) :
    ((tree.inside base).map (·.1)).Nodup := by
  cases tree with
  | file content => exact List.nodup_nil
  | folder entries =>
      rw [inside]
      exact nodup_insideEntries base entries (hunique [] entries rfl)
        fun _ hentry => hunique.of_entry hentry

theorem nodup_insideEntries (base : Location) (entries : List (String × FileNode))
    (hnodup : (Entries.names entries).Nodup)
    (hunique : ∀ entry ∈ entries, entry.2.HasUniqueNames) :
    ((insideEntries base entries).map (·.1)).Nodup := by
  cases entries with
  | nil => exact List.nodup_nil
  | cons entry others =>
      obtain ⟨first, tree⟩ := entry
      rw [List.forall_mem_cons] at hunique
      rw [Entries.names_cons, List.nodup_cons] at hnodup
      rw [insideEntries, List.map_cons, List.map_append, List.nodup_cons, List.nodup_append',
        List.mem_append, not_or]
      refine ⟨⟨?_, ?_⟩, nodup_inside _ tree hunique.1,
        nodup_insideEntries base others hnodup.2 hunique.2, ?_⟩
      · rw [List.mem_map]
        rintro ⟨⟨way, node⟩, hmem, hway⟩
        obtain ⟨rest, hrest, rfl, -⟩ := exists_of_mem_inside _ tree hunique.1 hmem
        exact hrest (List.append_right_eq_self.1 hway)
      · rw [List.mem_map]
        rintro ⟨⟨way, node⟩, hmem, hway⟩
        obtain ⟨name, child, rest, hentry, -, rfl⟩ :=
          exists_of_mem_insideEntries base others hunique.2 hmem
        obtain ⟨rfl, -⟩ := List.cons.inj (List.append_cancel_left hway)
        exact hnodup.1 (List.mem_map.2 ⟨_, hentry, rfl⟩)
      · intro way hin hout
        obtain ⟨⟨_, node⟩, hmem, rfl⟩ := List.mem_map.1 hin
        obtain ⟨rest, -, hway, -⟩ := exists_of_mem_inside _ tree hunique.1 hmem
        obtain ⟨⟨_, other⟩, hother, rfl⟩ := List.mem_map.1 hout
        obtain ⟨name, child, later, hentry, -, hback⟩ :=
          exists_of_mem_insideEntries base others hunique.2 hother
        rw [hback, List.append_assoc] at hway
        obtain ⟨rfl, -⟩ := List.cons.inj (List.append_cancel_left hway)
        exact hnodup.1 (List.mem_map.2 ⟨_, hentry, rfl⟩)

end

end FileNode

namespace FileSystem

/-- A name that an entry of a folder can have. -/
def IsEntryName (name : String) : Prop :=
  Path.isPart name = true ∧ name ≠ ".." ∧ '/' ∉ name.toList

/-- The entries of every folder have names, and no two of them the same. -/
structure IsTree (files : FileSystem) : Prop where
  unique : files.root.HasUniqueNames
  proper : ∀ place entries, files.root.at? place = some (.folder entries) →
    ∀ name ∈ Entries.names entries, IsEntryName name

theorem isTree_iff {files : FileSystem} :
    files.IsTree ↔ ∀ entry ∈ ([], files.root) :: files.root.inside [],
      (Entries.names entry.2.entries).Nodup ∧
        ∀ name ∈ Entries.names entry.2.entries, IsEntryName name := by
  constructor
  · intro htree entry hentry
    have hnode : ∃ place, files.root.at? place = some entry.2 := by
      rcases List.mem_cons.1 hentry with rfl | hinside
      · exact ⟨[], rfl⟩
      · obtain ⟨place, -, -, hnode⟩ := FileNode.exists_of_mem_inside [] _ htree.unique hinside
        exact ⟨place, hnode⟩
    obtain ⟨place, hnode⟩ := hnode
    cases hkind : entry.2 with
    | file content => exact ⟨List.nodup_nil, by simp [FileNode.entries]⟩
    | folder entries =>
        rw [hkind] at hnode
        exact ⟨htree.unique place entries hnode, htree.proper place entries hnode⟩
  · intro hall
    have hplace : ∀ place entries, files.root.at? place = some (.folder entries) →
        (Entries.names entries).Nodup ∧ ∀ name ∈ Entries.names entries, IsEntryName name := by
      intro place entries hnode
      by_cases htop : place = []
      · subst htop
        have hroot := hall _ List.mem_cons_self
        rw [Option.some.inj hnode] at hroot
        exact hroot
      · exact hall _ (List.mem_cons_of_mem _ (FileNode.mem_inside_of_at? [] htop hnode))
    exact ⟨fun place entries hnode => (hplace place entries hnode).1,
      fun place entries hnode => (hplace place entries hnode).2⟩

instance (name : String) : Decidable (IsEntryName name) :=
  inferInstanceAs (Decidable (_ ∧ _))

instance (files : FileSystem) : Decidable files.IsTree :=
  decidable_of_iff _ isTree_iff.symm

end FileSystem

namespace Files

/-- What a pattern finds from a place on.  A plain name is followed as it is; a wild one leads to
entries that it fits, and two stars down to entries that are not hidden, or nowhere, from a folder
at least.  Where more comes behind, or a slash, wild names and stars lead to folders only. -/
inductive Leads [Runtime] (files : FileSystem) (wantsFolder : Bool) :
    List Segment → Match → Match → Prop
  | found {place : Match} (hplace : wantsFolder = false) : Leads files wantsFolder [] place place
  | folder {place : Match} {entries : Entries FileNode} (hwants : wantsFolder = true)
      (hfolder : files.at? place.location = some (.folder entries)) :
      Leads files wantsFolder [] place { place with endsInSlash := true }
  | plain {text : String} {rest : List Segment} {start final : Match} {next : Location}
      (hstep : Segment.step files start.location text = some next)
      (hrest : Leads files wantsFolder rest
        { names := start.names ++ [text], location := some next } final) :
      Leads files wantsFolder (.plain text :: rest) start final
  | wild {text name : String} {rest : List Segment} {start final : Match} {place : Location}
      {node : FileNode} (hstart : start.location = some place)
      (hnode : files.root.at? (place ++ [name]) = some node)
      (hfits : Segment.fits text name = true)
      (hkind : rest ≠ [] ∨ wantsFolder = true → node.isFolder = true)
      (hrest : Leads files wantsFolder rest
        { names := start.names ++ [name], location := some (place ++ [name]) } final) :
      Leads files wantsFolder (.wild text :: rest) start final
  | level {rest : List Segment} {start final : Match}
      (hpassable : Runtime.starsNeedFolder = true →
        (files.at? start.location).any FileNode.isFolder = true)
      (hrest : Leads files wantsFolder rest { start with endsInSlash := true } final) :
      Leads files wantsFolder (.anyDepth :: rest) start final
  | deeper {rest : List Segment} {start final : Match} {place way : Location} {node : FileNode}
      (hstart : start.location = some place) (hway : way ≠ [])
      (hnode : files.root.at? (place ++ way) = some node)
      (hshown : ∀ name ∈ way, isHidden name = false)
      (hkind : rest ≠ [] ∨ wantsFolder = true → node.isFolder = true)
      (hrest : Leads files wantsFolder rest
        { names := start.names ++ way, location := some (place ++ way) } final) :
      Leads files wantsFolder (.anyDepth :: rest) start final

variable {files : FileSystem} {wantsFolder onlyFolders : Bool} {start place final : Match}
  {rest : List Segment} {text name : String}

/-- What a folder holds; nothing is held elsewhere. -/
def entriesAt (files : FileSystem) (location : Option Location) : Entries FileNode :=
  ((files.at? location).map FileNode.entries).getD []

theorem entriesAt_cases (files : FileSystem) (location : Option Location) :
    files.at? location = some (.folder (entriesAt files location)) ∨
      entriesAt files location = [] := by
  unfold entriesAt
  cases files.at? location with
  | none => exact .inr rfl
  | some node =>
      cases node with
      | file content => exact .inr rfl
      | folder entries => exact .inl rfl

theorem hasUniqueNames_entriesAt (htree : files.IsTree) (location : Option Location) :
    (FileNode.folder (entriesAt files location)).HasUniqueNames := by
  rcases entriesAt_cases files location with hfolder | hnone
  · obtain ⟨place, -, hnode⟩ := Option.bind_eq_some_iff.1 hfolder
    exact htree.unique.at? hnode
  · rw [hnone]
    exact FileNode.hasUniqueNames_empty

theorem at?_entriesAt {location way : Location} (hway : way ≠ []) :
    (FileNode.folder (entriesAt files (some location))).at? way =
      files.root.at? (location ++ way) := by
  obtain ⟨name, later, rfl⟩ := List.exists_cons_of_ne_nil hway
  have hat : files.at? (some location) = files.root.at? location := rfl
  rw [FileNode.at?_append, entriesAt, hat]
  cases files.root.at? location with
  | none => rfl
  | some node => rfl

theorem mem_entriesAt_iff (htree : files.IsTree) {location : Location} {node : FileNode} :
    (name, node) ∈ entriesAt files (some location) ↔
      files.root.at? (location ++ [name]) = some node := by
  rw [← at?_entriesAt (by simp),
    FileNode.at?_folder_cons_iff (hasUniqueNames_entriesAt htree (some location) [] _ rfl)]
  constructor
  · intro hmem
    exact ⟨node, hmem, rfl⟩
  · rintro ⟨child, hmem, hnode⟩
    rw [← Option.some.inj hnode]
    exact hmem

theorem mem_below_iff (htree : files.IsTree) {location way : Location} {node : FileNode} :
    (way, node) ∈ FileNode.insideEntries [] (entriesAt files (some location)) ↔
      way ≠ [] ∧ files.root.at? (location ++ way) = some node := by
  rw [← FileNode.inside, FileNode.mem_inside_iff [] (.folder _) (hasUniqueNames_entriesAt htree _)]
  constructor
  · rintro ⟨rest, hrest, rfl, hnode⟩
    rw [at?_entriesAt hrest] at hnode
    exact ⟨hrest, hnode⟩
  · rintro ⟨hway, hnode⟩
    rw [← at?_entriesAt hway] at hnode
    exact ⟨way, hway, rfl, hnode⟩

/-! ## One name of a pattern -/

theorem kept_iff {node : FileNode} :
    (!onlyFolders || node.isFolder) = true ↔ (onlyFolders = true → node.isFolder = true) := by
  cases onlyFolders <;> simp

theorem passable_iff [Runtime] :
    (!Runtime.starsNeedFolder || (files.at? start.location).any FileNode.isFolder) = true ↔
      (Runtime.starsNeedFolder = true →
        (files.at? start.location).any FileNode.isFolder = true) := by
  cases Runtime.starsNeedFolder <;> simp

theorem mem_extend_plain_iff [Runtime] :
    place ∈ (Segment.plain text).extend files onlyFolders start ↔
      ∃ next, Segment.step files start.location text = some next ∧
        place = { names := start.names ++ [text], location := some next } := by
  rw [Segment.extend, List.mem_map]
  simp only [Option.mem_toList, eq_comm (b := place)]

theorem mem_extend_wild_iff [Runtime] (htree : files.IsTree) :
    place ∈ (Segment.wild text).extend files onlyFolders start ↔
      ∃ location name node, start.location = some location ∧
        files.root.at? (location ++ [name]) = some node ∧ Segment.fits text name = true ∧
        (onlyFolders = true → node.isFolder = true) ∧
        place = { names := start.names ++ [name], location := some (location ++ [name]) } := by
  rw [Segment.extend, List.mem_map, ← entriesAt]
  constructor
  · rintro ⟨⟨name, node⟩, hmem, rfl⟩
    obtain ⟨hentry, hkept⟩ := List.mem_filter.1 hmem
    cases hstart : start.location with
    | none =>
        rw [hstart] at hentry
        contradiction
    | some location =>
        rw [hstart, mem_entriesAt_iff htree] at hentry
        rw [Bool.and_eq_true, kept_iff] at hkept
        exact ⟨location, name, node, rfl, hentry, hkept.1, hkept.2, rfl⟩
  · rintro ⟨location, name, node, hstart, hnode, hfits, hkind, rfl⟩
    refine ⟨(name, node), List.mem_filter.2 ⟨?_, ?_⟩, by rw [hstart]; rfl⟩
    · rw [hstart, mem_entriesAt_iff htree]
      exact hnode
    · rw [Bool.and_eq_true, kept_iff]
      exact ⟨hfits, hkind⟩

theorem mem_extend_anyDepth_iff [Runtime] (htree : files.IsTree) :
    place ∈ Segment.anyDepth.extend files onlyFolders start ↔
      (Runtime.starsNeedFolder = true → (files.at? start.location).any FileNode.isFolder = true) ∧
          place = { start with endsInSlash := true } ∨
        ∃ location way node, start.location = some location ∧ way ≠ [] ∧
          files.root.at? (location ++ way) = some node ∧ (∀ name ∈ way, isHidden name = false) ∧
          (onlyFolders = true → node.isFolder = true) ∧
          place = { names := start.names ++ way, location := some (location ++ way) } := by
  rw [Segment.extend, List.mem_append, List.mem_map, Segment.below, ← entriesAt]
  refine or_congr ?_ ?_
  · rw [← passable_iff]
    split
    · next hpassable => simp [hpassable]
    · next hpassable => simp [hpassable]
  constructor
  · rintro ⟨⟨way, node⟩, hmem, rfl⟩
    obtain ⟨hbelow, hkept⟩ := List.mem_filter.1 hmem
    cases hstart : start.location with
    | none =>
        rw [hstart] at hbelow
        contradiction
    | some location =>
        rw [hstart, mem_below_iff htree] at hbelow
        rw [Bool.and_eq_true, Bool.not_eq_true', List.any_eq_false, kept_iff] at hkept
        have hshown : ∀ name ∈ way, isHidden name = false :=
          fun name hname => eq_false_of_ne_true (hkept.1 name hname)
        exact ⟨location, way, node, rfl, hbelow.1, hbelow.2, hshown, hkept.2, rfl⟩
  · rintro ⟨location, way, node, hstart, hway, hnode, hshown, hkind, rfl⟩
    refine ⟨(way, node), List.mem_filter.2 ⟨?_, ?_⟩, by rw [hstart]; rfl⟩
    · rw [hstart, mem_below_iff htree]
      exact ⟨hway, hnode⟩
    · rw [Bool.and_eq_true, Bool.not_eq_true', List.any_eq_false, kept_iff]
      exact ⟨fun name hname => ne_true_of_eq_false (hshown name hname), hkind⟩

/-! ## All names of a pattern -/

theorem leads_nil_iff [Runtime] :
    Leads files wantsFolder [] start final ↔
      if wantsFolder then
        (files.at? start.location).any FileNode.isFolder = true ∧
          final = { start with endsInSlash := true }
      else final = start := by
  constructor
  · intro hleads
    cases hleads with
    | found hwants =>
        rw [if_neg (ne_true_of_eq_false hwants)]
    | folder hwants hfolder =>
        rw [if_pos hwants, hfolder]
        exact ⟨rfl, rfl⟩
  · intro hfinal
    split at hfinal
    · next hwants =>
        obtain ⟨hfolder, rfl⟩ := hfinal
        obtain ⟨node, hnode, hkind⟩ := (Option.any_eq_true _ _).1 hfolder
        cases node with
        | file content => contradiction
        | folder entries => exact .folder hwants hnode
    · next hwants =>
        rw [hfinal]
        exact .found (eq_false_of_ne_true hwants)

theorem more_iff : (!rest.isEmpty || wantsFolder) = true ↔ rest ≠ [] ∨ wantsFolder = true := by
  rw [Bool.or_eq_true, Bool.not_eq_true', ← Bool.not_eq_true, List.isEmpty_iff]

theorem leads_cons_iff [Runtime] (htree : files.IsTree) {segment : Segment} :
    Leads files wantsFolder (segment :: rest) start final ↔
      ∃ place ∈ segment.extend files (!rest.isEmpty || wantsFolder) start,
        Leads files wantsFolder rest place final := by
  constructor
  · intro hleads
    cases hleads with
    | plain hstep hrest => exact ⟨_, mem_extend_plain_iff.2 ⟨_, hstep, rfl⟩, hrest⟩
    | wild hstart hnode hfits hkind hrest =>
        rw [← more_iff] at hkind
        exact ⟨_, (mem_extend_wild_iff htree).2 ⟨_, _, _, hstart, hnode, hfits, hkind, rfl⟩, hrest⟩
    | level hpassable hrest =>
        exact ⟨_, (mem_extend_anyDepth_iff htree).2 (.inl ⟨hpassable, rfl⟩), hrest⟩
    | deeper hstart hway hnode hshown hkind hrest =>
        rw [← more_iff] at hkind
        exact ⟨_, (mem_extend_anyDepth_iff htree).2
          (.inr ⟨_, _, _, hstart, hway, hnode, hshown, hkind, rfl⟩), hrest⟩
  · rintro ⟨place, hplace, hrest⟩
    cases segment with
    | plain text =>
        obtain ⟨next, hstep, rfl⟩ := mem_extend_plain_iff.1 hplace
        exact .plain hstep hrest
    | wild text =>
        obtain ⟨location, name, node, hstart, hnode, hfits, hkind, rfl⟩ :=
          (mem_extend_wild_iff htree).1 hplace
        exact .wild hstart hnode hfits (fun hmore => hkind (more_iff.2 hmore)) hrest
    | anyDepth =>
        rcases (mem_extend_anyDepth_iff htree).1 hplace with
          ⟨hpassable, rfl⟩ | ⟨location, way, node, hstart, hway, hnode, hshown, hkind, rfl⟩
        · exact .level hpassable hrest
        · exact .deeper hstart hway hnode hshown (fun hmore => hkind (more_iff.2 hmore)) hrest

/-- A pattern finds the places that it leads to. -/
theorem mem_expand_iff [Runtime] (htree : files.IsTree) (segments : List Segment)
    (found : List Match) :
    final ∈ expand files wantsFolder segments found ↔
      ∃ start ∈ found, Leads files wantsFolder segments start final := by
  induction segments generalizing found with
  | nil =>
      simp only [leads_nil_iff]
      rw [expand]
      cases wantsFolder with
      | false => simp
      | true =>
          simp only [if_true, List.mem_map, List.mem_filter, and_assoc, eq_comm (b := final)]
  | cons segment rest ih =>
      simp only [leads_cons_iff htree]
      rw [expand, ih]
      constructor
      · rintro ⟨place, hplace, hleads⟩
        obtain ⟨start, hstart, hextend⟩ := List.mem_flatMap.1 hplace
        exact ⟨start, hstart, place, hextend, hleads⟩
      · rintro ⟨start, hstart, place, hextend, hleads⟩
        exact ⟨place, List.mem_flatMap.2 ⟨start, hstart, hextend⟩, hleads⟩

/-! ## Room to follow a pattern -/

/-- Nothing in a tree is further down than so many levels. -/
def HasDepth (files : FileSystem) (depth : Nat) : Prop :=
  ∀ way node, files.root.at? way = some node → way.length ≤ depth

theorem hasRoom_of_hasRoomFor [Runtime] (htree : files.IsTree) {depth : Nat}
    (hdepth : HasDepth files depth) {under : List Call}
    (hroom : Runtime.HasRoomFor (depth + 1 + under.length)) (segment : Segment) :
    segment.hasRoom files onlyFolders under start = true := by
  cases segment with
  | plain | wild => rfl
  | anyDepth =>
      rw [Segment.hasRoom, Bool.and_eq_true, List.all_eq_true]
      refine ⟨hroom _ (by simp only [List.length_cons]; omega), ?_⟩
      rintro ⟨way, node⟩ hmem
      obtain ⟨hbelow, -⟩ := List.mem_filter.1 hmem
      rw [← entriesAt] at hbelow
      apply hroom
      rw [List.length_append, List.length_replicate]
      cases hstart : start.location with
      | none =>
          rw [hstart] at hbelow
          contradiction
      | some location =>
          rw [hstart, mem_below_iff htree] at hbelow
          have hlength := hdepth _ _ hbelow.2
          rw [List.length_append] at hlength
          dsimp only
          omega

theorem length_whileFollowing_le (wantsFolder : Bool) (segments : List Segment) :
    (whileFollowing wantsFolder segments).length ≤ segments.length + 1 := by
  rw [whileFollowing, List.length_replicate]
  split <;> omega

theorem canExpand_of_hasRoomFor [Runtime] (htree : files.IsTree) {depth : Nat}
    (hdepth : HasDepth files depth) {segments : List Segment}
    (hroom : Runtime.HasRoomFor (depth + segments.length + 2)) (found : List Match) :
    canExpand files wantsFolder segments found = true := by
  induction segments generalizing found with
  | nil => rfl
  | cons segment rest ih =>
      have hlength := length_whileFollowing_le wantsFolder (segment :: rest)
      rw [canExpand, Bool.and_eq_true, Bool.and_eq_true, List.all_eq_true]
      refine ⟨⟨hroom _ (by omega), fun place _ => ?_⟩, ?_⟩
      · exact hasRoom_of_hasRoomFor htree hdepth (hroom.mono (by omega)) segment
      · exact ih (hroom.mono (by simp only [List.length_cons]; omega)) _

/-! ## Places that are found once -/

theorem names_of_mem_extend [Runtime] (htree : files.IsTree) {segment : Segment}
    (hsegment : segment ≠ .anyDepth) (hplace : place ∈ segment.extend files onlyFolders start) :
    ∃ name, place.names = start.names ++ [name] := by
  cases segment with
  | plain text =>
      obtain ⟨next, -, rfl⟩ := mem_extend_plain_iff.1 hplace
      exact ⟨text, rfl⟩
  | wild text =>
      obtain ⟨location, name, node, -, -, -, -, rfl⟩ := (mem_extend_wild_iff htree).1 hplace
      exact ⟨name, rfl⟩
  | anyDepth => exact absurd rfl hsegment

theorem isPrefix_of_mem_extend [Runtime] (htree : files.IsTree) {segment : Segment}
    (hplace : place ∈ segment.extend files onlyFolders start) : start.names <+: place.names := by
  cases segment with
  | anyDepth =>
      rcases (mem_extend_anyDepth_iff htree).1 hplace with
        ⟨-, rfl⟩ | ⟨_, way, _, -, -, -, -, -, rfl⟩
      · exact List.prefix_rfl
      · exact List.prefix_append _ _
  | _ =>
      obtain ⟨name, hnames⟩ := names_of_mem_extend htree (by simp) hplace
      rw [hnames]
      exact List.prefix_append _ _

theorem nodup_names_map {α : Type} {entries : List (α × FileNode)}
    (hnodup : (entries.map (·.1)).Nodup) (kept : α × FileNode → Bool) {front : List String}
    {way : α → List String} (hway : Function.Injective way) {make : α × FileNode → Match}
    (hmake : ∀ entry, (make entry).names = front ++ way entry.1) :
    (((entries.filter kept).map make).map (·.names)).Nodup := by
  have hnames : (fun place : Match => place.names) ∘ make =
      (fun first => front ++ way first) ∘ fun entry => entry.1 := funext hmake
  rw [List.map_map, hnames, ← List.map_map]
  exact (hnodup.sublist (List.filter_sublist.map _)).map fun _ _ hsame =>
    hway (List.append_cancel_left hsame)

theorem nodup_names_extend [Runtime] (htree : files.IsTree) (onlyFolders : Bool) (start : Match)
    (segment : Segment) : ((segment.extend files onlyFolders start).map (·.names)).Nodup := by
  have hunique := hasUniqueNames_entriesAt htree start.location
  cases segment with
  | plain text =>
      rw [Segment.extend]
      cases Segment.step files start.location text with
      | none => exact List.nodup_nil
      | some next => exact List.nodup_singleton _
  | wild text =>
      exact nodup_names_map (hunique [] _ rfl) _ List.singleton_injective fun _ => rfl
  | anyDepth =>
      have hways := FileNode.nodup_inside [] _ hunique
      rw [FileNode.inside] at hways
      have hself : ∀ passable : Bool, ((if passable then [{ start with endsInSlash := true }]
          else []).map Match.names).Sublist [start.names] := by
        intro passable
        cases passable with
        | true => exact List.Sublist.refl _
        | false => exact List.nil_sublist _
      rw [Segment.extend, Segment.below, ← entriesAt, List.map_append]
      refine List.Nodup.sublist ((hself _).append (List.Sublist.refl _)) ?_
      rw [List.singleton_append, List.nodup_cons]
      refine ⟨?_, nodup_names_map hways _ Function.injective_id fun _ => rfl⟩
      rw [List.map_map, List.mem_map]
      rintro ⟨⟨way, node⟩, hmem, hsame⟩
      obtain ⟨rest, hrest, rfl, -⟩ := (FileNode.mem_inside_iff [] (.folder _) hunique).1
        (List.mem_filter.1 hmem).1
      exact hrest (List.append_right_eq_self.1 hsame)

theorem nodup_names_flatMap (back : List String → List String) {found : List Match}
    {next : Match → List Match} (hnodup : (found.map (·.names)).Nodup)
    (hnext : ∀ start ∈ found, ((next start).map (·.names)).Nodup)
    (hback : ∀ start ∈ found, ∀ place ∈ next start, back place.names = start.names) :
    ((found.flatMap next).map (·.names)).Nodup := by
  rw [List.map_flatMap, List.nodup_flatMap]
  refine ⟨hnext, ?_⟩
  rw [List.Nodup, List.pairwise_map] at hnodup
  refine hnodup.imp_of_mem fun {start other} hstart hother hne => ?_
  intro names hone hsame
  obtain ⟨place, hplace, rfl⟩ := List.mem_map.1 hone
  obtain ⟨another, hanother, heq⟩ := List.mem_map.1 hsame
  apply hne
  rw [← hback start hstart place hplace, ← hback other hother another hanother, heq]

/-- A pattern with one name of two stars at most finds nothing twice. -/
theorem nodup_names_expand [Runtime] (htree : files.IsTree) {segments : List Segment}
    (hdepths : segments.count .anyDepth ≤ 1) {found : List Match}
    (hnodup : (found.map (·.names)).Nodup)
    (hlevel : .anyDepth ∈ segments → ∃ level, ∀ start ∈ found, start.names.length = level) :
    ((expand files wantsFolder segments found).map (·.names)).Nodup := by
  induction segments generalizing found with
  | nil =>
      rw [expand]
      split
      · rw [List.map_map]
        exact hnodup.sublist (List.filter_sublist.map _)
      · exact hnodup
  | cons segment rest ih =>
      rw [expand]
      have hextend := fun start (_ : start ∈ found) =>
        nodup_names_extend htree (!rest.isEmpty || wantsFolder) start segment
      by_cases hsegment : segment = .anyDepth
      · -- All places are equally far down, so the way from there tells where it started.
        subst hsegment
        rw [List.count_cons_self] at hdepths
        obtain ⟨level, hlength⟩ := hlevel List.mem_cons_self
        refine ih (by omega) (nodup_names_flatMap (List.take level) hnodup hextend ?_) ?_
        · intro start hstart place hplace
          rw [← hlength start hstart]
          exact List.prefix_iff_eq_take.1 (isPrefix_of_mem_extend htree hplace) |>.symm
        · intro hmem
          have hcount := List.count_pos_iff.2 hmem
          omega
      · rw [List.count_cons_of_ne hsegment] at hdepths
        refine ih hdepths (nodup_names_flatMap List.dropLast hnodup hextend ?_) ?_
        · intro start _ place hplace
          obtain ⟨name, hnames⟩ := names_of_mem_extend htree hsegment hplace
          rw [hnames, List.dropLast_concat]
        · intro hmem
          obtain ⟨level, hlength⟩ := hlevel (List.mem_cons_of_mem _ hmem)
          refine ⟨level + 1, fun place hplace => ?_⟩
          obtain ⟨start, hstart, hextended⟩ := List.mem_flatMap.1 hplace
          obtain ⟨name, hnames⟩ := names_of_mem_extend htree hsegment hextended
          rw [hnames, List.length_append, hlength start hstart]
          rfl

/-! ## Names of places -/

theorem isEntryName_of_node (htree : files.IsTree) {location way : Location} {node : FileNode}
    (hnode : files.root.at? (location ++ way) = some node) :
    ∀ name ∈ way, FileSystem.IsEntryName name := by
  induction way generalizing location with
  | nil => simp
  | cons first rest ih =>
      rw [List.append_cons] at hnode
      rw [List.forall_mem_cons]
      refine ⟨?_, ih hnode⟩
      rw [FileNode.at?_append] at hnode
      obtain ⟨upper, hupper, -⟩ := Option.bind_eq_some_iff.1 hnode
      have hmem := (mem_entriesAt_iff htree).2 hupper
      rcases entriesAt_cases files (some location) with hfolder | hnone
      · exact htree.proper location _ hfolder first (List.mem_map.2 ⟨_, hmem, rfl⟩)
      · rw [hnone] at hmem
        contradiction

theorem Leads.names_isPrefix [Runtime] {segments : List Segment}
    (hleads : Leads files wantsFolder segments start final) : start.names <+: final.names := by
  induction hleads with
  | found | folder => exact List.prefix_rfl
  | plain _ _ ih | wild _ _ _ _ _ ih | deeper _ _ _ _ _ _ ih =>
      exact (List.prefix_append _ _).trans ih
  | level _ _ ih => exact ih

/-- The names on the way to a place are those of entries or of the pattern itself. -/
theorem Leads.forall_names [Runtime] {segments : List Segment} {P : String → Prop}
    (htree : files.IsTree) (hentry : ∀ name, FileSystem.IsEntryName name → P name)
    (hplain : ∀ text, Segment.plain text ∈ segments → P text)
    (hleads : Leads files wantsFolder segments start final)
    (hstart : ∀ name ∈ start.names, P name) :
    ∀ name ∈ final.names, P name := by
  induction hleads with
  | found | folder => exact hstart
  | plain _ _ ih =>
      refine ih (fun text htext => hplain text (List.mem_cons_of_mem _ htext)) ?_
      rw [List.forall_mem_append, List.forall_mem_singleton]
      exact ⟨hstart, hplain _ List.mem_cons_self⟩
  | wild _ hnode _ _ _ ih =>
      refine ih (fun text htext => hplain text (List.mem_cons_of_mem _ htext)) ?_
      rw [List.forall_mem_append]
      exact ⟨hstart, fun name hname => hentry name (isEntryName_of_node htree hnode name hname)⟩
  | level _ _ ih => exact ih (fun text htext => hplain text (List.mem_cons_of_mem _ htext)) hstart
  | deeper _ _ hnode _ _ _ ih =>
      refine ih (fun text htext => hplain text (List.mem_cons_of_mem _ htext)) ?_
      rw [List.forall_mem_append]
      exact ⟨hstart, fun name hname => hentry name (isEntryName_of_node htree hnode name hname)⟩

/-! ## Names that a pattern covers -/

/-- Names that fit a pattern, one for each of its names but for two stars, which stand for any
number of names that are not hidden, and for one at least if nothing comes behind. -/
inductive Covers : List Segment → List String → Prop
  | nil : Covers [] []
  | plain {text : String} {rest : List Segment} {names : List String} (hrest : Covers rest names) :
      Covers (.plain text :: rest) (text :: names)
  | wild {text name : String} {rest : List Segment} {names : List String}
      (hfits : Segment.fits text name = true) (hrest : Covers rest names) :
      Covers (.wild text :: rest) (name :: names)
  | depths {rest : List Segment} {way names : List String}
      (hshown : ∀ name ∈ way, isHidden name = false) (hway : rest = [] → way ≠ [])
      (hrest : Covers rest names) : Covers (.anyDepth :: rest) (way ++ names)

variable {segments : List Segment} {names : List String} {location : Location}
  {content : ByteArray}

theorem Covers.names_ne_nil (hcovers : Covers segments names) (hsegments : segments ≠ []) :
    names ≠ [] := by
  induction hcovers with
  | nil => exact absurd rfl hsegments
  | plain | wild => exact List.cons_ne_nil _ _
  | @depths rest way names _ hway _ ih =>
      by_cases hrest : rest = []
      · exact List.append_ne_nil_of_left_ne_nil (hway hrest) names
      · exact List.append_ne_nil_of_right_ne_nil way (ih hrest)

/-- A plain name is no dots. -/
def Segment.IsDown : Segment → Prop
  | .plain text => text ≠ "." ∧ text ≠ ".."
  | _ => True

theorem step_iff_of_isDown {next : Location} (hdown : (Segment.plain text).IsDown) :
    Segment.step files (some location) text = some next ↔
      next = location ++ [text] ∧ files.root.at? next ≠ none := by
  rw [Segment.step_of_ne_dot hdown.1]
  constructor
  · intro hstep
    obtain ⟨hfolder, rfl⟩ := FileSystem.sight_of_step hstep
    have hleads := ((FileSystem.step_eq_some_iff hfolder).1 hstep).2.resolve_left hdown.2
    rw [ne_eq, FileSystem.sight_eq_nothing_iff] at hleads
    rw [FileSystem.follow, if_neg hdown.2]
    exact ⟨rfl, hleads⟩
  · rintro ⟨rfl, hnode⟩
    rw [ne_eq, ← FileSystem.sight_eq_nothing_iff] at hnode
    rw [FileSystem.step_eq_some_iff (FileSystem.sight_folder_of_below hnode), FileSystem.follow,
      if_neg hdown.2]
    exact ⟨rfl, .inr hnode⟩

theorem exists_node_on_way (way : Location) {node : FileNode}
    (hnode : files.root.at? (location ++ (way ++ names)) = some node) :
    ∃ upper, files.root.at? (location ++ way) = some upper ∧
      (names ≠ [] → upper.isFolder = true) := by
  rw [← List.append_assoc, FileNode.at?_append] at hnode
  obtain ⟨upper, hupper, hbelow⟩ := Option.bind_eq_some_iff.1 hnode
  refine ⟨upper, hupper, fun hnames => ?_⟩
  cases upper with
  | folder entries => rfl
  | file content =>
      obtain ⟨name, later, rfl⟩ := List.exists_cons_of_ne_nil hnames
      contradiction

theorem foldl_step_of_isDown {front : List String} {node : FileNode}
    (hdown : ∀ name ∈ front, name ≠ "." ∧ name ≠ "..")
    (hnode : files.root.at? (location ++ front) = some node) :
    front.foldl (Segment.step files) (some location) = some (location ++ front) := by
  induction front generalizing location with
  | nil => rw [List.append_nil, List.foldl_nil]
  | cons first rest ih =>
      rw [List.forall_mem_cons] at hdown
      obtain ⟨upper, hupper, -⟩ := exists_node_on_way [first] hnode
      have hstep : Segment.step files (some location) first = some (location ++ [first]) :=
        (step_iff_of_isDown hdown.1).2 ⟨rfl, by simp [hupper]⟩
      rw [List.append_cons] at hnode ⊢
      rw [List.foldl_cons, hstep]
      exact ih hdown.2 hnode

theorem covers_append_iff {front : List String} :
    Covers (front.map .plain ++ segments) names ↔
      ∃ later, names = front ++ later ∧ Covers segments later := by
  induction front generalizing names with
  | nil => simp
  | cons first rest ih =>
      rw [List.map_cons, List.cons_append]
      constructor
      · intro hcovers
        cases hcovers with
        | plain hrest =>
            obtain ⟨later, rfl, hlater⟩ := ih.1 hrest
            exact ⟨later, rfl, hlater⟩
      · rintro ⟨later, rfl, hlater⟩
        exact .plain (ih.2 ⟨later, rfl, hlater⟩)

/-- A pattern leads to all files whose names it covers. -/
theorem leads_of_covers [Runtime] (hcovers : Covers segments names)
    (hdown : ∀ segment ∈ segments, segment.IsDown) {node : FileNode}
    (hnode : files.root.at? (location ++ names) = some node) {front : List String}
    {slash : Bool} (hslash : segments = [] → slash = false) :
    Leads files false segments { names := front, location := some location, endsInSlash := slash }
      { names := front ++ names, location := some (location ++ names) } := by
  induction hcovers generalizing location front slash with
  | nil =>
      rw [List.append_nil, List.append_nil, hslash rfl]
      exact .found rfl
  | @plain text rest names hcovers ih =>
      rw [List.forall_mem_cons] at hdown
      obtain ⟨upper, hupper, -⟩ := exists_node_on_way [text] hnode
      rw [List.append_cons] at hnode
      have hstep : Segment.step files (some location) text = some (location ++ [text]) :=
        (step_iff_of_isDown hdown.1).2 ⟨rfl, by simp [hupper]⟩
      rw [List.append_cons front, List.append_cons location]
      exact .plain hstep (ih hdown.2 hnode fun _ => rfl)
  | @wild text name rest names hfits hcovers ih =>
      rw [List.forall_mem_cons] at hdown
      obtain ⟨upper, hupper, hkind⟩ := exists_node_on_way [name] hnode
      rw [List.append_cons] at hnode
      rw [List.append_cons front, List.append_cons location]
      refine .wild rfl hupper hfits ?_ (ih hdown.2 hnode fun _ => rfl)
      rintro (hrest | hfalse)
      · exact hkind (hcovers.names_ne_nil hrest)
      · contradiction
  | @depths rest way names hshown hway hcovers ih =>
      rw [List.forall_mem_cons] at hdown
      by_cases hnone : way = []
      · subst hnone
        have hnames := hcovers.names_ne_nil fun hrest => hway hrest rfl
        obtain ⟨upper, hupper, hkind⟩ := exists_node_on_way [] hnode
        rw [List.append_nil] at hupper
        have hfolder : (files.at? (some location)).any FileNode.isFolder = true :=
          (Option.any_eq_true _ _).2 ⟨upper, hupper, hkind hnames⟩
        exact .level (fun _ => hfolder) (ih hdown.2 hnode fun hrest => absurd rfl (hway hrest))
      · obtain ⟨upper, hupper, hkind⟩ := exists_node_on_way way hnode
        rw [← List.append_assoc] at hnode
        rw [← List.append_assoc, ← List.append_assoc]
        refine .deeper rfl hnone hupper hshown ?_ (ih hdown.2 hnode fun _ => rfl)
        rintro (hrest | hfalse)
        · exact hkind (hcovers.names_ne_nil hrest)
        · contradiction

/-- A pattern covers the names of everything that it leads to, unless a slash comes behind. -/
theorem covers_of_leads [Runtime] (hdown : ∀ segment ∈ segments, segment.IsDown)
    (hleads : Leads files false segments start final) (hstart : start.location = some location)
    (hend : final.endsInSlash = false) :
    ∃ names, final.names = start.names ++ names ∧ final.location = some (location ++ names) ∧
      Covers segments names := by
  induction hleads generalizing location with
  | found => exact ⟨[], by simp, by simpa using hstart, .nil⟩
  | folder hwants => contradiction
  | @plain text rest start final next hstep _ ih =>
      rw [List.forall_mem_cons] at hdown
      rw [hstart] at hstep
      obtain ⟨rfl, -⟩ := (step_iff_of_isDown hdown.1).1 hstep
      obtain ⟨names, hnames, hfinal, hcovers⟩ := ih hdown.2 rfl hend
      exact ⟨text :: names, by simp [hnames], by simp [hfinal], .plain hcovers⟩
  | @wild text name rest start final place node hplace _ hfits _ _ ih =>
      rw [List.forall_mem_cons] at hdown
      obtain rfl := Option.some.inj (hplace.symm.trans hstart)
      obtain ⟨names, hnames, hfinal, hcovers⟩ := ih hdown.2 rfl hend
      exact ⟨name :: names, by simp [hnames], by simp [hfinal], .wild hfits hcovers⟩
  | @level rest start final _ hrest ih =>
      rw [List.forall_mem_cons] at hdown
      obtain ⟨names, hnames, hfinal, hcovers⟩ := ih hdown.2 hstart hend
      refine ⟨names, hnames, hfinal, ?_⟩
      rw [← List.nil_append names]
      refine .depths (by simp) ?_ hcovers
      rintro rfl
      cases hrest <;> contradiction
  | @deeper rest start final place way node hplace hway _ hshown _ _ ih =>
      rw [List.forall_mem_cons] at hdown
      obtain rfl := Option.some.inj (hplace.symm.trans hstart)
      obtain ⟨names, hnames, hfinal, hcovers⟩ := ih hdown.2 rfl hend
      exact ⟨way ++ names, by simp [hnames], by simp [hfinal],
        .depths hshown (fun _ => hway) hcovers⟩

end Files

end ConfigSchema
