import ConfigSchema.Files.FileSystem
import ConfigSchema.Proofs.EntryLookup
import Mathlib.Logic.Function.Basic

/-!
# What can be seen in a file tree

A tree shows at every location nothing, a folder, or a file with its content, whatever the order
of its entries.  A file or an empty folder that is put where no folder stands changes what is seen
at its location and nowhere else, and so does erasing it.
-/

namespace ConfigSchema

inductive Sight where
  | nothing
  | folder
  | file (content : ByteArray)

namespace FileNode

def sight (tree : FileNode) (location : Location) : Sight :=
  match tree.at? location with
  | none => .nothing
  | some (.folder _) => .folder
  | some (.file content) => .file content

/-- Nothing stands inside. -/
def IsLeaf (node : FileNode) : Prop :=
  ∀ name rest, node.sight (name :: rest) = .nothing

variable {tree new child : FileNode} {entries : Entries FileNode} {content : ByteArray}
  {location folder rest : Location} {name : String}

/-! ## Sights -/

@[simp] theorem sight_file_nil : (file content).sight [] = .file content := rfl

@[simp] theorem sight_folder_nil : (FileNode.folder entries).sight [] = .folder := rfl

@[simp] theorem sight_file_cons : (file content).sight (name :: rest) = .nothing := rfl

theorem sight_folder_cons :
    (FileNode.folder entries).sight (name :: rest) =
      ((entries.get? name).map fun child => child.sight rest).getD .nothing := by
  unfold sight
  rw [at?, FileNode.entries]
  cases entries.get? name <;> rfl

theorem isLeaf_file (content : ByteArray) : (file content).IsLeaf := fun _ _ => rfl

theorem isLeaf_empty : (FileNode.folder []).IsLeaf := fun _ _ => rfl

theorem exists_entries_of_sight (hsight : tree.sight [] = .folder) :
    ∃ entries, tree = .folder entries := by
  cases tree with
  | file content => simp at hsight
  | folder entries => exact ⟨entries, rfl⟩

theorem sight_append_of_ne_folder (hsight : tree.sight location ≠ .folder) (hrest : rest ≠ []) :
    tree.sight (location ++ rest) = .nothing := by
  induction location generalizing tree with
  | nil =>
      obtain ⟨name, later, rfl⟩ := List.exists_cons_of_ne_nil hrest
      cases tree with
      | file content => rfl
      | folder entries => exact absurd rfl hsight
  | cons first location ih =>
      cases tree with
      | file content => rfl
      | folder entries =>
          rw [List.cons_append, sight_folder_cons]
          rw [sight_folder_cons] at hsight
          cases hget : Entries.get? first entries with
          | none => rfl
          | some child =>
              rw [hget] at hsight
              exact ih hsight

/-! ## Changes in one folder -/

def alterAt (change : Entries FileNode → Entries FileNode) : FileNode → Location → FileNode
  | .file content, _ => .file content
  | .folder entries, [] => .folder (change entries)
  | .folder entries, name :: rest =>
      match Entries.get? name entries with
      | some child => .folder (Entries.put name (alterAt change child rest) entries)
      | none => .folder entries

theorem put_eq_alterAt (new tree : FileNode) (folder : Location) (name : String) :
    put new tree (folder ++ [name]) = alterAt (Entries.put name new) tree folder := by
  induction folder generalizing tree with
  | nil => cases tree <;> rfl
  | cons first folder ih =>
      obtain ⟨next, later, hlater⟩ := List.exists_cons_of_ne_nil (List.concat_ne_nil name folder)
      rw [List.cons_append, hlater]
      cases tree with
      | file content => rw [put, alterAt]
      | folder entries =>
          rw [put, alterAt]
          cases Entries.get? first entries with
          | none => rfl
          | some child => simp only [← hlater, ih]

theorem erase_eq_alterAt (tree : FileNode) (folder : Location) (name : String) :
    tree.erase (folder ++ [name]) = alterAt (Entries.erase name) tree folder := by
  induction folder generalizing tree with
  | nil => cases tree <;> rfl
  | cons first folder ih =>
      obtain ⟨next, later, hlater⟩ := List.exists_cons_of_ne_nil (List.concat_ne_nil name folder)
      rw [List.cons_append, hlater]
      cases tree with
      | file content => rw [erase, alterAt]
      | folder entries =>
          rw [erase, alterAt]
          cases Entries.get? first entries with
          | none => rfl
          | some child => simp only [← hlater, ih]

variable {change : Entries FileNode → Entries FileNode} {seen : Sight}

theorem alterAt_of_ne_folder (hfolder : tree.sight folder ≠ .folder) :
    alterAt change tree folder = tree := by
  induction folder generalizing tree with
  | nil =>
      cases tree with
      | file content => rfl
      | folder entries => exact absurd rfl hfolder
  | cons first folder ih =>
      cases tree with
      | file content => rfl
      | folder entries =>
          rw [sight_folder_cons] at hfolder
          rw [alterAt]
          cases hget : Entries.get? first entries with
          | none => rfl
          | some child =>
              rw [hget] at hfolder
              simp only [ih hfolder, Entries.put_eq_self_of_get? hget]

/-- A change that shows at one name of a folder shows at that name of the folder in the tree. -/
theorem sight_alterAt
    (hchange : ∀ entries : Entries FileNode, (FileNode.folder entries).sight [name] ≠ .folder →
      (FileNode.folder (change entries)).sight =
        Function.update (FileNode.folder entries).sight [name] seen)
    (hfolder : tree.sight folder = .folder) (hold : tree.sight (folder ++ [name]) ≠ .folder) :
    (alterAt change tree folder).sight = Function.update tree.sight (folder ++ [name]) seen := by
  induction folder generalizing tree with
  | nil =>
      cases tree with
      | file content => simp at hfolder
      | folder entries => exact hchange entries hold
  | cons first folder ih =>
      cases tree with
      | file content => simp at hfolder
      | folder entries =>
          rw [sight_folder_cons] at hfolder
          rw [List.cons_append, sight_folder_cons] at hold
          rw [alterAt]
          cases hget : Entries.get? first entries with
          | none => simp [hget] at hfolder
          | some child =>
              rw [hget] at hfolder hold
              have hchild := ih hfolder hold
              -- Only the child on the way differs, and it is seen under its own name.
              funext other
              cases other with
              | nil => simp
              | cons other later =>
                  by_cases hname : other = first
                  · subst hname
                    simp only [sight_folder_cons, Entries.get?_put_self, Option.map_some,
                      Option.getD_some, hchild, Function.update_apply, List.cons_append,
                      List.cons.injEq, true_and, hget]
                  · have hne : other :: later ≠ first :: (folder ++ [name]) :=
                      fun heq => hname (List.cons.inj heq).1
                    rw [List.cons_append, Function.update_of_ne hne, sight_folder_cons,
                      Entries.get?_put_of_ne hname, ← sight_folder_cons]

/-! ## Putting and erasing -/

/-- A change of the entry of one name, to a leaf or to nothing, shows at that name. -/
theorem sight_folder_update {entries changed : Entries FileNode}
    (hold : (FileNode.folder entries).sight [name] ≠ .folder)
    (hother : ∀ other, other ≠ name → changed.get? other = entries.get? other)
    (hbelow : ∀ first later, (FileNode.folder changed).sight (name :: first :: later) = .nothing) :
    (FileNode.folder changed).sight =
      Function.update (FileNode.folder entries).sight [name]
        ((FileNode.folder changed).sight [name]) := by
  funext location
  cases location with
  | nil => simp
  | cons first later =>
      by_cases hname : first = name
      · subst hname
        cases later with
        | nil => rw [Function.update_self]
        | cons next later =>
            have hnothing :
                (FileNode.folder entries).sight ([first] ++ (next :: later)) = .nothing :=
              sight_append_of_ne_folder hold (by simp)
            rw [Function.update_of_ne (by simp), hbelow]
            exact hnothing.symm
      · have hne : first :: later ≠ [name] := fun heq => hname (List.cons.inj heq).1
        rw [Function.update_of_ne hne, sight_folder_cons, hother first hname, ← sight_folder_cons]

theorem sight_put (hleaf : new.IsLeaf) (hfolder : tree.sight folder = .folder)
    (hold : tree.sight (folder ++ [name]) ≠ .folder) :
    (put new tree (folder ++ [name])).sight =
      Function.update tree.sight (folder ++ [name]) (new.sight []) := by
  rw [put_eq_alterAt]
  apply sight_alterAt _ hfolder hold
  intro entries hentry
  have hself : ∀ rest, (FileNode.folder (entries.put name new)).sight (name :: rest) =
      new.sight rest := by
    intro rest
    rw [sight_folder_cons, Entries.get?_put_self]
    rfl
  rw [← hself []]
  apply sight_folder_update hentry
  · intro other hne
    exact Entries.get?_put_of_ne hne new entries
  · intro first later
    rw [hself]
    exact hleaf first later

theorem sight_erase (hold : tree.sight (folder ++ [name]) ≠ .folder) :
    (tree.erase (folder ++ [name])).sight =
      Function.update tree.sight (folder ++ [name]) .nothing := by
  rw [erase_eq_alterAt]
  by_cases hfolder : tree.sight folder = .folder
  · apply sight_alterAt _ hfolder hold
    intro entries hentry
    have hself : ∀ rest, (FileNode.folder (Entries.erase name entries)).sight (name :: rest) =
        .nothing := by
      intro rest
      rw [sight_folder_cons, Entries.get?_erase_self]
      rfl
    rw [← hself []]
    apply sight_folder_update hentry
    · intro other hne
      exact Entries.get?_erase_of_ne hne entries
    · intro first later
      exact hself (first :: later)
  · have hnothing : tree.sight (folder ++ [name]) = .nothing :=
      sight_append_of_ne_folder hfolder (by simp)
    rw [alterAt_of_ne_folder hfolder, ← hnothing, Function.update_eq_self]

theorem put_of_ne_folder (hfolder : tree.sight folder ≠ .folder) :
    put new tree (folder ++ [name]) = tree := by
  rw [put_eq_alterAt, alterAt_of_ne_folder hfolder]

end FileNode

namespace FileSystem

def sight (files : FileSystem) (location : Location) : Sight :=
  files.root.sight location

def contentAt (files : FileSystem) (location : Location) : Option ByteArray :=
  (files.root.at? location).bind FileNode.content?

/-- Where a name leads to from a folder. -/
def follow (location : Location) (name : String) : Location :=
  if name = ".." then location.dropLast else location ++ [name]

/-- The locations that names lead to, one after the other. -/
def placesFrom (location : Location) : List String → List Location
  | [] => [location]
  | name :: rest => location :: placesFrom (follow location name) rest

/-- The location that a path leads to once all folders on its way are there. -/
def placeOf (files : FileSystem) (path : Path) : Location :=
  path.parts.foldl follow (files.start path)

/-- The locations of the folders on the way of a path. -/
def folderPlaces (files : FileSystem) (path : Path) : List Location :=
  placesFrom (files.start path) path.folder.parts

variable {files : FileSystem} {location next : Location} {name : String} {path : Path}
  {parts front : List String} {content : ByteArray}

/-! ## Sights of locations -/

theorem sight_eq_folder_iff :
    files.sight location = .folder ↔ (files.root.at? location).any FileNode.isFolder = true := by
  unfold sight FileNode.sight
  cases files.root.at? location with
  | none => simp
  | some node => cases node <;> simp [FileNode.isFolder]

theorem exists_entries_of_sight (hfolder : files.sight location = .folder) :
    ∃ entries, files.root.at? location = some (.folder entries) := by
  rw [sight_eq_folder_iff, Option.any_eq_true] at hfolder
  obtain ⟨node, hnode, hkind⟩ := hfolder
  cases node with
  | file content => contradiction
  | folder entries => exact ⟨entries, hnode⟩

theorem sight_eq_nothing_iff :
    files.sight location = .nothing ↔ files.root.at? location = none := by
  unfold sight FileNode.sight
  cases files.root.at? location with
  | none => simp
  | some node => cases node <;> simp

theorem sight_eq_file_iff :
    files.sight location = .file content ↔ files.root.at? location = some (.file content) := by
  unfold sight FileNode.sight
  cases files.root.at? location with
  | none => simp
  | some node => cases node <;> simp

theorem contentAt_eq_some_iff :
    files.contentAt location = some content ↔ files.sight location = .file content := by
  unfold contentAt sight FileNode.sight
  cases files.root.at? location with
  | none => simp
  | some node => cases node <;> simp [FileNode.content?]

theorem contentAt_eq_of_sight_eq {other : FileSystem}
    (hsight : other.sight location = files.sight location) :
    other.contentAt location = files.contentAt location := by
  apply Option.ext
  intro content
  rw [contentAt_eq_some_iff, contentAt_eq_some_iff, hsight]

theorem sight_folder_of_below (hsight : files.sight (location ++ [name]) ≠ .nothing) :
    files.sight location = .folder := by
  by_contra hfolder
  exact hsight (FileNode.sight_append_of_ne_folder hfolder (by simp))

theorem sight_dropLast (hfolder : files.sight location = .folder) :
    files.sight location.dropLast = .folder := by
  rcases List.eq_nil_or_concat location with rfl | ⟨upper, name, rfl⟩
  · exact hfolder
  · rw [List.concat_eq_append] at hfolder ⊢
    rw [List.dropLast_concat]
    have hsome : files.sight (upper ++ [name]) ≠ .nothing := by simp [hfolder]
    exact sight_folder_of_below hsome

/-! ## Walks -/

theorem at?_concat (tree : FileNode) (location : Location) (name : String) :
    tree.at? (location ++ [name]) =
      (tree.at? location).bind fun node => Entries.get? name node.entries := by
  induction location generalizing tree with
  | nil =>
      rw [List.nil_append, FileNode.at?, FileNode.at?, Option.bind_some]
      cases Entries.get? name tree.entries <;> rfl
  | cons first location ih =>
      rw [List.cons_append, FileNode.at?, FileNode.at?]
      cases Entries.get? first tree.entries with
      | none => rfl
      | some child => exact ih child

theorem step_of_ne_folder (hfolder : files.sight location ≠ .folder) :
    files.step location name = none := by
  rw [ne_eq, sight_eq_folder_iff] at hfolder
  unfold step
  split
  · next hentries => simp [hentries, FileNode.isFolder] at hfolder
  · rfl

theorem step_eq_some_iff (hfolder : files.sight location = .folder) :
    files.step location name = some next ↔
      next = follow location name ∧
        (name = ".." ∨ files.sight (location ++ [name]) ≠ .nothing) := by
  obtain ⟨entries, hentries⟩ := exists_entries_of_sight hfolder
  have hchild :
      files.sight (location ++ [name]) ≠ .nothing ↔ (Entries.get? name entries).isSome := by
    rw [ne_eq, sight_eq_nothing_iff, at?_concat, hentries, Option.bind_some, FileNode.entries,
      Option.isSome_iff_ne_none]
  rw [hchild]
  simp only [step, hentries, follow]
  by_cases hup : name = ".."
  · rw [if_pos hup, if_pos hup, Option.some.injEq]
    exact ⟨fun heq => ⟨heq.symm, .inl hup⟩, fun hboth => hboth.1.symm⟩
  · rw [if_neg hup, if_neg hup]
    by_cases hsome : (Entries.get? name entries).isSome
    · rw [if_pos hsome, Option.some.injEq]
      exact ⟨fun heq => ⟨heq.symm, .inr hsome⟩, fun hboth => hboth.1.symm⟩
    · simp [hsome, hup]

theorem sight_of_step (hstep : files.step location name = some next) :
    files.sight location = .folder ∧ next = follow location name := by
  have hfolder : files.sight location = .folder := by
    by_contra hnot
    rw [step_of_ne_folder hnot] at hstep
    contradiction
  exact ⟨hfolder, ((step_eq_some_iff hfolder).1 hstep).1⟩

theorem sight_of_step_eq_none (hfolder : files.sight location = .folder)
    (hstep : files.step location name = none) :
    name ≠ ".." ∧ files.sight (location ++ [name]) = .nothing := by
  by_contra hnot
  have hleads : name = ".." ∨ files.sight (location ++ [name]) ≠ .nothing := by
    by_cases hup : name = ".."
    · exact .inl hup
    · exact .inr fun hnothing => hnot ⟨hup, hnothing⟩
  rw [(step_eq_some_iff hfolder).2 ⟨rfl, hleads⟩] at hstep
  contradiction

theorem mem_placesFrom_self (location : Location) (parts : List String) :
    location ∈ placesFrom location parts := by
  cases parts <;> exact List.mem_cons_self

/-- Through folders a walk gets to the last place. -/
theorem foldlM_step_of_folders (hfront : front <+: parts)
    (hfolders : ∀ place ∈ placesFrom location parts, files.sight place = .folder) :
    front.foldlM files.step location = some (front.foldl follow location) ∧
      files.sight (front.foldl follow location) = .folder := by
  induction parts generalizing location front with
  | nil =>
      rw [List.prefix_nil] at hfront
      subst hfront
      exact ⟨rfl, hfolders location (mem_placesFrom_self location [])⟩
  | cons name rest ih =>
      have hhere := hfolders location (mem_placesFrom_self location _)
      cases front with
      | nil => exact ⟨rfl, hhere⟩
      | cons first front =>
          obtain ⟨rfl, hrest⟩ := List.cons_prefix_cons.1 hfront
          have hlater : ∀ place ∈ placesFrom (follow location first) rest,
              files.sight place = .folder :=
            fun place hplace => hfolders place (List.mem_cons_of_mem _ hplace)
          have hnext := hlater _ (mem_placesFrom_self _ rest)
          have hleads : first = ".." ∨ files.sight (location ++ [first]) ≠ .nothing := by
            by_cases hup : first = ".."
            · exact .inl hup
            · rw [follow, if_neg hup] at hnext
              simp [hnext]
          have hstep := (step_eq_some_iff hhere).2 ⟨rfl, hleads⟩
          rw [List.foldlM_cons, List.foldl_cons, hstep]
          exact ih hrest hlater

theorem isFolder_of_folders (hfront : front <+: path.folder.parts)
    (hfolders : ∀ place ∈ files.folderPlaces path, files.sight place = .folder) :
    files.isFolder { path with parts := front } = true := by
  obtain ⟨hwalk, hsight⟩ := foldlM_step_of_folders hfront hfolders
  rw [sight_eq_folder_iff] at hsight
  have hlocate : files.locate { path with parts := front } =
      some (front.foldl follow (files.start path)) := hwalk
  rw [isFolder, node?, hlocate]
  exact hsight

theorem parts_eq_concat (hname : path.parts.getLast? = some name) :
    path.parts = path.folder.parts ++ [name] :=
  (List.dropLast_append_getLast? name hname).symm

theorem placeOf_of_name (hname : path.parts.getLast? = some name) (hdown : name ≠ "..") :
    files.placeOf path = files.placeOf path.folder ++ [name] := by
  have hstart : files.start path.folder = files.start path := rfl
  unfold placeOf
  rw [parts_eq_concat hname, List.foldl_append, hstart, List.foldl_cons, List.foldl_nil, follow,
    if_neg hdown]

/-- What stands where a path leads to is found under the path. -/
theorem content?_of_folders (hname : path.parts.getLast? = some name) (hdown : name ≠ "..")
    (hfolders : ∀ place ∈ files.folderPlaces path, files.sight place = .folder)
    (hfile : files.sight (files.placeOf path) = .file content) :
    files.content? path = some content := by
  obtain ⟨hwalk, hfolder⟩ := foldlM_step_of_folders List.prefix_rfl hfolders
  have hsame :
      (path.folder.parts.foldl follow (files.start path)) = files.placeOf path.folder := rfl
  have hplace : files.placeOf path = files.placeOf path.folder ++ [name] :=
    placeOf_of_name hname hdown
  rw [hsame] at hwalk hfolder
  rw [hplace] at hfile
  have hstep : files.step (files.placeOf path.folder) name =
      some (files.placeOf path.folder ++ [name]) := by
    have hleads : files.sight (files.placeOf path.folder ++ [name]) ≠ .nothing := by simp [hfile]
    rw [(step_eq_some_iff hfolder).2 ⟨rfl, .inr hleads⟩, follow, if_neg hdown]
  have hlocate : files.locate path = some (files.placeOf path.folder ++ [name]) := by
    rw [locate, parts_eq_concat hname, List.foldlM_append, hwalk]
    simp [hstep]
  rw [content?, node?, hlocate, Option.bind_some, sight_eq_file_iff.1 hfile]
  rfl

end FileSystem

end ConfigSchema
