import ConfigSchema.Files.Writing
import ConfigSchema.Proofs.FileTrees
import Mathlib.Logic.Relation

/-!
# The steps of a write

A write makes the folders on its way one by one, starts a file under a name that is free, fills
it, checks its content, and moves it to its place; any of this may fail.  What a step leaves can
be told from how far the write has come, whatever the medium does and however often it fails.
-/

namespace ConfigSchema

/-- What is written where.  Only a JSON text that is to be validated is checked. -/
structure WriteOrder where
  path : Path
  content : String
  format : String := "text"
  isValidated : Bool := true
  deriving DecidableEq, Inhabited

def WriteOrder.isChecked (order : WriteOrder) : Bool :=
  order.format = "json" && order.isValidated

/-- What has become of the content of a temporary file. -/
inductive Progress where
  | begun
  | filled
  | checked
  deriving DecidableEq, Inhabited

/-- How far a write has come. -/
inductive WriteStage where
  /-- From this folder on the folders of these names are made. -/
  | entering (folder : Location) (names : List String)
  /-- There is a temporary file in the folder. -/
  | holding (folder : Location) (fresh : String) (progress : Progress)
  | moved
  | failed
  /-- It has failed, and the temporary file is still there. -/
  | stuck (temporary : Location)
  deriving DecidableEq, Inhabited

namespace FileSystem

def putAt (files : FileSystem) (location : Location) (node : FileNode) : FileSystem :=
  { files with root := node.put files.root location }

/-- What stands at a location is what stood there, or a folder on the way of a path where nothing
stood. -/
def KeepsAt (before after : FileSystem) (path : Path) (location : Location) : Prop :=
  after.sight location = before.sight location ∨
    location ∈ before.folderPlaces path ∧ before.sight location = .nothing ∧
      after.sight location = .folder

variable {before after files : FileSystem} {path : Path} {location folder : Location}
  {name : String} {node : FileNode} {content : ByteArray}

theorem sight_putAt (hleaf : node.IsLeaf) (hfolder : files.sight folder = .folder)
    (hold : files.sight (folder ++ [name]) ≠ .folder) :
    (files.putAt (folder ++ [name]) node).sight =
      Function.update files.sight (folder ++ [name]) (node.sight []) :=
  FileNode.sight_put hleaf hfolder hold

theorem sight_remove (hold : files.sight (folder ++ [name]) ≠ .folder) :
    (Files.remove files (folder ++ [name])).sight =
      Function.update files.sight (folder ++ [name]) .nothing :=
  FileNode.sight_erase hold

theorem sight_of_mem_concat {done : List Location} {place : Location}
    (hdone : ∀ place ∈ done, files.sight place = .folder) (hfolder : files.sight folder = .folder)
    (hplace : place ∈ done ++ [folder]) : files.sight place = .folder := by
  rcases List.mem_append.1 hplace with hbefore | hlast
  · exact hdone place hbefore
  · rw [List.mem_singleton.1 hlast]
    exact hfolder

theorem KeepsAt.of_ne_nothing (hkeeps : before.KeepsAt after path location)
    (hsight : before.sight location ≠ .nothing) : after.sight location = before.sight location := by
  rcases hkeeps with heq | ⟨-, hnothing, -⟩
  · exact heq
  · exact absurd hnothing hsight

theorem KeepsAt.nothing (hkeeps : before.KeepsAt after path location)
    (hsight : after.sight location = .nothing) : before.sight location = .nothing := by
  rcases hkeeps with heq | ⟨-, hnothing, -⟩
  · rw [← heq]
    exact hsight
  · exact hnothing

theorem KeepsAt.contentAt (hkeeps : before.KeepsAt after path location) :
    after.contentAt location = before.contentAt location := by
  rcases hkeeps with heq | ⟨-, hnothing, hfolder⟩
  · exact contentAt_eq_of_sight_eq heq
  · have hbefore : before.contentAt location = none := by
      rw [FileSystem.contentAt, sight_eq_nothing_iff.1 hnothing]
      rfl
    obtain ⟨entries, hentries⟩ := exists_entries_of_sight hfolder
    have hafter : after.contentAt location = none := by
      rw [FileSystem.contentAt, hentries]
      rfl
    rw [hbefore, hafter]

end FileSystem

namespace Files

/-- One step of a write, on a medium that may refuse it and may leave a file half filled. -/
inductive WriteStep [Runtime] (order : WriteOrder) :
    FileSystem × WriteStage → FileSystem × WriteStage → Prop
  | enter {files : FileSystem} {folder next : Location} {name : String} {names : List String}
      (hstep : files.step folder name = some next) (hnext : files.sight next = .folder) :
      WriteStep order (files, .entering folder (name :: names)) (files, .entering next names)
  | makeFolder {files : FileSystem} {folder : Location} {name : String} {names : List String}
      (hfolder : files.sight folder = .folder) (hstep : files.step folder name = none) :
      WriteStep order (files, .entering folder (name :: names))
        (files.putAt (folder ++ [name]) (.folder []), .entering (folder ++ [name]) names)
  | begin {files : FileSystem} {folder : Location} {fresh : String}
      (hfolder : files.sight folder = .folder) (hfree : files.sight (folder ++ [fresh]) = .nothing)
      (hfresh : fresh ≠ order.path.name) :
      WriteStep order (files, .entering folder [])
        (files.putAt (folder ++ [fresh]) (.file .empty), .holding folder fresh .begun)
  | fillPart {files : FileSystem} {folder : Location} {fresh : String} (part : ByteArray) :
      WriteStep order (files, .holding folder fresh .begun)
        (files.putAt (folder ++ [fresh]) (.file part), .holding folder fresh .begun)
  | fill {files : FileSystem} {folder : Location} {fresh : String}
      (hbytes : Text.hasSurrogate order.content = false) :
      WriteStep order (files, .holding folder fresh .begun)
        (files.putAt (folder ++ [fresh]) (.file order.content.toUTF8),
          .holding folder fresh .filled)
  | check {files : FileSystem} {folder : Location} {fresh : String}
      (hcheck : order.isChecked = true → checkDocument order.content = .ok ()) :
      WriteStep order (files, .holding folder fresh .filled) (files, .holding folder fresh .checked)
  | move {files : FileSystem} {folder : Location} {fresh : String} {node : FileNode}
      (hnode : files.root.at? (folder ++ [fresh]) = some node)
      (htarget : files.sight (targetOf folder order.path.name) ≠ .folder) :
      WriteStep order (files, .holding folder fresh .checked)
        ((remove files (folder ++ [fresh])).putAt (targetOf folder order.path.name) node, .moved)
  | giveUp {files : FileSystem} {folder : Location} {names : List String} :
      WriteStep order (files, .entering folder names) (files, .failed)
  | clean {files : FileSystem} {folder : Location} {fresh : String} {progress : Progress} :
      WriteStep order (files, .holding folder fresh progress)
        (remove files (folder ++ [fresh]), .failed)
  | leave {files : FileSystem} {folder : Location} {fresh : String} {progress : Progress} :
      WriteStep order (files, .holding folder fresh progress) (files, .stuck (folder ++ [fresh]))

def atStart (files : FileSystem) (order : WriteOrder) : FileSystem × WriteStage :=
  (files, .entering (files.start order.path) order.path.folder.parts)

/-! ## What a write leaves -/

/-- Nothing has changed but for folders on the way. -/
structure IsUnwritten (order : WriteOrder) (before after : FileSystem) : Prop where
  here_eq : after.here = before.here
  keepsAt : ∀ location, before.KeepsAt after order.path location

/-- The content stands in its place, and apart from that and from folders on the way nothing has
changed. -/
structure IsWritten [Runtime] (order : WriteOrder) (before after : FileSystem) : Prop where
  here_eq : after.here = before.here
  content?_eq : after.content? order.path = some order.content.toUTF8
  sight_placeOf : after.sight (before.placeOf order.path) = .file order.content.toUTF8
  isFolder : ∀ front, front <+: order.path.folder.parts →
    after.isFolder { order.path with parts := front } = true
  keepsAt : ∀ location, location ≠ before.placeOf order.path →
    before.KeepsAt after order.path location
  checked : order.isChecked = true → ∃ members, Json.read order.content .check = .ok (.obj members)

/-- Nothing has changed but for folders on the way and a new file beside the target. -/
structure IsStuck (order : WriteOrder) (before after : FileSystem) (temporary : Location) :
    Prop where
  here_eq : after.here = before.here
  beside : ∃ fresh, fresh ≠ order.path.name ∧
    temporary = before.placeOf order.path.folder ++ [fresh]
  free : before.sight temporary = .nothing
  file : ∃ bytes, after.sight temporary = .file bytes
  keepsAt : ∀ location, location ≠ temporary → before.KeepsAt after order.path location

/-- Between two steps the target has its old content or all of the new one, whatever stood
somewhere still stands there unless the content has replaced it, and all that is new elsewhere are
folders on the way and a file beside the target. -/
structure IsPassing (order : WriteOrder) (before files : FileSystem) : Prop where
  target : files.contentAt (before.placeOf order.path) =
      before.contentAt (before.placeOf order.path) ∨
    files.contentAt (before.placeOf order.path) = some order.content.toUTF8
  kept : ∀ location, before.sight location ≠ .nothing →
    files.sight location = before.sight location ∨
      location = before.placeOf order.path ∧
        files.sight location = .file order.content.toUTF8
  new : ∀ location, location ≠ before.placeOf order.path → before.sight location = .nothing →
    files.sight location = .nothing ∨
      location ∈ before.folderPlaces order.path ∧ files.sight location = .folder ∨
      ∃ fresh bytes, location = before.placeOf order.path.folder ++ [fresh] ∧
        files.sight location = .file bytes

/-- The state of a write that holds a temporary file: it is the one thing that sets the tree apart
from the one that was ready for it. -/
structure IsHolding [Runtime] (order : WriteOrder) (before ready files : FileSystem)
    (folder : Location) (fresh : String) (progress : Progress) (bytes : ByteArray) : Prop where
  here_eq : files.here = before.here
  ready_unwritten : IsUnwritten order before ready
  ready_folders : ∀ place ∈ before.folderPlaces order.path, ready.sight place = .folder
  folder_eq : folder = before.placeOf order.path.folder
  free : ready.sight (folder ++ [fresh]) = .nothing
  fresh_ne : fresh ≠ order.path.name
  sight_eq : files.sight = Function.update ready.sight (folder ++ [fresh]) (.file bytes)
  bytes_eq : progress ≠ .begun → bytes = order.content.toUTF8
  checked : progress = .checked → order.isChecked = true → checkDocument order.content = .ok ()

/-- What holds of the files at each stage of a write. -/
def Invariant [Runtime] (order : WriteOrder) (before : FileSystem) : FileSystem × WriteStage → Prop
  | (files, .entering folder names) =>
      IsUnwritten order before files ∧
        (∃ done, before.folderPlaces order.path = done ++ FileSystem.placesFrom folder names ∧
          ∀ place ∈ done, files.sight place = .folder) ∧
        names.foldl FileSystem.follow folder = before.placeOf order.path.folder
  | (files, .holding folder fresh progress) =>
      ∃ ready bytes, IsHolding order before ready files folder fresh progress bytes
  | (files, .moved) => IsWritten order before files
  | (files, .failed) => IsUnwritten order before files
  | (files, .stuck temporary) => IsStuck order before files temporary

variable {order : WriteOrder} {before ready files after : FileSystem} {folder next : Location}
  {name fresh : String} {names : List String} {progress : Progress} {bytes : ByteArray}

/-! ## One step -/

theorem isUnwritten_self (order : WriteOrder) (files : FileSystem) :
    IsUnwritten order files files :=
  ⟨rfl, fun _ => .inl rfl⟩

theorem invariant_atStart [Runtime] (order : WriteOrder) (before : FileSystem) :
    Invariant order before (atStart before order) :=
  ⟨isUnwritten_self order before, ⟨[], rfl, by simp⟩, rfl⟩

theorem Invariant.enter [Runtime]
    (hinv : Invariant order before (files, .entering folder (name :: names)))
    (hstep : files.step folder name = some next) :
    Invariant order before (files, .entering next names) := by
  obtain ⟨hunwritten, ⟨done, hplaces, hdone⟩, hend⟩ := hinv
  obtain ⟨hfolder, rfl⟩ := FileSystem.sight_of_step hstep
  refine ⟨hunwritten, ⟨done ++ [folder], ?_, ?_⟩, hend⟩
  · rw [hplaces, List.append_assoc]
    rfl
  · intro place hplace
    exact FileSystem.sight_of_mem_concat hdone hfolder hplace

theorem sight_putAt_of_ne_nothing {node : FileNode} (hleaf : node.IsLeaf)
    (hfolder : files.sight folder = .folder) (hmissing : files.sight (folder ++ [name]) = .nothing)
    {location : Location} (hlocation : files.sight location ≠ .nothing) :
    (files.putAt (folder ++ [name]) node).sight location = files.sight location := by
  have hold : files.sight (folder ++ [name]) ≠ .folder := by simp [hmissing]
  rw [FileSystem.sight_putAt hleaf hfolder hold, Function.update_of_ne]
  rintro rfl
  exact hlocation hmissing

theorem IsUnwritten.putFolder (hunwritten : IsUnwritten order before files)
    (hway : folder ++ [name] ∈ before.folderPlaces order.path)
    (hfolder : files.sight folder = .folder)
    (hmissing : files.sight (folder ++ [name]) = .nothing) :
    IsUnwritten order before (files.putAt (folder ++ [name]) (.folder [])) where
  here_eq := hunwritten.here_eq
  keepsAt := by
    have hold : files.sight (folder ++ [name]) ≠ .folder := by simp [hmissing]
    have hsight := FileSystem.sight_putAt FileNode.isLeaf_empty hfolder hold
    intro location
    unfold FileSystem.KeepsAt
    rw [hsight]
    by_cases hlocation : location = folder ++ [name]
    · subst hlocation
      rw [Function.update_self]
      exact .inr ⟨hway, (hunwritten.keepsAt _).nothing hmissing, rfl⟩
    · rw [Function.update_of_ne hlocation]
      exact hunwritten.keepsAt location

theorem Invariant.makeFolder [Runtime]
    (hinv : Invariant order before (files, .entering folder (name :: names)))
    (hfolder : files.sight folder = .folder) (hstep : files.step folder name = none) :
    Invariant order before
      (files.putAt (folder ++ [name]) (.folder []), .entering (folder ++ [name]) names) := by
  obtain ⟨hunwritten, ⟨done, hplaces, hdone⟩, hend⟩ := hinv
  obtain ⟨hdown, hmissing⟩ := FileSystem.sight_of_step_eq_none hfolder hstep
  have hnext : FileSystem.follow folder name = folder ++ [name] := by
    rw [FileSystem.follow, if_neg hdown]
  have hsplit : before.folderPlaces order.path =
      done ++ [folder] ++ FileSystem.placesFrom (folder ++ [name]) names := by
    rw [hplaces, FileSystem.placesFrom, hnext, List.append_assoc]
    rfl
  have hway : folder ++ [name] ∈ before.folderPlaces order.path := by
    rw [hsplit]
    exact List.mem_append_right _ (FileSystem.mem_placesFrom_self _ names)
  refine ⟨hunwritten.putFolder hway hfolder hmissing, ⟨done ++ [folder], hsplit, ?_⟩, ?_⟩
  · intro place hplace
    have hsight := FileSystem.sight_of_mem_concat hdone hfolder hplace
    rw [sight_putAt_of_ne_nothing FileNode.isLeaf_empty hfolder hmissing (by simp [hsight])]
    exact hsight
  · rw [← hnext]
    exact hend

theorem Invariant.begin [Runtime] (hinv : Invariant order before (files, .entering folder []))
    (hfolder : files.sight folder = .folder) (hfree : files.sight (folder ++ [fresh]) = .nothing)
    (hfresh : fresh ≠ order.path.name) :
    Invariant order before
      (files.putAt (folder ++ [fresh]) (.file .empty), .holding folder fresh .begun) := by
  obtain ⟨hunwritten, ⟨done, hplaces, hdone⟩, hend⟩ := hinv
  refine ⟨files, .empty, ?_⟩
  constructor
  case here_eq => exact hunwritten.here_eq
  case ready_unwritten => exact hunwritten
  case ready_folders =>
    intro place hplace
    rw [hplaces] at hplace
    exact FileSystem.sight_of_mem_concat hdone hfolder hplace
  case folder_eq => exact hend
  case free => exact hfree
  case fresh_ne => exact hfresh
  case sight_eq =>
    exact FileSystem.sight_putAt (FileNode.isLeaf_file _) hfolder (by simp [hfree])
  case bytes_eq => simp
  case checked => simp

theorem IsHolding.sight_folder [Runtime]
    (hholding : IsHolding order before ready files folder fresh progress bytes) :
    files.sight folder = .folder ∧ files.sight (folder ++ [fresh]) = .file bytes := by
  have hhere : files.sight (folder ++ [fresh]) = .file bytes := by
    rw [hholding.sight_eq, Function.update_self]
  have hsome : files.sight (folder ++ [fresh]) ≠ .nothing := by simp [hhere]
  exact ⟨FileSystem.sight_folder_of_below hsome, hhere⟩

theorem IsHolding.sight_of_ne [Runtime]
    (hholding : IsHolding order before ready files folder fresh progress bytes)
    {location : Location} (hne : location ≠ folder ++ [fresh]) :
    files.sight location = ready.sight location := by
  rw [hholding.sight_eq, Function.update_of_ne hne]

theorem IsHolding.putAt [Runtime]
    (hholding : IsHolding order before ready files folder fresh progress bytes) {later : Progress}
    {others : ByteArray} (hbytes : later ≠ .begun → others = order.content.toUTF8)
    (hchecked : later ≠ .checked) :
    IsHolding order before ready (files.putAt (folder ++ [fresh]) (.file others)) folder fresh
      later others where
  here_eq := hholding.here_eq
  ready_unwritten := hholding.ready_unwritten
  ready_folders := hholding.ready_folders
  folder_eq := hholding.folder_eq
  free := hholding.free
  fresh_ne := hholding.fresh_ne
  sight_eq := by
    obtain ⟨hfolder, hhere⟩ := hholding.sight_folder
    rw [FileSystem.sight_putAt (FileNode.isLeaf_file _) hfolder (by simp [hhere]),
      hholding.sight_eq, Function.update_idem]
    rfl
  bytes_eq := hbytes
  checked := fun hlater => absurd hlater hchecked

theorem IsHolding.sight_remove [Runtime]
    (hholding : IsHolding order before ready files folder fresh progress bytes) :
    (remove files (folder ++ [fresh])).sight = ready.sight := by
  have hhere := hholding.sight_folder.2
  rw [FileSystem.sight_remove (by simp [hhere]), hholding.sight_eq, Function.update_idem,
    ← hholding.free, Function.update_eq_self]

theorem IsHolding.isUnwritten_remove [Runtime]
    (hholding : IsHolding order before ready files folder fresh progress bytes) :
    IsUnwritten order before (remove files (folder ++ [fresh])) where
  here_eq := hholding.here_eq
  keepsAt := by
    intro location
    unfold FileSystem.KeepsAt
    rw [hholding.sight_remove]
    exact hholding.ready_unwritten.keepsAt location

theorem IsHolding.isStuck [Runtime]
    (hholding : IsHolding order before ready files folder fresh progress bytes) :
    IsStuck order before files (folder ++ [fresh]) where
  here_eq := hholding.here_eq
  beside := ⟨fresh, hholding.fresh_ne, by rw [hholding.folder_eq]⟩
  free := (hholding.ready_unwritten.keepsAt _).nothing hholding.free
  file := ⟨bytes, hholding.sight_folder.2⟩
  keepsAt := by
    intro location hne
    unfold FileSystem.KeepsAt
    rw [hholding.sight_of_ne hne]
    exact hholding.ready_unwritten.keepsAt location

/-- Where no folder is, the target is the last name of the path in its folder. -/
theorem last_of_target {path : Path} (hfolder : files.sight folder = .folder)
    (htarget : files.sight (targetOf folder path.name) ≠ .folder) :
    path.parts.getLast? = some path.name ∧ path.name ≠ ".." ∧
      targetOf folder path.name = folder ++ [path.name] := by
  have hsome : path.name ≠ "" := by
    intro hempty
    rw [targetOf, if_pos hempty] at htarget
    exact htarget hfolder
  have hdown : path.name ≠ ".." := by
    intro hup
    rw [targetOf, if_neg hsome, if_pos hup] at htarget
    exact htarget (FileSystem.sight_dropLast hfolder)
  refine ⟨?_, hdown, ?_⟩
  · unfold Path.name at hsome ⊢
    cases hlast : path.parts.getLast? with
    | none => simp [hlast] at hsome
    | some last => rfl
  · rw [targetOf, if_neg hsome, if_neg hdown]

theorem exists_of_checkDocument [Runtime] {content : String}
    (hcheck : checkDocument content = .ok ()) :
    ∃ members, Json.read content .check = .ok (.obj members) := by
  unfold checkDocument at hcheck
  split at hcheck
  · contradiction
  · contradiction
  · next members hread => exact ⟨members, hread⟩
  · contradiction

/-- A tree with the folders on the way in which the content alone is new is what was to be
written. -/
theorem isWritten_of_sight [Runtime] (hready : IsUnwritten order before ready)
    (hfolders : ∀ place ∈ before.folderPlaces order.path, ready.sight place = .folder)
    (hhere : after.here = before.here)
    (hname : order.path.parts.getLast? = some order.path.name) (hdown : order.path.name ≠ "..")
    (hfree : ready.sight (before.placeOf order.path) ≠ .folder)
    (hsight : after.sight = Function.update ready.sight (before.placeOf order.path)
      (.file order.content.toUTF8))
    (hchecked : order.isChecked = true → checkDocument order.content = .ok ()) :
    IsWritten order before after := by
  have hstart : after.start order.path = before.start order.path := by
    rw [FileSystem.start, FileSystem.start, hhere]
  have hplace : after.placeOf order.path = before.placeOf order.path := by
    rw [FileSystem.placeOf, FileSystem.placeOf, hstart]
  have hway : after.folderPlaces order.path = before.folderPlaces order.path := by
    rw [FileSystem.folderPlaces, FileSystem.folderPlaces, hstart]
  have hthere : after.sight (before.placeOf order.path) = .file order.content.toUTF8 := by
    rw [hsight, Function.update_self]
  have hafter : ∀ place ∈ after.folderPlaces order.path, after.sight place = .folder := by
    intro place hmem
    rw [hway] at hmem
    have hne : place ≠ before.placeOf order.path := by
      rintro rfl
      exact hfree (hfolders _ hmem)
    rw [hsight, Function.update_of_ne hne]
    exact hfolders place hmem
  constructor
  case here_eq => exact hhere
  case content?_eq =>
    apply FileSystem.content?_of_folders hname hdown hafter
    rw [hplace]
    exact hthere
  case sight_placeOf => exact hthere
  case isFolder =>
    intro front hfront
    exact FileSystem.isFolder_of_folders hfront hafter
  case keepsAt =>
    intro location hne
    unfold FileSystem.KeepsAt
    rw [hsight, Function.update_of_ne hne]
    exact hready.keepsAt location
  case checked => exact fun hasked => exists_of_checkDocument (hchecked hasked)

theorem IsHolding.isWritten_move [Runtime]
    (hholding : IsHolding order before ready files folder fresh .checked bytes) {node : FileNode}
    (hnode : files.root.at? (folder ++ [fresh]) = some node)
    (htarget : files.sight (targetOf folder order.path.name) ≠ .folder) :
    IsWritten order before
      ((remove files (folder ++ [fresh])).putAt (targetOf folder order.path.name) node) := by
  obtain ⟨hfolder, hhere⟩ := hholding.sight_folder
  obtain ⟨hname, hdown, htargetOf⟩ := last_of_target hfolder htarget
  rw [htargetOf] at htarget ⊢
  have hbytes := hholding.bytes_eq (by simp)
  have hfile : node = .file order.content.toUTF8 := by
    rw [FileSystem.sight_eq_file_iff, hnode, Option.some.injEq] at hhere
    rw [hhere, hbytes]
  -- The target is not the temporary file, so what stands there stood there before.
  have hfolderReady : ready.sight folder = .folder := by
    rw [← hholding.sight_of_ne (by simp)]
    exact hfolder
  have htargetReady : ready.sight (folder ++ [order.path.name]) ≠ .folder := by
    rw [← hholding.sight_of_ne (by simpa using hholding.fresh_ne.symm)]
    exact htarget
  have hplace : before.placeOf order.path = folder ++ [order.path.name] := by
    rw [FileSystem.placeOf_of_name hname hdown, ← hholding.folder_eq]
  have hcleared := hholding.sight_remove
  have hhereAfter : ((remove files (folder ++ [fresh])).putAt (folder ++ [order.path.name])
      node).here = before.here := hholding.here_eq
  apply isWritten_of_sight hholding.ready_unwritten hholding.ready_folders hhereAfter hname hdown
  case hfree =>
    rw [hplace]
    exact htargetReady
  case hsight =>
    rw [hplace, hfile, FileSystem.sight_putAt (FileNode.isLeaf_file _), hcleared]
    · rfl
    · rw [hcleared]
      exact hfolderReady
    · rw [hcleared]
      exact htargetReady
  case hchecked => exact hholding.checked rfl

/-! ## All steps -/

theorem Invariant.step [Runtime] {state next : FileSystem × WriteStage}
    (hinv : Invariant order before state)
    (hstep : WriteStep order state next) : Invariant order before next := by
  cases hstep with
  | enter hstep hnext => exact hinv.enter hstep
  | makeFolder hfolder hstep => exact hinv.makeFolder hfolder hstep
  | «begin» hfolder hfree hfresh => exact hinv.begin hfolder hfree hfresh
  | fillPart part =>
      obtain ⟨ready, bytes, hholding⟩ := hinv
      exact ⟨ready, part, hholding.putAt (by simp) (by simp)⟩
  | fill hbytes =>
      obtain ⟨ready, bytes, hholding⟩ := hinv
      exact ⟨ready, _, hholding.putAt (fun _ => rfl) (by simp)⟩
  | check hcheck =>
      obtain ⟨ready, bytes, hholding⟩ := hinv
      have hbytes := hholding.bytes_eq (by simp)
      exact ⟨ready, bytes,
        { hholding with bytes_eq := fun _ => hbytes, checked := fun _ => hcheck }⟩
  | move hnode htarget =>
      obtain ⟨ready, bytes, hholding⟩ := hinv
      exact hholding.isWritten_move hnode htarget
  | giveUp => exact hinv.1
  | clean =>
      obtain ⟨ready, bytes, hholding⟩ := hinv
      exact hholding.isUnwritten_remove
  | leave =>
      obtain ⟨ready, bytes, hholding⟩ := hinv
      exact hholding.isStuck

theorem Invariant.steps [Runtime] {state : FileSystem × WriteStage}
    (hsteps : Relation.ReflTransGen (WriteStep order) (atStart before order) state) :
    Invariant order before state := by
  induction hsteps with
  | refl => exact invariant_atStart order before
  | tail _ hstep ih => exact ih.step hstep

/-! ## Between two steps -/

theorem IsUnwritten.isPassing (hunwritten : IsUnwritten order before files) :
    IsPassing order before files where
  target := .inl (hunwritten.keepsAt _).contentAt
  kept := fun location hsome => .inl ((hunwritten.keepsAt location).of_ne_nothing hsome)
  new := by
    intro location _ hnothing
    rcases hunwritten.keepsAt location with heq | ⟨hway, -, hfolder⟩
    · exact .inl (heq.trans hnothing)
    · exact .inr (.inl ⟨hway, hfolder⟩)

theorem IsWritten.isPassing [Runtime] (hwritten : IsWritten order before files) :
    IsPassing order before files where
  target := .inr (FileSystem.contentAt_eq_some_iff.2 hwritten.sight_placeOf)
  kept := by
    intro location hsome
    by_cases hplace : location = before.placeOf order.path
    · rw [hplace]
      exact .inr ⟨rfl, hwritten.sight_placeOf⟩
    · exact .inl ((hwritten.keepsAt location hplace).of_ne_nothing hsome)
  new := by
    intro location hne hnothing
    rcases hwritten.keepsAt location hne with heq | ⟨hway, -, hfolder⟩
    · exact .inl (heq.trans hnothing)
    · exact .inr (.inl ⟨hway, hfolder⟩)

theorem placeOf_ne_concat {path : Path} (hfresh : fresh ≠ path.name) :
    before.placeOf path ≠ before.placeOf path.folder ++ [fresh] := by
  cases hlast : path.parts.getLast? with
  | none =>
      have hparts : path.parts = [] := List.getLast?_eq_none_iff.1 hlast
      have hplace : before.placeOf path = before.placeOf path.folder := by
        have hstart : before.start path.folder = before.start path := rfl
        rw [FileSystem.placeOf, FileSystem.placeOf, hstart, Path.folder, hparts]
        rfl
      rw [hplace]
      simp
  | some last =>
      have hname : path.name = last := by
        rw [Path.name, hlast]
        rfl
      by_cases hup : last = ".."
      -- A path that leads up in the end comes to a location above its folder.
      · have hplace : before.placeOf path = (before.placeOf path.folder).dropLast := by
          have hstart : before.start path.folder = before.start path := rfl
          rw [FileSystem.placeOf, FileSystem.parts_eq_concat hlast, List.foldl_append, hup,
            FileSystem.placeOf, hstart]
          rfl
        intro heq
        have hlength := congrArg List.length (hplace.symm.trans heq)
        rw [List.length_dropLast, List.length_append, List.length_singleton] at hlength
        omega
      · rw [FileSystem.placeOf_of_name hlast hup]
        intro heq
        have hsame : [last] = [fresh] := List.append_cancel_left heq
        exact hfresh (by rw [hname, (List.cons.inj hsame).1])

theorem IsStuck.isPassing {temporary : Location}
    (hstuck : IsStuck order before files temporary) : IsPassing order before files := by
  obtain ⟨fresh, hfresh, hbeside⟩ := hstuck.beside
  obtain ⟨bytes, hfile⟩ := hstuck.file
  have htarget : before.placeOf order.path ≠ temporary := by
    rw [hbeside]
    exact placeOf_ne_concat hfresh
  constructor
  case target => exact .inl (hstuck.keepsAt _ htarget).contentAt
  case kept =>
    intro location hsome
    have hother : location ≠ temporary := by
      rintro rfl
      exact hsome hstuck.free
    exact .inl ((hstuck.keepsAt location hother).of_ne_nothing hsome)
  case new =>
    intro location _ hnothing
    by_cases hother : location = temporary
    · rw [hother]
      exact .inr (.inr ⟨fresh, bytes, hbeside, hfile⟩)
    · rcases hstuck.keepsAt location hother with heq | ⟨hway, -, hfolder⟩
      · exact .inl (heq.trans hnothing)
      · exact .inr (.inl ⟨hway, hfolder⟩)

theorem Invariant.isPassing [Runtime] {state : FileSystem × WriteStage}
    (hinv : Invariant order before state) : IsPassing order before state.1 := by
  obtain ⟨files, stage⟩ := state
  cases stage with
  | entering folder names => exact hinv.1.isPassing
  | holding folder fresh progress =>
      obtain ⟨ready, bytes, hholding⟩ := hinv
      exact hholding.isStuck.isPassing
  | moved =>
      have hwritten : IsWritten order before files := hinv
      exact hwritten.isPassing
  | failed =>
      have hunwritten : IsUnwritten order before files := hinv
      exact hunwritten.isPassing
  | stuck temporary =>
      have hstuck : IsStuck order before files temporary := hinv
      exact hstuck.isPassing

end Files

end ConfigSchema
