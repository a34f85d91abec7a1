import ConfigSchema.Proofs.WriteSteps

/-!
# Writes are atomic

A write takes its steps one after the other until the content is in its place, or until one of
them fails and what was begun is taken away again, if the medium lets it.  So after any row of
writes, whichever of them fail, a location holds what the last write there that succeeded has put
there; elsewhere nothing has changed but for folders on the ways of the writes and for temporary
files that the medium would not let go.
-/

namespace ConfigSchema

namespace Files

/-- Carries an order out; gives what the file system becomes, and what went wrong. -/
def perform [Runtime] (medium : Medium) (files : FileSystem) (order : WriteOrder) :
    FileSystem × Option WriteError :=
  write medium files order.path order.content order.isChecked

def finalStage : Option WriteError → WriteStage
  | none => .moved
  | some (.uncleared temporary) => .stuck temporary
  | some _ => .failed

/-- The files after orders, each carried out on a medium of its own, whether or not those before
it have failed. -/
def performAll [Runtime] (files : FileSystem) (orders : List (Medium × WriteOrder)) : FileSystem :=
  orders.foldl (fun files (medium, order) => (perform medium files order).1) files

/-- What the last order for a location that succeeds puts there. -/
def lastWritten [Runtime] (location : Location) (files : FileSystem) :
    List (Medium × WriteOrder) → Option ByteArray
  | [] => none
  | (medium, order) :: rest =>
      let outcome := perform medium files order
      (lastWritten location outcome.1 rest).or
        (if outcome.2.isNone && files.placeOf order.path = location then
          some order.content.toUTF8
        else none)

variable {medium : Medium} {order : WriteOrder} {files : FileSystem} {path : Path}
  {folder temporary : Location} {names : List String} {state : FileSystem × WriteStage}
  {outcome : FileSystem × Option WriteError} {failure : WriteError}

/-- What a write that has come this far may end with. -/
structure EndsWith [Runtime] (medium : Medium) (order : WriteOrder)
    (state : FileSystem × WriteStage) (outcome : FileSystem × Option WriteError) : Prop where
  runs : Relation.ReflTransGen (WriteStep order) state (outcome.1, finalStage outcome.2)
  refused : ∀ temporary, outcome.2 = some (.uncleared temporary) →
    medium.refuses (.removeFile temporary) = true

/-- A failure that is not one to take the temporary file away. -/
def WriteError.isFirst : WriteError → Bool
  | .uncleared _ => false
  | _ => true

theorem finalStage_of_isFirst (hfirst : WriteError.isFirst failure = true) :
    finalStage (some failure) = .failed := by
  cases failure <;> first | rfl | contradiction

theorem EndsWith.of_isFirst [Runtime] (hfirst : WriteError.isFirst failure = true)
    (hruns : Relation.ReflTransGen (WriteStep order) state (files, .failed)) :
    EndsWith medium order state (files, some failure) where
  runs := by
    rw [finalStage_of_isFirst hfirst]
    exact hruns
  refused := by
    intro temporary hfailure
    rw [Option.some.inj hfailure] at hfirst
    contradiction

theorem EndsWith.head [Runtime] {next : FileSystem × WriteStage}
    (hstep : WriteStep order state next)
    (hends : EndsWith medium order next outcome) : EndsWith medium order state outcome where
  runs := .head hstep hends.runs
  refused := hends.refused

/-! ## Making the way -/

private def wayStage : Option Location → WriteStage
  | some folder => .entering folder []
  | none => .failed

theorem makeFolders_runs [Runtime] (medium : Medium) (order : WriteOrder) (files : FileSystem)
    (folder : Location) (names : List String) (hfolder : files.sight folder = .folder) :
    Relation.ReflTransGen (WriteStep order) (files, .entering folder names)
      ((makeFolders medium files folder names).1,
        wayStage (makeFolders medium files folder names).2) := by
  fun_induction makeFolders medium files folder names with
  | case1 files folder => exact .refl
  | case2 files folder name rest next hstep hnext ih =>
      have hsight := FileSystem.sight_eq_folder_iff.2 hnext
      exact .head (.enter hstep hsight) (ih hsight)
  | case3 files folder name rest next hstep hnext => exact .single .giveUp
  | case4 files folder name rest hstep later hmake ih =>
      have hlater : later = files.putAt (folder ++ [name]) (.folder []) := by
        unfold makeFolder at hmake
        dsimp only at hmake
        split at hmake
        · contradiction
        · exact (Option.some.inj hmake).symm
      have hmissing := (FileSystem.sight_of_step_eq_none hfolder hstep).2
      have hold : files.sight (folder ++ [name]) ≠ .folder := by simp [hmissing]
      have hnext : later.sight (folder ++ [name]) = .folder := by
        rw [hlater, FileSystem.sight_putAt FileNode.isLeaf_empty hfolder hold, Function.update_self]
        rfl
      have hmade : WriteStep order (files, .entering folder (name :: rest))
          (later, .entering (folder ++ [name]) rest) := by
        rw [hlater]
        exact .makeFolder hfolder hstep
      exact .head hmade (ih hnext)
  | case5 files folder name rest hstep hmake => exact .single .giveUp

theorem makeWay_cases [Runtime] (medium : Medium) (files : FileSystem) (path : Path) :
    (∃ e, WriteError.isFirst e = true ∧ makeWay medium files path = (files, .error e)) ∨
      makeWay medium files path =
        ((makeFolders medium files (files.start path) path.folder.parts).1,
          (makeFolders medium files (files.start path) path.folder.parts).2.elim
            (.error (.refused path)) .ok) := by
  unfold makeWay
  dsimp only
  split
  · exact .inl ⟨_, rfl, rfl⟩
  · split
    · exact .inl ⟨_, rfl, rfl⟩
    · exact .inr rfl

/-! ## The temporary file -/

theorem temporaryName_ne (name : String) (number : Nat) : temporaryName name number ≠ name := by
  intro heq
  have hlength := congrArg String.length heq
  simp only [temporaryName, String.length_append] at hlength
  have hdot : ".".length = 1 := rfl
  omega

theorem freshName?_spec {entries : Entries FileNode} {name fresh : String}
    (hfresh : freshName? entries name = some fresh) :
    Entries.get? fresh entries = none ∧ fresh ≠ name := by
  unfold freshName? at hfresh
  have hmem := List.mem_of_find?_eq_some hfresh
  obtain ⟨number, -, rfl⟩ := List.mem_map.1 hmem
  refine ⟨?_, temporaryName_ne name number⟩
  rw [Entries.get?_eq_none_iff]
  simpa using List.find?_some hfresh

theorem createTemporary_spec [Runtime] {started : FileSystem} {temporary : Location}
    (hcreate : createTemporary medium files folder path = some (started, temporary)) :
    ∃ fresh, fresh ≠ path.name ∧ temporary = folder ++ [fresh] ∧
      started = files.putAt (folder ++ [fresh]) (.file .empty) ∧
      files.sight (folder ++ [fresh]) = .nothing ∧ files.sight folder = .folder := by
  unfold createTemporary at hcreate
  rw [Option.bind_eq_bind, Option.bind_eq_some_iff] at hcreate
  obtain ⟨node, hnode, hcreate⟩ := hcreate
  rw [Option.bind_eq_bind, Option.bind_eq_some_iff] at hcreate
  obtain ⟨fresh, hfresh, hcreate⟩ := hcreate
  obtain ⟨hfree, hne⟩ := freshName?_spec hfresh
  have hnothing : files.sight (folder ++ [fresh]) = .nothing := by
    rw [FileSystem.sight_eq_nothing_iff, FileSystem.at?_concat, hnode, Option.bind_some]
    exact hfree
  dsimp only at hcreate
  split at hcreate
  · contradiction
  · next hmade =>
      simp only [Bool.or_eq_true, not_or, Bool.not_eq_true', Bool.not_eq_false] at hmade
      have hfolder : files.sight folder = .folder := by
        rw [FileSystem.sight_eq_folder_iff, hnode]
        exact hmade.1.1
      rw [Option.some.injEq, Prod.mk.injEq] at hcreate
      exact ⟨fresh, hne, hcreate.2.symm, hcreate.1.symm, hnothing, hfolder⟩

theorem move_spec {after : FileSystem} {source target : Location}
    (hmove : move medium files source target = some after) :
    ∃ node, files.root.at? source = some node ∧ files.sight target ≠ .folder ∧
      after = (remove files source).putAt target node := by
  unfold move at hmove
  rw [Option.bind_eq_bind, Option.bind_eq_some_iff] at hmove
  obtain ⟨node, hnode, hmove⟩ := hmove
  split at hmove
  · contradiction
  · next hfree =>
      rw [Bool.or_eq_true, not_or] at hfree
      have htarget : files.sight target ≠ .folder :=
        fun hfolder => hfree.2 (FileSystem.sight_eq_folder_iff.1 hfolder)
      exact ⟨node, hnode, htarget, (Option.some.inj hmove).symm⟩

theorem isFirst_of_bytesOf [Runtime] {content : String}
    (hbytes : bytesOf path content = .error failure) :
    WriteError.isFirst failure = true := by
  unfold bytesOf at hbytes
  split at hbytes
  · rw [← Except.error.inj hbytes]
    rfl
  · contradiction

theorem bytesOf_eq_ok [Runtime] {content : String} {bytes : ByteArray}
    (hbytes : bytesOf path content = .ok bytes) :
    Text.hasSurrogate content = false ∧ bytes = content.toUTF8 := by
  unfold bytesOf at hbytes
  split at hbytes
  · contradiction
  · next hplain => exact ⟨Bool.eq_false_iff.2 hplain, (Except.ok.inj hbytes).symm⟩

theorem isFirst_of_checkDocument [Runtime] {content : String}
    (hcheck : checkDocument content = .error failure) : WriteError.isFirst failure = true := by
  unfold checkDocument at hcheck
  split at hcheck
  · rw [← Except.error.inj hcheck]
    rfl
  · rw [← Except.error.inj hcheck]
    rfl
  · contradiction
  · rw [← Except.error.inj hcheck]
    rfl

/-- After a failure the temporary file is taken away, unless the medium refuses that. -/
theorem clear_endsWith [Runtime] (medium : Medium) (order : WriteOrder) (files : FileSystem)
    (folder : Location) (fresh : String) (progress : Progress)
    (hfirst : WriteError.isFirst failure = true) :
    EndsWith medium order (files, .holding folder fresh progress)
      (clear medium files (folder ++ [fresh]) failure) := by
  unfold clear
  split
  · next hrefused =>
      refine ⟨.single .leave, ?_⟩
      intro temporary hfailure
      rw [Option.some.injEq, WriteError.uncleared.injEq] at hfailure
      rw [← hfailure]
      exact hrefused
  · exact .of_isFirst hfirst (.single .clean)

/-- What is done under the temporary name ends with the file in its place, or in a failure. -/
theorem complete_endsWith [Runtime] (medium : Medium) (order : WriteOrder) (files : FileSystem)
    (folder : Location) (fresh : String) :
    EndsWith medium order (files, .holding folder fresh .begun)
      (complete medium files (folder ++ [fresh]) (targetOf folder order.path.name) order.path
        order.content order.isChecked) := by
  unfold complete
  split
  · next e hbytes =>
      exact clear_endsWith medium order files folder fresh _ (isFirst_of_bytesOf hbytes)
  · next bytes hbytes =>
      split
      · exact .head (.fillPart _) (clear_endsWith medium order _ folder fresh _ rfl)
      · obtain ⟨hplain, rfl⟩ := bytesOf_eq_ok hbytes
        refine .head (.fill hplain) ?_
        dsimp only
        split
        · next e hcheck =>
            have hfirst : WriteError.isFirst e = true := by
              split at hcheck
              · exact isFirst_of_checkDocument hcheck
              · contradiction
            exact clear_endsWith medium order _ folder fresh _ hfirst
        · next hcheck =>
            have hchecked : order.isChecked = true → checkDocument order.content = .ok () := by
              intro hasked
              rw [if_pos hasked] at hcheck
              exact hcheck
            refine .head (.check hchecked) ?_
            split
            · next after hmove =>
                obtain ⟨node, hnode, htarget, rfl⟩ := move_spec hmove
                exact ⟨.single (.move hnode htarget), by simp⟩
            · exact clear_endsWith medium order _ folder fresh _ rfl

/-! ## A start that is no folder -/

theorem makeFolders_of_ne_folder [Runtime] (medium : Medium) (names : List String)
    (hfolder : files.sight folder ≠ .folder) :
    (makeFolders medium files folder names).1 = files ∧
      ∀ location, (makeFolders medium files folder names).2 = some location →
        files.sight location ≠ .folder := by
  induction names generalizing folder with
  | nil =>
      refine ⟨rfl, ?_⟩
      intro location hlocation
      rw [makeFolders, Option.some.injEq] at hlocation
      rw [← hlocation]
      exact hfolder
  | cons name rest ih =>
      have hstep : files.step folder name = none := FileSystem.step_of_ne_folder hfolder
      have hmissing : files.sight (folder ++ [name]) = .nothing :=
        FileNode.sight_append_of_ne_folder hfolder (by simp)
      have hmake : makeFolder medium files folder name = none ∨
          makeFolder medium files folder name = some files := by
        unfold makeFolder
        dsimp only
        split
        · exact .inl rfl
        · rw [FileNode.put_of_ne_folder hfolder]
          exact .inr rfl
      rw [makeFolders, hstep]
      rcases hmake with hnone | hsame
      · simp [hnone]
      · simp only [hsame]
        exact ih (by simp [hmissing])

theorem createTemporary_of_ne_folder [Runtime] (medium : Medium) (path : Path)
    (hfolder : files.sight folder ≠ .folder) :
    createTemporary medium files folder path = none := by
  cases hcreate : createTemporary medium files folder path with
  | none => rfl
  | some created =>
      obtain ⟨started, temporary⟩ := created
      obtain ⟨-, -, -, -, -, hthere⟩ := createTemporary_spec hcreate
      contradiction

/-! ## The whole write -/

/-- A write behind its way. -/
def writeInto [Runtime] (medium : Medium) (files : FileSystem) (folder : Location) (path : Path)
    (content : String) (isChecked : Bool) : FileSystem × Option WriteError :=
  match nameFault? path.name with
  | some fault => (files, some (.unnamable path fault))
  | none =>
      match createTemporary medium files folder path with
      | none => (files, some (.refused path))
      | some (started, temporary) =>
          complete medium started temporary (targetOf folder path.name) path content isChecked

theorem writeInto_of_ne_folder [Runtime] (medium : Medium) (path : Path) (content : String)
    (isChecked : Bool) (hfolder : files.sight folder ≠ .folder) :
    ∃ e, WriteError.isFirst e = true ∧
      writeInto medium files folder path content isChecked = (files, some e) := by
  unfold writeInto
  rw [createTemporary_of_ne_folder medium path hfolder]
  cases nameFault? path.name with
  | some fault => exact ⟨_, rfl, rfl⟩
  | none => exact ⟨_, rfl, rfl⟩

theorem writeInto_endsWith [Runtime] (medium : Medium) (order : WriteOrder) (files : FileSystem)
    (folder : Location) :
    EndsWith medium order (files, .entering folder [])
      (writeInto medium files folder order.path order.content order.isChecked) := by
  unfold writeInto
  cases nameFault? order.path.name with
  | some fault => exact .of_isFirst rfl (.single .giveUp)
  | none =>
      cases hcreate : createTemporary medium files folder order.path with
      | none => exact .of_isFirst rfl (.single .giveUp)
      | some created =>
          obtain ⟨started, temporary⟩ := created
          obtain ⟨fresh, hfresh, rfl, hstarted, hfree, hfolder⟩ := createTemporary_spec hcreate
          have hbegin : WriteStep order (files, .entering folder [])
              (started, .holding folder fresh .begun) := by
            rw [hstarted]
            exact .begin hfolder hfree hfresh
          exact .head hbegin (complete_endsWith medium order started folder fresh)

theorem write_cases [Runtime] (medium : Medium) (files : FileSystem) (path : Path)
    (content : String) (isChecked : Bool) :
    let made := makeFolders medium files (files.start path) path.folder.parts
    (∃ e, WriteError.isFirst e = true ∧
        write medium files path content isChecked = (files, some e)) ∨
      (made.2 = none ∧
        write medium files path content isChecked = (made.1, some (.refused path))) ∨
        ∃ folder, made.2 = some folder ∧ write medium files path content isChecked =
          writeInto medium made.1 folder path content isChecked := by
  intro made
  unfold write
  cases nameFault? path.folder.toText with
  | some fault => exact .inl ⟨_, rfl, rfl⟩
  | none =>
      rcases makeWay_cases medium files path with ⟨e, hfirst, herror⟩ | hmade
      · simp only [herror]
        exact .inl ⟨e, hfirst, rfl⟩
      · simp only [hmade]
        cases (makeFolders medium files (files.start path) path.folder.parts).2 with
        | none => exact .inr (.inl ⟨rfl, rfl⟩)
        | some folder => exact .inr (.inr ⟨folder, rfl, rfl⟩)

/-- A write is a row of steps that ends with the file in its place or with a failure. -/
theorem perform_endsWith [Runtime] (medium : Medium) (files : FileSystem) (order : WriteOrder) :
    EndsWith medium order (atStart files order) (perform medium files order) := by
  have hcases := write_cases medium files order.path order.content order.isChecked
  have hgiveUp : Relation.ReflTransGen (WriteStep order) (atStart files order) (files, .failed) :=
    .single .giveUp
  unfold perform
  by_cases hstart : files.sight (files.start order.path) = .folder
  · have hruns := makeFolders_runs medium order files (files.start order.path)
      order.path.folder.parts hstart
    rcases hcases with ⟨e, hfirst, hwrite⟩ | ⟨hway, hwrite⟩ | ⟨folder, hway, hwrite⟩
    · rw [hwrite]
      exact .of_isFirst hfirst hgiveUp
    · rw [hwrite]
      rw [hway] at hruns
      exact .of_isFirst rfl hruns
    · rw [hwrite]
      rw [hway] at hruns
      obtain ⟨hends, hrefused⟩ := writeInto_endsWith medium order _ folder
      exact ⟨hruns.trans hends, hrefused⟩
  -- Below a start that is no folder nothing can be made, and the only step is to give up.
  · obtain ⟨hsame, hmade⟩ := makeFolders_of_ne_folder medium order.path.folder.parts hstart
    have hfailed : ∃ e, WriteError.isFirst e = true ∧
        write medium files order.path order.content order.isChecked = (files, some e) := by
      rcases hcases with herror | ⟨-, hwrite⟩ | ⟨folder, hway, hwrite⟩
      · exact herror
      · rw [hsame] at hwrite
        exact ⟨_, rfl, hwrite⟩
      · rw [hwrite, hsame]
        exact writeInto_of_ne_folder medium order.path order.content order.isChecked
          (hmade folder hway)
    obtain ⟨e, hfirst, hwrite⟩ := hfailed
    rw [hwrite]
    exact .of_isFirst hfirst hgiveUp

theorem isWritten_perform [Runtime] {medium : Medium} {order : WriteOrder} {before : FileSystem}
    (hnone : (perform medium before order).2 = none) :
    IsWritten order before (perform medium before order).1 := by
  have hruns := (perform_endsWith medium before order).runs
  rw [hnone] at hruns
  exact Invariant.steps hruns

theorem isUnwritten_perform [Runtime] {medium : Medium} {order : WriteOrder} {before : FileSystem}
    (hsome : (perform medium before order).2 ≠ none)
    (hcleared : ∀ temporary, (perform medium before order).2 ≠ some (.uncleared temporary)) :
    IsUnwritten order before (perform medium before order).1 := by
  have hruns := (perform_endsWith medium before order).runs
  obtain ⟨e, he⟩ := Option.ne_none_iff_exists'.1 hsome
  have hfirst : WriteError.isFirst e = true := by
    cases e with
    | uncleared temporary => exact absurd he (hcleared temporary)
    | _ => rfl
  rw [he, finalStage_of_isFirst hfirst] at hruns
  exact Invariant.steps hruns

theorem isStuck_perform [Runtime] {medium : Medium} {order : WriteOrder} {before : FileSystem}
    (huncleared : (perform medium before order).2 = some (.uncleared temporary)) :
    medium.refuses (.removeFile temporary) = true ∧
      IsStuck order before (perform medium before order).1 temporary := by
  have hends := perform_endsWith medium before order
  have hruns := hends.runs
  rw [huncleared] at hruns
  exact ⟨hends.refused temporary huncleared, Invariant.steps hruns⟩

/-- A write puts its content in its place, or changes nothing, or cannot take its temporary file
away. -/
theorem perform_cases [Runtime] (medium : Medium) (files : FileSystem) (order : WriteOrder) :
    ((perform medium files order).2 = none ∧
        IsWritten order files (perform medium files order).1) ∨
      (perform medium files order).2 ≠ none ∧
        (IsUnwritten order files (perform medium files order).1 ∨
          ∃ temporary, medium.refuses (.removeFile temporary) = true ∧
            IsStuck order files (perform medium files order).1 temporary) := by
  by_cases hnone : (perform medium files order).2 = none
  · exact .inl ⟨hnone, isWritten_perform hnone⟩
  · refine .inr ⟨hnone, ?_⟩
    by_cases huncleared : ∃ temporary, (perform medium files order).2 = some (.uncleared temporary)
    · obtain ⟨temporary, huncleared⟩ := huncleared
      exact .inr ⟨temporary, isStuck_perform huncleared⟩
    · exact .inl (isUnwritten_perform hnone (not_exists.1 huncleared))

/-! ## Rows of writes -/

/-- At a location where nothing was there is now a file beside the target of an order, which the
medium has refused to take away. -/
def LeavesTemporary (files after : FileSystem) (entry : Medium × WriteOrder)
    (location : Location) : Prop :=
  entry.1.refuses (.removeFile location) = true ∧
    (∃ fresh, location = files.placeOf entry.2.path.folder ++ [fresh]) ∧
    files.sight location = .nothing ∧ ∃ bytes, after.sight location = .file bytes

/-- What a row of writes leaves at a location. -/
def LeavesAt [Runtime] (files : FileSystem) (orders : List (Medium × WriteOrder))
    (location : Location) : Prop :=
  match lastWritten location files orders with
  | some bytes => (performAll files orders).sight location = .file bytes
  | none =>
      (performAll files orders).sight location = files.sight location ∨
        (files.sight location = .nothing ∧ (performAll files orders).sight location = .folder ∧
          ∃ entry ∈ orders, location ∈ files.folderPlaces entry.2.path) ∨
        ∃ entry ∈ orders, LeavesTemporary files (performAll files orders) entry location

theorem here_perform [Runtime] (medium : Medium) (files : FileSystem) (order : WriteOrder) :
    (perform medium files order).1.here = files.here := by
  rcases perform_cases medium files order with
    ⟨-, hwritten⟩ | ⟨-, hunwritten | ⟨temporary, -, hstuck⟩⟩
  · exact hwritten.here_eq
  · exact hunwritten.here_eq
  · exact hstuck.here_eq

theorem folderPlaces_perform [Runtime] (medium : Medium) (files : FileSystem) (order : WriteOrder)
    (path : Path) :
    (perform medium files order).1.folderPlaces path = files.folderPlaces path := by
  rw [FileSystem.folderPlaces, FileSystem.folderPlaces, FileSystem.start, FileSystem.start,
    here_perform]

theorem placeOf_perform [Runtime] (medium : Medium) (files : FileSystem) (order : WriteOrder)
    (path : Path) :
    (perform medium files order).1.placeOf path = files.placeOf path := by
  rw [FileSystem.placeOf, FileSystem.placeOf, FileSystem.start, FileSystem.start, here_perform]

/-- One write puts its content in its place if it succeeds, and keeps everything else, but for a
temporary file that it cannot take away. -/
theorem perform_leaves [Runtime] (medium : Medium) (files : FileSystem) (order : WriteOrder)
    (location : Location) :
    ((perform medium files order).2 = none ∧ files.placeOf order.path = location ∧
        (perform medium files order).1.sight location = .file order.content.toUTF8) ∨
      ¬ ((perform medium files order).2 = none ∧ files.placeOf order.path = location) ∧
        (files.KeepsAt (perform medium files order).1 order.path location ∨
          (perform medium files order).2 ≠ none ∧
            LeavesTemporary files (perform medium files order).1 (medium, order) location) := by
  rcases perform_cases medium files order with
    ⟨hnone, hwritten⟩ | ⟨hsome, hunwritten | ⟨temporary, hrefused, hstuck⟩⟩
  · by_cases hplace : files.placeOf order.path = location
    · rw [← hplace]
      exact .inl ⟨hnone, rfl, hwritten.sight_placeOf⟩
    · exact .inr ⟨fun hboth => hplace hboth.2, .inl (hwritten.keepsAt location (Ne.symm hplace))⟩
  · exact .inr ⟨fun hboth => hsome hboth.1, .inl (hunwritten.keepsAt location)⟩
  · refine .inr ⟨fun hboth => hsome hboth.1, ?_⟩
    by_cases hlocation : location = temporary
    · obtain ⟨fresh, -, hbeside⟩ := hstuck.beside
      rw [hlocation]
      exact .inr ⟨hsome, hrefused, ⟨fresh, hbeside⟩, hstuck.free, hstuck.file⟩
    · exact .inl (hstuck.keepsAt location hlocation)

/-- Where no later write has put anything, the later ones keep what the first has left. -/
theorem LeavesAt.cons_of_none [Runtime] {medium : Medium} {order : WriteOrder} {files : FileSystem}
    {rest : List (Medium × WriteOrder)} {location : Location}
    (hlast : lastWritten location (perform medium files order).1 rest = none)
    (hrest : LeavesAt (perform medium files order).1 rest location) :
    LeavesAt files ((medium, order) :: rest) location := by
  have hall : performAll files ((medium, order) :: rest) =
      performAll (perform medium files order).1 rest := rfl
  have hcons : lastWritten location files ((medium, order) :: rest) =
      if (perform medium files order).2.isNone && files.placeOf order.path = location then
        some order.content.toUTF8
      else none := by
    rw [lastWritten, hlast, Option.none_or]
  rw [LeavesAt, hlast] at hrest
  rw [LeavesAt, hcons, hall]
  rcases perform_leaves medium files order location with
    ⟨hnone, hplace, hsight⟩ | ⟨hnot, hkeeps | ⟨-, hleft⟩⟩
  -- What the first write has put or left at the location is no longer nothing, so it stays.
  · rw [if_pos (by simp [hnone, hplace])]
    rcases hrest with hsame | ⟨hnothing, -, -⟩ | ⟨entry, -, -, -, hnothing, -⟩
    · exact hsame.trans hsight
    · rw [hsight] at hnothing
      contradiction
    · rw [hsight] at hnothing
      contradiction
  · rw [if_neg (by simpa using hnot)]
    rcases hrest with hsame | ⟨hnothing, hmade, entry, hentry, hway⟩ |
      ⟨entry, hentry, hrefused, ⟨fresh, hbeside⟩, hnothing, hfile⟩
    · rcases hkeeps with hkept | ⟨hway, hnothing, hfolder⟩
      · exact .inl (hsame.trans hkept)
      · exact .inr (.inl ⟨hnothing, hsame.trans hfolder, _, List.mem_cons_self, hway⟩)
    · rw [folderPlaces_perform] at hway
      exact .inr (.inl
        ⟨hkeeps.nothing hnothing, hmade, entry, List.mem_cons_of_mem _ hentry, hway⟩)
    · rw [placeOf_perform] at hbeside
      exact .inr (.inr ⟨entry, List.mem_cons_of_mem _ hentry, hrefused, ⟨fresh, hbeside⟩,
        hkeeps.nothing hnothing, hfile⟩)
  · rw [if_neg (by simpa using hnot)]
    obtain ⟨hrefused, hbeside, hfree, bytes, hfile⟩ := hleft
    rcases hrest with hsame | ⟨hnothing, -, -⟩ | ⟨entry, -, -, -, hnothing, -⟩
    · exact .inr (.inr ⟨_, List.mem_cons_self, hrefused, hbeside, hfree, bytes,
        hsame.trans hfile⟩)
    · rw [hfile] at hnothing
      contradiction
    · rw [hfile] at hnothing
      contradiction

theorem leavesAt [Runtime] (files : FileSystem) (orders : List (Medium × WriteOrder))
    (location : Location) :
    LeavesAt files orders location := by
  induction orders generalizing files with
  | nil => exact .inl rfl
  | cons entry rest ih =>
      obtain ⟨medium, order⟩ := entry
      have hrest := ih (perform medium files order).1
      cases hlast : lastWritten location (perform medium files order).1 rest with
      | none => exact hrest.cons_of_none hlast
      | some bytes =>
          have hcons : lastWritten location files ((medium, order) :: rest) = some bytes := by
            rw [lastWritten, hlast, Option.some_or]
          rw [LeavesAt, hlast] at hrest
          rw [LeavesAt, hcons]
          exact hrest

/-- After any row of writes a write puts its content in its place or changes nothing but for
folders on its way, and for its temporary file if the medium refuses to take that away.  So do all
the steps between. -/
theorem writes_are_atomic [Runtime] (files : FileSystem) (earlier : List (Medium × WriteOrder))
    (medium : Medium) (order : WriteOrder) :
    let before := performAll files earlier
    let outcome := perform medium before order
    (outcome.2 = none → IsWritten order before outcome.1) ∧
      (outcome.2 ≠ none → (∀ temporary, outcome.2 ≠ some (.uncleared temporary)) →
        IsUnwritten order before outcome.1) ∧
      (∀ temporary, outcome.2 = some (.uncleared temporary) →
        medium.refuses (.removeFile temporary) = true ∧
          IsStuck order before outcome.1 temporary) ∧
      Relation.ReflTransGen (WriteStep order) (atStart before order)
        (outcome.1, finalStage outcome.2) ∧
      (∀ state, Relation.ReflTransGen (WriteStep order) (atStart before order) state →
        IsPassing order before state.1) ∧
      ∀ location, LeavesAt files (earlier ++ [(medium, order)]) location := by
  intro before outcome
  refine ⟨isWritten_perform, isUnwritten_perform, fun _ => isStuck_perform,
    (perform_endsWith medium before order).runs, ?_, ?_⟩
  · intro state hsteps
    exact (Invariant.steps hsteps).isPassing
  · exact leavesAt files _

/-- Files can be made and filled here, but neither moved nor taken away. -/
def stiffMedium : Medium where
  refuses
    | .moveFile _ _ => true
    | .removeFile _ => true
    | _ => false

section Usual

attribute [local instance] Runtime.usual

/-- A temporary file may stay, and a document may hold a number that no JSON text has. -/
theorem stiffMedium_keeps_temporary :
    (perform stiffMedium { root := .folder [] }
        { path := { parts := ["a.txt"] }, content := "x" }).2 =
      some (.uncleared [".a.txt.00000000.tmp"]) ∧
    (perform stiffMedium { root := .folder [] }
        { path := { parts := ["a.txt"] }, content := "x" }).1.contentAt [".a.txt.00000000.tmp"] =
      some "x".toUTF8 ∧
    (perform {} { root := .folder [] }
        { path := { parts := ["a.json"] }, content := "\x7b\"a\": NaN\x7d", format := "json" }).2 =
      none := by
  decide +kernel

example :
    (perform {} { root := .folder [] }
        { path := { parts := ["out", "..", "docs", "schema.json"] }, content := "\x7b\x7d",
          format := "json" }).2 = none := by
  decide +kernel

example :
    (perform {} { root := .folder [] }
        { path := { parts := ["docs", "schema.json"] }, content := "[]", format := "json" }).2 =
      some .notAnObject := by
  decide +kernel

end Usual

end Files

end ConfigSchema
