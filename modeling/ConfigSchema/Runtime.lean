/-!
# What a program may take

A program that is run may only go so deep: calls inside calls take room on the stack of its
interpreter, and so does what nests in a text that is read or written.  How much room there is
differs from one interpreter to the next and depends on who has called the program, so it is a
parameter of all that may run out of it.
-/

namespace ConfigSchema

/-- The calls that lead into each other while types are compiled or documented, and while files are
looked for. -/
inductive Call where
  | compile
  | buildProperties
  | resolveField
  | resolveType (name : String)
  | anyOf
  /-- The pass over the variants of a type. -/
  | variants
  | render
  | renderType
  | renderFields
  | renderField
  | expand (type : String)
  | renderMembers
  | annotate
  | annotateNamed (name : String)
  /-- A part of a pattern is followed. -/
  | followPattern
  /-- What stands in a folder is listed, down to the last folder. -/
  | listInside
  deriving DecidableEq, Inhabited

/-- What a text of JSON is read for. -/
inductive Purpose where
  /-- Whoever has the text reads it. -/
  | plain
  | settings
  /-- It is to tell of a schema. -/
  | schema
  /-- A service has answered with it. -/
  | answer
  /-- It is checked before it takes its place. -/
  | check
  deriving DecidableEq, Inhabited

/-- The interpreter that runs a program, as far as it limits what the program can do. -/
class Runtime where
  /-- Whether there is room for these calls, the innermost one first, and for whatever else they
  call. -/
  hasRoom : List Call → Bool
  /-- What has room still has it if some of the calls are left out. -/
  hasRoom_of_sublist {calls others : List Call} (hsub : calls.Sublist others)
    (hroom : hasRoom others = true) : hasRoom calls = true
  /-- How many arrays and objects may stand inside each other in a text that is read. -/
  readingDepth : Purpose → Nat
  /-- How many may in a value that is written, on one line or with an indentation. -/
  writingDepth : (isOneLine : Bool) → Nat
  /-- Whether there is memory for texts that are indented by so many blanks. -/
  affords : Nat → Bool
  /-- How many lists, objects, list layers of a type or selections may stand inside each other in
  definitions. -/
  parsingDepth : Nat
  /-- How many inputs may wait for each other while the defaults of a schema are settled. -/
  settlingDepth : Nat
  /-- How many may while those that an introspection result tells are settled. -/
  toldSettlingDepth : Nat
  /-- How many layers a type that an introspection result tells may have. -/
  toldLayers : Nat
  /-- How many folders may be missing on the way to a file that is written. -/
  missingFolders : Nat
  /-- Whether two stars in a pattern find the place itself only if it is a folder. -/
  starsNeedFolder : Bool
  /-- How far the character that holds a lone surrogate is from the code of it.  No character holds
  one if that leads beyond the last. -/
  surrogateOffset : Nat
  /-- The characters that hold surrogates are private ones. -/
  le_surrogateOffset : 0xF0000 ≤ 0xD800 + surrogateOffset
  /-- What can be parsed can be told: to parse a level takes more room than to tell two. -/
  parsed_le_told : 2 * parsingDepth + 1 ≤ toldLayers
  /-- What can be parsed can be read where it is told, some levels deeper: to parse a level takes
  more room than to read two. -/
  parsed_le_reading (purpose : Purpose) : 2 * parsingDepth + 12 ≤ readingDepth purpose
  /-- What can be told can be settled: a step takes more room where inputs are told. -/
  told_le_settling : toldSettlingDepth ≤ settlingDepth

namespace Runtime

variable {calls others : List Call}

section

variable [Runtime]

/-- There is room for any calls that are not more than so many. -/
def HasRoomFor (depth : Nat) : Prop :=
  ∀ calls : List Call, calls.length ≤ depth → hasRoom calls = true

theorem HasRoomFor.mono {depth more : Nat} (hroom : HasRoomFor more) (hle : depth ≤ more) :
    HasRoomFor depth :=
  fun calls hlength => hroom calls (Nat.le_trans hlength hle)

theorem not_hasRoomFor {depth : Nat} (hfull : hasRoom calls = false)
    (hlength : calls.length ≤ depth) : ¬ HasRoomFor depth := by
  intro hroom
  rw [hroom calls hlength] at hfull
  contradiction

end

/-- An interpreter with its limits as they are set at first, which has been called from nowhere
else. -/
@[reducible] def usual : Runtime where
  hasRoom calls := calls.length ≤ 993
  hasRoom_of_sublist := by
    intro calls others hsub hroom
    rw [decide_eq_true_iff] at hroom ⊢
    exact Nat.le_trans hsub.length_le hroom
  readingDepth _ := 987
  writingDepth _ := 987
  affords count := count < 0x10000000000
  parsingDepth := 200
  settlingDepth := 197
  toldSettlingDepth := 121
  toldLayers := 490
  missingFolders := 985
  starsNeedFolder := false
  surrogateOffset := 0x100000
  le_surrogateOffset := by decide
  parsed_le_told := by decide
  parsed_le_reading _ := by decide
  told_le_settling := by decide

theorem hasRoom_usual_iff : usual.hasRoom calls = true ↔ calls.length ≤ 993 :=
  decide_eq_true_iff

theorem hasRoomFor_usual {depth : Nat} (hdepth : depth ≤ 993) :
    @HasRoomFor usual depth := by
  intro calls hlength
  exact hasRoom_usual_iff.2 (Nat.le_trans hlength hdepth)

theorem hasRoom_usual_eq_false_iff : usual.hasRoom calls = false ↔ 993 < calls.length := by
  rw [Bool.eq_false_iff, ne_eq, hasRoom_usual_iff, Nat.not_le]

end Runtime

end ConfigSchema
