import ConfigSchema.Files.FileSystem
import ConfigSchema.Files.Glyph
import ConfigSchema.Files.Name

/-!
# Patterns of paths

A pattern is a path whose names may hold wildcards; a name of two stars leads any number of
folders down, none of them included.  The names in front of the first wildcard are taken as they
are, whether there is anything or not; those behind it have to be there.  Entries whose names
start with a dot are found only where the pattern has that dot.  A pattern that ends in a slash
finds folders only.  Every name from the first wildcard on takes a call, and so does every folder
that stars lead down; a pattern that there is no room for finds nothing at all.
-/

namespace ConfigSchema

namespace Files

inductive Segment where
  | plain (text : String)
  | wild (text : String)
  | anyDepth
  deriving DecidableEq, Inhabited

/-- A place that a pattern has led to: the names on the way as they are written, and where that
is, if it is anywhere. -/
structure Match where
  names : List String := []
  location : Option Location
  endsInSlash : Bool := false
  deriving DecidableEq, Inhabited

/-- Why a pattern cannot be followed. -/
inductive PatternFault where
  /-- It leads through a name that cannot be looked up. -/
  | unnamable (fault : NameFault)
  /-- There is no room for the calls that follow it. -/
  | tooDeep
  deriving DecidableEq, Inhabited

def isHidden (name : String) : Bool :=
  name.toList.head? = some '.'

namespace Segment

def ofText (text : String) : Segment :=
  if text = "**" then .anyDepth else if Glyph.isPattern text then .wild text else .plain text

def fits (pattern name : String) : Bool :=
  (isHidden pattern || !isHidden name) && Glyph.fits (Glyph.read pattern.toList) name.toList

def isPlain : Segment → Bool
  | .plain _ => true
  | _ => false

def text : Segment → String
  | .plain text => text
  | .wild text => text
  | .anyDepth => "**"

/-- Where a name leads from a place, which has to be a folder. -/
def step (files : FileSystem) (place : Option Location) (name : String) : Option Location :=
  place.bind fun place =>
    if name = "." then
      if (files.root.at? place).any FileNode.isFolder then some place else none
    else files.step place name

/-- What stars lead down to from a place. -/
def below (files : FileSystem) (onlyFolders : Bool) (place : Option Location) :
    List (Location × FileNode) :=
  let entries := ((files.at? place).map FileNode.entries).getD []
  (FileNode.insideEntries [] entries).filter fun entry =>
    !entry.1.any isHidden && (!onlyFolders || entry.2.isFolder)

/-- Goes on from a match by what is found at its place. -/
def extend [Runtime] (files : FileSystem) (onlyFolders : Bool) (found : Match) :
    Segment → List Match
  | .plain text =>
      (step files found.location text).toList.map fun location =>
        { names := found.names ++ [text], location := some location }
  | .wild text =>
      let fitting := (((files.at? found.location).map FileNode.entries).getD []).filter fun entry =>
        fits text entry.1 && (!onlyFolders || entry.2.isFolder)
      fitting.map fun entry =>
        { names := found.names ++ [entry.1], location := found.location.map (· ++ [entry.1]) }
  | .anyDepth =>
      let isPassable := !Runtime.starsNeedFolder ||
        (files.at? found.location).any FileNode.isFolder
      (if isPassable then [{ found with endsInSlash := true }] else []) ++
        (below files onlyFolders found.location).map fun entry =>
          { names := found.names ++ entry.1, location := found.location.map (· ++ entry.1) }

/-- Whether there is room to go on from a match; what stars lead down to is listed folder by
folder. -/
def hasRoom [Runtime] (files : FileSystem) (onlyFolders : Bool) (under : List Call)
    (found : Match) : Segment → Bool
  | .anyDepth =>
      Runtime.hasRoom (.listInside :: under) &&
        (below files onlyFolders found.location).all fun entry =>
          Runtime.hasRoom (List.replicate (entry.1.length + 1) .listInside ++ under)
  | _ => true

end Segment

def expand [Runtime] (files : FileSystem) (wantsFolder : Bool) :
    List Segment → List Match → List Match
  | [], found =>
      if wantsFolder then
        (found.filter fun place => (files.at? place.location).any FileNode.isFolder).map
          fun place => { place with endsInSlash := true }
      else found
  | segment :: rest, found =>
      let onlyFolders := !rest.isEmpty || wantsFolder
      expand files wantsFolder rest (found.flatMap fun place =>
        segment.extend files onlyFolders place)

/-- The calls that follow the names of a pattern. -/
def whileFollowing (wantsFolder : Bool) (segments : List Segment) : List Call :=
  List.replicate (segments.length + if wantsFolder then 1 else 0) .followPattern

/-- Whether there is room to follow the names of a pattern from some places on. -/
def canExpand [Runtime] (files : FileSystem) (wantsFolder : Bool) :
    List Segment → List Match → Bool
  | [], _ => true
  | segment :: rest, found =>
      let onlyFolders := !rest.isEmpty || wantsFolder
      let under := whileFollowing wantsFolder (segment :: rest)
      Runtime.hasRoom under &&
        found.all (fun place => segment.hasRoom files onlyFolders under place) &&
        canExpand files wantsFolder rest (found.flatMap fun place =>
          segment.extend files onlyFolders place)

def Match.text (root : String) (place : Match) : String :=
  root ++ "/".intercalate place.names ++
    (if place.endsInSlash && !place.names.isEmpty then "/" else "")

/-- The match that names lead to, whatever there is. -/
def startAt (files : FileSystem) (root : String) (names : List String) : Match :=
  { names, location := names.foldl (Segment.step files) (some (files.start { root })) }

/-- Why a pattern cannot be followed, of several reasons the one that is met first.  The names in
front of the first wildcard have to be names that can be looked up; that is seen once the calls for
all names behind them are there. -/
def patternFault? [Runtime] (files : FileSystem) (wantsFolder : Bool) (root : String)
    (front : List String) (behind : List Segment) : Option PatternFault :=
  if !Runtime.hasRoom (whileFollowing wantsFolder behind) then some .tooDeep
  else
    match nameFault? ("/".intercalate front) with
    | some fault => some (.unnamable fault)
    | none =>
        if canExpand files wantsFolder behind [startAt files root front] then none
        else some .tooDeep

/-- The paths that a pattern finds, in the order of their texts; the working folder itself is not
found. -/
def pathsOf [Runtime] (files : FileSystem) (pattern : String) :
    Except PatternFault (List Path) :=
  let root := (Path.ofText pattern).root
  let parts := Text.parts '/' pattern
  let wantsFolder : Bool := parts.getLast? = some ""
  let segments := (parts.filter (· ≠ "")).map Segment.ofText
  let front := (segments.takeWhile (·.isPlain)).map (·.text)
  let behind := segments.dropWhile (·.isPlain)
  match patternFault? files wantsFolder root front behind with
  | some fault => .error fault
  | none =>
      let found := expand files wantsFolder behind [startAt files root front]
      let texts := (found.map (Match.text root)).filter (· ≠ "")
      .ok ((texts.mergeSort Text.precedes).map Path.ofText)

end Files

end ConfigSchema
