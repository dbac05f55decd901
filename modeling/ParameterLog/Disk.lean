/-
Module: ParameterLog.Disk
Purpose: the tree of files and directories that logs lie in.
Main exports: Disk, Disk.enter, Disk.walk, Disk.openToAppend, Disk.openToRead, Disk.makeDirectories
-/
import ParameterLog.Bytes.Basic
import ParameterLog.Path
import ParameterLog.Table

/-!
A disk binds places to files and directories. A place is the list of names on the way from the root,
which is always a directory. A path that starts with a slash is walked from the root and any other
one from the working directory, part by part, each but the last leading through a directory.

Opening a file for appending creates it if only its name is missing; its directory must be there. A
name with a slash behind it is then that of a directory, whatever stands under it, so that only the
way to it is walked. Directories are made from the outermost one that is missing inwards, and
slashes behind their names say nothing.

Files stay where they are: an open file is known by its place.
-/

namespace ParameterLog

/-- The names on the way from the root. -/
abbrev Place := List String

/-- What stands at a place. -/
inductive Node where
  /-- A file with its content and its permission bits. -/
  | file (content : Bytes) (mode : Nat)
  | directory
deriving Repr, DecidableEq

/-- Why a path cannot be used. -/
inductive DiskFault where
  | missing
  | exists
  | notADirectory
  | isADirectory
  | nameTooLong
  | containsNul
deriving Repr, DecidableEq

/-- The wording of a fault. -/
def DiskFault.message : DiskFault → String
  | .missing => "No such file or directory (os error 2)"
  | .exists => "File exists (os error 17)"
  | .notADirectory => "Not a directory (os error 20)"
  | .isADirectory => "Is a directory (os error 21)"
  | .nameTooLong => "File name too long (os error 36)"
  | .containsNul => "file name contained an unexpected NUL byte"

/-- The greatest number of bytes in a name. -/
def longestName : Nat := 255

/-- The greatest number of bytes in a path. -/
def longestPath : Nat := 4095

/-- Files and directories by place, and the directory that paths are walked from. -/
structure Disk where
  nodes : Table Place Node
  workingDirectory : Place
deriving Inhabited

/-- Where a path leads. -/
inductive Walk where
  /-- To something that is there. -/
  | found (place : Place)
  /-- To a name that is missing in a directory. -/
  | vacant (place : Place)
deriving Repr, DecidableEq

namespace Disk

/-- The disk that holds nothing, with the root as its working directory. -/
def empty : Disk := ⟨.empty, []⟩

/-- What stands at a place. -/
def node? (disk : Disk) (place : Place) : Option Node :=
  if place.isEmpty then some .directory else disk.nodes.find? place

/-- Whether a directory stands at a place. -/
def isDirectory (disk : Disk) (place : Place) : Bool := disk.node? place = some .directory

/-- Puts something at a place. -/
def put (disk : Disk) (place : Place) (node : Node) : Disk :=
  { disk with nodes := disk.nodes.insert place node }

/-- Puts a directory into the working directory and works there. -/
def enter (disk : Disk) (name : String) : Disk :=
  let place := disk.workingDirectory ++ [name]
  { disk.put place .directory with workingDirectory := place }

/-- The content of the file at a place. -/
def content? (disk : Disk) (place : Place) : Option Bytes :=
  match disk.node? place with
  | some (.file content _) => some content
  | _ => none

/-- Changes the content of the file at a place. -/
def replaceContent (disk : Disk) (place : Place) (content : Bytes) : Disk :=
  match disk.node? place with
  | some (.file _ mode) => disk.put place (.file content mode)
  | _ => disk

/-- Walks the parts of a path from a place. -/
def walkFrom (disk : Disk) (place : Place) : List String → Except DiskFault Walk
  | [] => .ok (.found place)
  | part :: rest =>
    if !disk.isDirectory place then .error .notADirectory
    else if Path.idle part then disk.walkFrom place rest
    else if part = ".." then disk.walkFrom place.dropLast rest
    else if longestName < part.utf8ByteSize then .error .nameTooLong
    else if (disk.node? (place ++ [part])).isSome then disk.walkFrom (place ++ [part]) rest
    else if rest.isEmpty then .ok (.vacant (place ++ [part]))
    else .error .missing

/-- The parts of a path, unless it can be walked on no disk. -/
def partsOf (path : String) : Except DiskFault (List String) :=
  if path.isEmpty then .error .missing
  else if path.toList.contains '\x00' then .error .containsNul
  else if longestPath < path.utf8ByteSize then .error .nameTooLong
  else .ok (Path.segments path)

/-- Where the walk of the parts of a path starts. -/
def startOf (disk : Disk) (parts : List String) : Place :=
  if parts.head? = some "" then [] else disk.workingDirectory

/-- Walks the parts of a path. -/
def walkParts (disk : Disk) (parts : List String) : Except DiskFault Walk :=
  disk.walkFrom (disk.startOf parts) parts

/-- Walks a path. -/
def walk (disk : Disk) (path : String) : Except DiskFault Walk :=
  (partsOf path).bind disk.walkParts

/-- The place that a path leads to. -/
def place? (disk : Disk) (path : String) : Option Place :=
  match disk.walk path with
  | .ok (.found place) => some place
  | _ => none

/-- What a path leads to. -/
def find? (disk : Disk) (path : String) : Option Node := (disk.place? path).bind disk.node?

/-- Opens a file for appending by the parts of its path, creating it with permission bits if its
name is missing. -/
def appendFrom (disk : Disk) (mode : Nat) (parts : List String) :
    Except DiskFault (Place × Disk) :=
  match disk.walkParts parts with
  | .error fault => .error fault
  | .ok (.found place) =>
    if disk.isDirectory place then .error .isADirectory else .ok (place, disk)
  | .ok (.vacant place) => .ok (place, disk.put place (.file [] mode))

/-- Refuses to open for appending what parts of a path lead to, with one more name and a slash
behind them. -/
def refuseBelow (disk : Disk) (parts : List String) : DiskFault :=
  match disk.walkParts parts with
  | .error fault => fault
  | .ok (.found place) => if disk.isDirectory place then .isADirectory else .notADirectory
  | .ok (.vacant _) => .missing

/-- Opens a file for appending, creating it with permission bits if its name is missing. -/
def openToAppend (disk : Disk) (path : String) (mode : Nat) : Except DiskFault (Place × Disk) :=
  match partsOf path with
  | .error fault => .error fault
  | .ok parts =>
    match Path.slashed? parts with
    | some above => .error (disk.refuseBelow above)
    | none => disk.appendFrom mode parts

/-- Opens what is there for reading, be it a file or a directory. -/
def openToRead (disk : Disk) (path : String) : Except DiskFault Place :=
  match disk.walk path with
  | .error fault => .error fault
  | .ok (.found place) => .ok place
  | .ok (.vacant ..) => .error .missing

/-- Makes a directory in one that is there. -/
def makeDirectory (disk : Disk) (path : String) : Except DiskFault Disk :=
  match (partsOf path).bind fun parts => disk.walkParts (Path.trimSlashes parts) with
  | .error fault => .error fault
  | .ok (.found _) => .error .exists
  | .ok (.vacant place) => .ok (disk.put place .directory)

/-- Makes a directory unless it is there. -/
def ensureDirectory (disk : Disk) (path : String) : Except DiskFault Disk :=
  match disk.makeDirectory path with
  | .ok disk => .ok disk
  | .error fault => if disk.find? path = some .directory then .ok disk else .error fault

/-- Makes a directory and those around it that are missing, at most `levels` of them. A failure
leaves those that have been made. -/
def makeDirectories : Nat → String → Disk → Except DiskFault Unit × Disk
  | 0, _, disk => (.error .nameTooLong, disk)
  | levels + 1, path, disk =>
    if path.isEmpty then (.ok (), disk)
    else
      match disk.ensureDirectory path with
      | .ok disk => (.ok (), disk)
      | .error .missing =>
        match Path.parent? path with
        | none => (.error .missing, disk)
        | some parent =>
          match makeDirectories levels parent disk with
          | (.error fault, disk) => (.error fault, disk)
          | (.ok (), disk) =>
            match disk.ensureDirectory path with
            | .ok disk => (.ok (), disk)
            | .error fault => (.error fault, disk)
      | .error fault => (.error fault, disk)

end Disk
end ParameterLog
