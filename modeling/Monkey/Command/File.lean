import Monkey.Text.Quoted
import Monkey.Text.Decimal

/-!
# Files

A file name is read as a path: empty parts and single dots say nothing, two dots lead up, and a
name that starts with slashes starts at the root. Looking a path up follows its parts from the
working directory; the first part that cannot be followed decides which fault is reported.

A directory tree is known here by the files in it. Above the tree and at the root there are
directories, of which nothing else is known.
-/

namespace Monkey.Command

/-- A path: the slashes it starts with, and the names on the way. -/
structure Path where
  slashes : Nat
  parts : List String
deriving DecidableEq, Repr

namespace Path

/-- The pieces of a text between slashes. -/
def pieces : List Char → List (List Char)
  | [] => [[]]
  | c :: rest =>
    if c = '/' then [] :: pieces rest
    else
      match pieces rest with
      | [] => [[c]]
      | first :: others => (c :: first) :: others

/-- The path that a file name denotes. Two slashes in front are kept, more count as one. -/
def ofName (name : String) : Path where
  slashes :=
    match (name.toList.takeWhile (· == '/')).length with
    | 0 => 0
    | 2 => 2
    | _ => 1
  parts := ((pieces name.toList).filter fun piece => piece ≠ [] && piece ≠ ['.']).map String.ofList

/-- How a path is written. -/
def text (path : Path) : String :=
  if path.slashes = 0 && path.parts.isEmpty then "."
  else String.ofList (List.replicate path.slashes '/') ++ "/".intercalate path.parts

end Path

/-- A refusal of the system, with its number. -/
structure SystemFault where
  code : Nat
  reason : String
deriving DecidableEq, Repr

namespace SystemFault

/-- There is nothing by that name. -/
def noSuchFile : SystemFault := ⟨2, "No such file or directory"⟩

/-- A part of the path that is not the last one names a file. -/
def notDirectory : SystemFault := ⟨20, "Not a directory"⟩

/-- The path names a directory. -/
def isDirectory : SystemFault := ⟨21, "Is a directory"⟩

/-- The path or one of its parts is longer than the system takes. -/
def nameTooLong : SystemFault := ⟨36, "File name too long"⟩

/-- The wording of a refusal. -/
def message (fault : SystemFault) (path : Path) : String :=
  "[Errno " ++ Text.Decimal.ofNat fault.code ++ "] " ++ fault.reason ++ ": " ++
    Text.quoted path.text

end SystemFault

/-- The contents of a file, by its path. -/
abbrev FileReader := Path → Except SystemFault (List UInt8)

/-- Files by the names on the way to them. -/
abbrev Directory := List (List String × List UInt8)

namespace Directory

/-- The most bytes in a part of a path. -/
def partLimit : Nat := 255

/-- The most bytes in a path. -/
def pathLimit : Nat := 4095

/-- Where following a path has led: to a directory of the tree, to a file, or some levels above
the tree. -/
inductive Place where
  | inside (names : List String)
  | file (contents : List UInt8)
  | above (levels : Nat)
deriving DecidableEq, Repr

/-- Follow one part of a path. -/
def step (directory : Directory) (place : Place) (part : String) : Except SystemFault Place :=
  match place with
  | .file _ => .error .notDirectory
  | .inside names =>
    if part = ".." then .ok (if names.isEmpty then .above 1 else .inside names.dropLast)
    else if partLimit < part.utf8ByteSize then .error .nameTooLong
    else
      let names := names ++ [part]
      match directory.lookup names with
      | some contents => .ok (.file contents)
      | none =>
        if directory.any fun entry => names.isPrefixOf entry.1 then .ok (.inside names)
        else .error .noSuchFile
  | .above levels =>
    if part = ".." then .ok (.above (levels + 1))
    else if partLimit < part.utf8ByteSize then .error .nameTooLong
    else .error .noSuchFile

/-- The contents of the file that a path leads to. -/
def read (directory : Directory) : FileReader := fun path =>
  if pathLimit < path.text.utf8ByteSize then .error .nameTooLong
  else do
    let start := if path.slashes = 0 then .inside [] else .above 1
    match ← path.parts.foldlM (step directory) start with
    | .file contents => .ok contents
    | _ => .error .isDirectory

end Directory

end Monkey.Command
