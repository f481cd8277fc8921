import EmbeddedTcl.Text.Newline
import EmbeddedTcl.Text.Quoted

/-!
# Script files

How script files are named, found and read: paths in a normal form, the errors of a file system,
and UTF-8 text with any line ends.
-/

namespace EmbeddedTcl.CommandLine

/-- A path without empty or single-dot parts. Two leading slashes are kept, more count as one. -/
structure Path where
  root : String
  parts : List String

namespace Path

def ofString (name : String) : Path :=
  let slashes := (name.toList.takeWhile (· == '/')).length
  { root := if slashes = 0 then "" else if slashes = 2 then "//" else "/"
    parts := (name.splitOn "/").filter fun part => part != "" && part != "." }

def toString (p : Path) : String :=
  if p.root = "" && p.parts.isEmpty then "." else p.root ++ "/".intercalate p.parts

end Path

inductive FileError where
  | missing
  | isDirectory
  | notDirectory
  | nameTooLong
  | denied

namespace FileError

def text : FileError → String
  | missing => "[Errno 2] No such file or directory"
  | isDirectory => "[Errno 21] Is a directory"
  | notDirectory => "[Errno 20] Not a directory"
  | nameTooLong => "[Errno 36] File name too long"
  | denied => "[Errno 13] Permission denied"

def message (e : FileError) (name : String) : String :=
  e.text ++ ": " ++ Quoted.ofString (Path.ofString name).toString

end FileError

/-- What is found under a file's name: its bytes, or the reason there are none. -/
abbrev Contents := Except FileError ByteArray

/-- Files and directories by their relative names; `none` stands for a directory. -/
structure FileTree where
  entries : List (List String × Option ByteArray)

namespace FileTree

inductive Node where
  | file (bytes : ByteArray)
  | directory
  | nothing

/-- Of two entries under one name the later counts. -/
def ofList (entries : List (String × Option ByteArray)) : FileTree :=
  ⟨entries.reverse.map fun entry => ((Path.ofString entry.1).parts, entry.2)⟩

/-- What stands at a place in the tree. Every part of a name but the last is a directory. -/
def node (t : FileTree) (place : List String) : Node :=
  match t.entries.find? (·.1 == place) with
  | some (_, some bytes) => .file bytes
  | some (_, none) => .directory
  | none => if place.isEmpty || t.entries.any (place.isPrefixOf ·.1) then .directory else .nothing

/-- The longest name of a file or directory, in bytes. -/
def maxName : Nat := 255

/-- The longest path, in bytes. -/
def maxPath : Nat := 4095

/-- Follows the parts of a path from a directory above the tree. There is nothing there but the
directories above it. -/
def walkAbove : List String → Contents
  | [] => .error .isDirectory
  | ".." :: rest => walkAbove rest
  | part :: _ => .error (if maxName < part.utf8ByteSize then .nameTooLong else .missing)

/-- Follows the parts of a path from a place that is a directory. -/
def walk (t : FileTree) (place : List String) : List String → Contents
  | [] => .error .isDirectory
  | ".." :: rest => if place.isEmpty then walkAbove rest else t.walk place.dropLast rest
  | part :: rest =>
    if maxName < part.utf8ByteSize then .error .nameTooLong
    else
      match t.node (place ++ [part]), rest with
      | .nothing, _ => .error .missing
      | .directory, _ => t.walk (place ++ [part]) rest
      | .file bytes, [] => .ok bytes
      | .file _, _ => .error .notDirectory

/-- The tree stands in a directory of its own; from the root of all directories none of its files
can be named. -/
def read (t : FileTree) (name : String) : Contents :=
  let path := Path.ofString name
  if maxPath < path.toString.utf8ByteSize then .error .nameTooLong
  else if path.root = "" then t.walk [] path.parts
  else walkAbove path.parts

end FileTree

/-- The text of a file, if its bytes are valid UTF-8. A byte-order mark is part of the text. -/
def decodeText (bytes : ByteArray) : Option String :=
  (String.fromUTF8? bytes).map fun text => String.ofList (unifyNewlines text.toList)

end EmbeddedTcl.CommandLine
