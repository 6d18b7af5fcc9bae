import Brainfuck.Text.Basic
import Brainfuck.Text.Quoted

/-!
# Files

A path as a command names files by is an anchor, for absolute paths, and the names on the way. Repeated and
trailing slashes and the name `.` carry no meaning and are dropped; `..` is kept.

A command is a function of what it finds at the paths it is given, so it can be run on a real directory and on
a directory tree in memory alike.
-/

namespace Brainfuck.CommandLine

/-! ## Paths -/

structure Path where
  anchor : List Char := []
  names : List (List Char) := []
  deriving DecidableEq

/-- The anchor of a written path: exactly two slashes at the start stay two. -/
def anchorOf : List Char → List Char
  | '/' :: '/' :: '/' :: _ => ['/']
  | '/' :: '/' :: _ => ['/', '/']
  | '/' :: _ => ['/']
  | _ => []

def Path.ofText (s : List Char) : Path where
  anchor := anchorOf s
  names := (Text.splitAt '/' s).filter fun name => !name.isEmpty && name != ['.']

/-- Write a path; the path without names is the point. -/
def Path.text (path : Path) : List Char :=
  if path.anchor.isEmpty && path.names.isEmpty then ['.']
  else path.anchor ++ ['/'].intercalate path.names

def isLongName (name : List Char) : Bool :=
  255 < (String.ofList name).utf8ByteSize

def Path.isLong (path : Path) : Bool :=
  4095 < (String.ofList path.text).utf8ByteSize

/-! ## Findings -/

inductive Finding where
  | file (bytes : List UInt8)
  | directory
  /-- Nothing, in a directory that exists. -/
  | absent
  /-- Nothing, and the directory on the way is missing too. -/
  | noDirectory
  /-- Something on the way is a file. -/
  | throughFile
  /-- The path, or a name that was looked for, is too long. -/
  | tooLong
  /-- The path holds a character that no path may hold. -/
  | impossible
  deriving DecidableEq

inductive OpenError where
  | noSuchFile (path : List Char)
  | notADirectory (path : List Char)
  | isADirectory (path : List Char)
  | nameTooLong (path : List Char)
  | nullCharacter
  deriving DecidableEq

def OpenError.message : OpenError → String
  | noSuchFile path => "[Errno 2] No such file or directory: " ++ Text.quoted path
  | notADirectory path => "[Errno 20] Not a directory: " ++ Text.quoted path
  | isADirectory path => "[Errno 21] Is a directory: " ++ Text.quoted path
  | nameTooLong path => "[Errno 36] File name too long: " ++ Text.quoted path
  | nullCharacter => "embedded null byte"

/-- Whether something is there. What is too long cannot even be asked for. -/
def Finding.isThere (path : Path) : Finding → Except OpenError Bool
  | file _ | directory => .ok true
  | absent | noDirectory | throughFile | impossible => .ok false
  | tooLong => .error (.nameTooLong path.text)

def Finding.contents (path : Path) : Finding → Except OpenError (List UInt8)
  | file bytes => .ok bytes
  | directory => .error (.isADirectory path.text)
  | absent | noDirectory => .error (.noSuchFile path.text)
  | throughFile => .error (.notADirectory path.text)
  | tooLong => .error (.nameTooLong path.text)
  | impossible => .error .nullCharacter

def Finding.writable (path : Path) : Finding → Except OpenError Unit
  | file _ | absent => .ok ()
  | directory => .error (.isADirectory path.text)
  | noDirectory => .error (.noSuchFile path.text)
  | throughFile => .error (.notADirectory path.text)
  | tooLong => .error (.nameTooLong path.text)
  | impossible => .error .nullCharacter

/-- A directory tree: the files and the empty directories below its top, by the names that lead
there. -/
structure FileTree where
  files : List (List (List Char) × List UInt8) := []
  directories : List (List (List Char)) := []
  deriving DecidableEq

namespace FileTree

/-- Whether names lead to a directory. Above the top there are only directories. -/
def isDirectory (tree : FileTree) (names : List (List Char)) : Bool :=
  names.all (· == ['.', '.']) || tree.directories.any (names.isPrefixOf ·) ||
    tree.files.any fun (place, _) => names.isPrefixOf place && place != names

/-- What names lead to, when their directory is there. -/
def entry (tree : FileTree) (names : List (List Char)) : Finding :=
  match tree.files.lookup names with
  | some bytes => .file bytes
  | none => if tree.isDirectory names then .directory else .absent

/-- One step up from a place of the tree. Above the top the way goes on. -/
def parent (names : List (List Char)) : List (List Char) :=
  if names.all (· == ['.', '.']) then names ++ [['.', '.']] else names.dropLast

/-- Follow names from a place on, where `up` is a step up; the place reached, or why it cannot be
reached. -/
def walk (tree : FileTree) (up : List (List Char) → List (List Char)) :
    (place : List (List Char)) → List (List Char) → Except Finding (List (List Char))
  | place, [] => .ok place
  | place, name :: rest =>
    match tree.entry place with
    | .directory =>
      if isLongName name then .error .tooLong
      else walk tree up (if name = ['.', '.'] then up place else place ++ [name]) rest
    | .file _ => .error .throughFile
    | _ => .error .noDirectory

/-- What is known of the tree from the root of the system on: the usual directories, and the devices
that keep nothing of what is written to them, of which the null device is read as empty. -/
def systemTree : FileTree where
  files := ["null", "zero", "random", "urandom"].map fun name => (["dev".toList, name.toList], [])
  directories :=
    ["bin", "boot", "dev/fd", "dev/pts", "dev/shm", "etc", "home", "lib", "media", "mnt", "opt",
      "proc/self", "proc/sys", "root", "run", "sbin", "srv", "sys", "tmp", "usr/bin", "usr/include",
      "usr/lib", "usr/local/bin", "usr/local/lib", "usr/sbin", "usr/share", "usr/src", "var/cache",
      "var/lib", "var/log", "var/tmp"].map fun name => Text.splitAt '/' name.toList

/-- What names lead to from the root of the system, which is above itself. -/
def fromRoot (names : List (List Char)) : Finding :=
  match systemTree.walk List.dropLast [] names with
  | .ok place => systemTree.entry place
  | .error finding => finding

/-- The place of a path in the tree. Absolute paths lead out of it. -/
def place (tree : FileTree) (path : Path) : Except Finding (List (List Char)) :=
  if path.names.any (·.contains '\x00') then .error .impossible
  else if path.isLong then .error .tooLong
  else if path.anchor.isEmpty then tree.walk parent [] path.names
  else .error (fromRoot path.names)

def find (tree : FileTree) (path : Path) : Finding :=
  match tree.place path with
  | .ok names => tree.entry names
  | .error finding => finding

def write (tree : FileTree) (path : Path) (bytes : List UInt8) : FileTree :=
  match tree.place path with
  | .ok names =>
    { tree with files := tree.files.filter (fun (place, _) => place != names) ++ [(names, bytes)] }
  | .error _ => tree

/-- The files right at the top that differ from those of an earlier tree, by their names. -/
def changes (tree earlier : FileTree) : List (List Char × List UInt8) :=
  tree.files.filterMap fun (place, bytes) =>
    match place with
    | [name] => if earlier.files.lookup place = some bytes then none else some (name, bytes)
    | _ => none

end FileTree

end Brainfuck.CommandLine
