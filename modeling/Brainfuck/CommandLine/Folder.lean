import Brainfuck.Text.Cut
import Brainfuck.Text.Utf8

/-! A folder of files, and what a path that starts in it leads to. The folder has no folders in it.
Of the world around it no more is known than that it lies in other folders, in which nothing else
is found. Main statement: a plain name leads to the file of that name. -/
namespace Brainfuck.CommandLine

/-- Why a file cannot be read. -/
inductive FileFault
  | missing
  /-- The path goes on behind a file. -/
  | notFolder
  /-- The path ends in a folder. -/
  | isFolder
  | nameTooLong
  | unreadable (reason : String)
  | notText
  deriving DecidableEq

def FileFault.message : FileFault → String
  | missing => "No such file or directory (os error 2)"
  | notFolder => "Not a directory (os error 20)"
  | isFolder => "Is a directory (os error 21)"
  | nameTooLong => "File name too long (os error 36)"
  | unreadable reason => reason
  | notText => Text.Utf8.refusal

/-- A folder that holds files and nothing else. -/
structure Folder where
  /-- The content of the file with a name, if there is one. -/
  file? : String → Option (List UInt8)

/-- What the beginning of a path leads to. -/
inductive Place
  /-- The folder that paths start in. -/
  | inside
  /-- A folder somewhere above it. -/
  | above
  | file (content : List UInt8)

namespace Folder

/-- The most bytes that a name can have. -/
def nameLimit : Nat := 255

/-- The most bytes that a path can have. -/
def pathLimit : Nat := 4095

def lookUp (f : Folder) (place : Place) (name : String) : Except FileFault Place :=
  if nameLimit < name.utf8ByteSize then .error .nameTooLong
  else
    match place, f.file? name with
    | .inside, some content => .ok (.file content)
    | _, _ => .error .missing

/-- What the next part of a path leads to. No part leads on from a file, not even an empty one. -/
def enter (f : Folder) (place : Place) (part : String) : Except FileFault Place :=
  match place with
  | .file _ => .error .notFolder
  | _ =>
    if part = "" || part = "." then .ok place
    else if part = ".." then .ok .above
    else f.lookUp place part

/-- What the remaining parts of a path lead to. -/
def follow (f : Folder) (place : Place) : List String → Except FileFault Place
  | [] => .ok place
  | part :: rest =>
    match f.enter place part with
    | .ok next => f.follow next rest
    | .error fault => .error fault

/-- The parts of a path, which are separated by slashes. -/
def parts (path : String) : List String :=
  (Text.pieces (· = '/') path.toList).map String.ofList

/-- Where a path starts: one that begins with a slash starts at the top of all folders. -/
def start (path : String) : Place :=
  if path.toList.head? = some '/' then .above else .inside

/-- The content of the file that a path leads to. The empty path leads nowhere. -/
def read (f : Folder) (path : String) : Except FileFault (List UInt8) :=
  if path = "" then .error .missing
  else if pathLimit < path.utf8ByteSize then .error .nameTooLong
  else
    match f.follow (start path) (parts path) with
    | .ok (.file content) => .ok content
    | .ok _ => .error .isFolder
    | .error fault => .error fault

/-- A name that can stand for a file: it is not empty, it has no slash, and it is none of the two
names that folders have for themselves and for the one above. -/
def Plain (name : String) : Prop :=
  name ≠ "" ∧ name ≠ "." ∧ name ≠ ".." ∧ '/' ∉ name.toList ∧ name.utf8ByteSize ≤ nameLimit

theorem parts_of_plain {name : String} (plain : Plain name) : parts name = [name] := by
  obtain ⟨_, _, _, noSlash, _⟩ := plain
  have whole : Text.pieces (· = '/') name.toList = [name.toList] := by
    apply Text.pieces_eq_singleton
    intro c h
    have apart : c ≠ '/' := fun e => noSlash (e ▸ h)
    simpa using apart
  simp [parts, whole]

/-- A plain name leads to the file of that name. -/
theorem read_of_plain (f : Folder) {name : String} (plain : Plain name) :
    f.read name = match f.file? name with
      | some content => .ok content
      | none => .error .missing := by
  have parted := parts_of_plain plain
  obtain ⟨filled, noDot, noDots, noSlash, short⟩ := plain
  have inside : start name = .inside := by
    have apart : name.toList.head? ≠ some '/' := fun h => noSlash (List.mem_of_mem_head? h)
    simp [start, apart]
  have shortPath : ¬ pathLimit < name.utf8ByteSize := by
    unfold pathLimit
    unfold nameLimit at short
    omega
  have entered : f.enter .inside name = f.lookUp .inside name := by
    simp [enter, filled, noDot, noDots]
  simp only [read, filled, if_false, shortPath, inside, parted, follow, entered]
  simp only [lookUp, Nat.not_lt.mpr short, if_false]
  cases f.file? name <;> rfl

end Folder

end Brainfuck.CommandLine
