/-
Files by path. The operating system is a parameter: which paths can be opened, how much of a content
a file takes and what is read from a path are its matter (`FileSystem`). What it promises of
ordinary files has a name (`FileSystem.ReadsBack`), so whoever relies on it says so.

`Storage` is a small file system to run the library on.
-/
import FlowAutomaton.Action
import FlowAutomaton.Checkpoint.Field
import FlowAutomaton.Table

namespace FlowAutomaton

open Checkpoint (Field)

/-! ## Contents -/

/-- What a file holds. -/
inductive Stored where
  /-- The fields of a checkpoint, and the number of bytes after them that are too few for the
  field that they start. -/
  | checkpoint (fields : List Field) (loose : Nat)
  /-- Text, which is no checkpoint. -/
  | text (content : String)
  deriving DecidableEq

namespace Stored

/-- The number of bytes of some fields. -/
def fieldsSize (fields : List Field) : Nat := fields.foldl (fun n f => n + f.byteSize) 0

/-- The fields that lie within a number of bytes. -/
def fieldsWithin : Nat → List Field → List Field
  | _, [] => []
  | n, f :: rest => if f.byteSize ≤ n then f :: fieldsWithin (n - f.byteSize) rest else []

/-- The characters that lie within a number of bytes. -/
def charsWithin : Nat → List Char → List Char
  | _, [] => []
  | n, c :: rest => if c.utf8Size ≤ n then c :: charsWithin (n - c.utf8Size) rest else []

/-- The number of bytes of a file. -/
def byteSize : Stored → Nat
  | checkpoint fields loose => fieldsSize fields + loose
  | text s => s.utf8ByteSize

/-- The first bytes of a file, as many as there are up to a number. A field or a character of which
the end is missing is lost. -/
def truncate (n : Nat) : Stored → Stored
  | checkpoint fields loose =>
    let kept := fieldsWithin n fields
    checkpoint kept (min n (fieldsSize fields + loose) - fieldsSize kept)
  | text s => text (String.ofList (charsWithin n s.toList))

end Stored

/-- How far a content comes that is written to an open file. -/
inductive Progress where
  | complete
  /-- No more than some first bytes are taken, and the stream fails while they are written. -/
  | broken (taken : Nat) (reason : String)
  /-- No more than some first bytes are taken, and the stream fails when the file is closed. -/
  | lost (taken : Nat)
  deriving DecidableEq

/-- What is taken of a content. -/
def Progress.taken : Progress → Stored → Stored
  | complete, content => content
  | broken n _, content => content.truncate n
  | lost n, content => content.truncate n

/-! ## File systems -/

/-- Files, and what an operating system does with them. -/
class FileSystem (σ : Type) where
  /-- Whether a path can be opened to write to it. -/
  opens (path : String) (files : σ) : Bool
  /-- How far a content comes that is written to an open path. -/
  progress (path : String) (content : Stored) (files : σ) : Progress
  /-- The files after an open path has taken a content, in place of what was there. -/
  put (path : String) (content : Stored) (files : σ) : σ
  /-- What is read from a path, if it can be opened. -/
  read (path : String) (files : σ) : Option Stored

namespace FileSystem

variable {σ : Type} [FileSystem σ]

/-- Opens a path, which ends at its first NUL, and writes a content to it. -/
def write (path : String) (content : Stored) : Action σ Progress := do
  let files ← Action.get
  let name := Text.beforeNul path
  if opens name files then
    let p := progress name content files
    Action.modify (put name (p.taken content))
    pure p
  else
    Action.fail (.cannotWrite path)

/-- What is read from a path, which ends at its first NUL. -/
def contents (path : String) (files : σ) : Except Fault Stored :=
  match read (Text.beforeNul path) files with
  | some content => .ok content
  | none => .error (.cannotRead path)

/-- A path leads to an ordinary file: what it takes completely is what is read from it then. -/
def ReadsBack (path : String) (files : σ) : Prop :=
  ∀ content, progress (Text.beforeNul path) content files = .complete →
    read (Text.beforeNul path) (put (Text.beforeNul path) content files) = some content

end FileSystem

/-! ## A directory -/

/-- The files of a directory by name, beside which there are two devices and nothing else. -/
structure Storage where
  files : Table String Stored := {}
  deriving DecidableEq

namespace Storage

instance : Inhabited Storage := ⟨{}⟩

/-- Where a path leads. -/
inductive Place where
  | file (name : String)
  /-- The device on which there is no room. -/
  | full
  /-- The device that takes everything, and holds nothing. -/
  | null
  | nowhere
  deriving DecidableEq, Repr

/-- Where a path leads. Of the paths with a slash in them there are only the devices. -/
def place (path : String) : Place :=
  if path = "/dev/full" then .full
  else if path = "/dev/null" then .null
  else if path ∈ ["", ".", ".."] then .nowhere
  else if path.toList.contains '/' then .nowhere
  else .file path

instance : FileSystem Storage where
  opens path _ := place path ≠ .nowhere
  -- that nothing is taken where there is no room shows when the file is closed
  progress path _ _ := if place path = .full then .lost 0 else .complete
  put path content st :=
    match place path with
    | .file name => { st with files := st.files.insert name content }
    | _ => st
  -- what is read from a device is no checkpoint
  read path st :=
    match place path with
    | .file name => st.files.find? name
    | .nowhere => none
    | _ => some (.text "")

/-- The files after a content was written to a path, for a client that prepares files. -/
def save (st : Storage) (path : String) (content : Stored) : Except Fault Storage :=
  let o := (FileSystem.write path content).run st
  o.result.map fun _ => o.state

/-- What is read from a path, for a client that looks at files. -/
def load (st : Storage) (path : String) : Except Fault Stored := FileSystem.contents path st

end Storage

end FlowAutomaton
