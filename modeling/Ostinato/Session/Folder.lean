import Ostinato.Text.Quoted
import Ostinato.Text.Utf8

/-!
# Folders

A folder is what a session is read from: the files in it, by name. A path leads to the bytes of a file,
or to the trouble that keeps them from being read.
-/

namespace Ostinato

/-! ### Paths -/

/-- A path without its empty steps and the steps that stay in place; `root` is the slashes in front. -/
structure Path where
  root : String
  steps : List String
deriving DecidableEq, Repr

namespace Path

/-- Two slashes in front are kept; any other number of them is one. -/
def rootOf (slashes : Nat) : String :=
  if slashes = 0 then "" else if slashes = 2 then "//" else "/"

def pieces : List Char → List (List Char)
  | [] => [[]]
  | c :: cs =>
    if c = '/' then [] :: pieces cs
    else match pieces cs with
      | [] => [[c]]
      | piece :: rest => (c :: piece) :: rest

def ofString (s : String) : Path where
  root := rootOf (s.toList.takeWhile (· == '/')).length
  steps := ((pieces s.toList).filter fun piece => piece != [] && piece != ['.']).map String.ofList

/-- The written path; one that stays in place is written as a dot. -/
def text (p : Path) : String :=
  if p.root = "" ∧ p.steps = [] then "." else p.root ++ "/".intercalate p.steps

example : ofString "./a//b/." = ⟨"", ["a", "b"]⟩ := by decide
example : (ofString "").text = "." := rfl

end Path

/-! ### Troubles -/

/-- Why the bytes at a path cannot be read. -/
inductive Trouble where
  | missing
  | forbidden
  | notFolder
  | isFolder
  | nameTooLong
deriving DecidableEq, Repr

namespace Trouble

/-- The number that the system knows the trouble by. -/
def number : Trouble → Nat
  | missing => 2
  | forbidden => 13
  | notFolder => 20
  | isFolder => 21
  | nameTooLong => 36

def phrase : Trouble → String
  | missing => "No such file or directory"
  | forbidden => "Permission denied"
  | notFolder => "Not a directory"
  | isFolder => "Is a directory"
  | nameTooLong => "File name too long"

/-- The trouble with a path, as messages give it. -/
def message (t : Trouble) (p : Path) : String :=
  s!"[Errno {t.number}] {t.phrase}: {Text.quoted p.text}"

end Trouble

/-! ### Contents -/

structure Folder where
  files : List (String × List UInt8)
deriving Repr

namespace Folder

def nameLimit : Nat := 255

/-- The bytes that steps above the folder lead to; nothing but folders is known there. -/
def readAbove : List String → Except Trouble (List UInt8)
  | [] => .error .isFolder
  | step :: rest => if step = ".." then readAbove rest else .error .missing

/-- The bytes that steps inside the folder lead to. -/
def readSteps (f : Folder) : List String → Except Trouble (List UInt8)
  | [] => .error .isFolder
  | step :: rest =>
    if step = ".." then readAbove rest
    else if nameLimit < step.utf8ByteSize then .error .nameTooLong
    else match f.files.find? (·.1 == step) with
      | none => .error .missing
      | some (_, bytes) => if rest.isEmpty then .ok bytes else .error .notFolder

def read (f : Folder) (p : Path) : Except Trouble (List UInt8) :=
  if p.root = "" then f.readSteps p.steps else readAbove p.steps

end Folder

end Ostinato
