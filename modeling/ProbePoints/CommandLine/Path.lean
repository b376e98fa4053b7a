import ProbePoints.Message

/-!
# Paths

A path is read as the steps between its slashes. It starts at the root if it starts with a slash, and in the working
directory otherwise. Slashes in a row count as one.
-/

namespace ProbePoints

/-- Why a path leads to no file. -/
inductive PathFault where
  | absent
  | folder
  | notFolder
  | tooLong
  deriving DecidableEq, Repr

/-- The message of a fault. -/
def PathFault.message : PathFault → String
  | .absent => "No such file or directory"
  | .folder => "Is a directory"
  | .notFolder => "Not a directory"
  | .tooLong => "File name too long"

/-- One step of a path. -/
inductive Step where
  | stay
  | up
  | enter (name : String)
  deriving DecidableEq, Repr

/-- A path to a file or a folder. -/
structure Path where
  /-- Whether the path starts at the root. -/
  fromRoot : Bool
  steps : List Step
  /-- Whether the path ends in a slash, and so can only mean a folder. -/
  endsInSlash : Bool
  deriving DecidableEq, Repr

/-- Reads a step. A dot stays in a folder, and two dots go to the folder above. -/
def Step.ofName : String → Step
  | "." => .stay
  | ".." => .up
  | name => .enter name

namespace Path

/-- The most bytes that a path can have. -/
def maxBytes : Nat := 4095

/-- The most bytes that a name between slashes can have. -/
def maxNameBytes : Nat := 255

/-- Splits a text at every slash. -/
def split : List Char → List (List Char)
  | [] => [[]]
  | c :: rest =>
    if c = '/' then
      [] :: split rest
    else
      match split rest with
      | [] => [[c]]
      | piece :: pieces => (c :: piece) :: pieces

/-- The names between the slashes of a text. -/
def names (text : List Char) : List String := ((split text).filter (· != [])).map String.ofList

/-- Reads a path, which ends before the first NUL character. -/
def ofText (text : String) : Except PathFault Path :=
  let text := beforeNul text
  if text.isEmpty then
    .error .absent
  else if maxBytes < text.utf8ByteSize then
    .error .tooLong
  else
    .ok {
      fromRoot := text.toList.head? == some '/'
      steps := (names text.toList).map Step.ofName
      endsInSlash := text.toList.getLast? == some '/' }

end Path

end ProbePoints
