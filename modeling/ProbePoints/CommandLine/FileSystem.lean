import ProbePoints.CommandLine.Path
import ProbePoints.CommandLine.Run

/-!
# File systems in memory

The files that a command can reach, held as a value, so that a command can run without touching the files of the system.
A working directory stands in a folder for temporary files; beside that folder there are the devices.
-/

namespace ProbePoints

/-- A place in a file system: the names on the way to it from the root. -/
abbrev Place := List String

/-- What is at a place. The null device is empty, and keeps nothing of what is written to it. -/
inductive Entry where
  | folder
  | file (content : String)
  | nullDevice
  deriving DecidableEq, Repr

/-- The entries of a file system, and the place of its working directory. -/
structure FileSystem where
  entries : List (Place × Entry)
  workingDirectory : Place
  deriving DecidableEq, Repr

namespace FileSystem

/-- The place whose text goes to standard output. -/
def standardOutput : Place := ["dev", "stdout"]

/-- The place whose text goes to standard error. -/
def standardError : Place := ["dev", "stderr"]

/-- A file system with these files in its working directory. -/
def ofFiles (files : List (String × String)) : FileSystem :=
  let workingDirectory := ["tmp", "work"]
  { entries :=
      [([], .folder), (["dev"], .folder), (["dev", "null"], .nullDevice), (standardOutput, .file ""),
        (standardError, .file ""), (["tmp"], .folder), (workingDirectory, .folder)] ++
      files.map fun (name, content) => (workingDirectory ++ [name], .file content)
    workingDirectory }

/-- What is at a place. -/
def entry? (system : FileSystem) (place : Place) : Option Entry := system.entries.lookup place

/-- The text at a place. There is none in a folder. -/
def textAt (system : FileSystem) (place : Place) : String :=
  match system.entry? place with
  | some (.file content) => content
  | _ => ""

/-- The files of the working directory with their contents. -/
def files (system : FileSystem) : List (String × String) :=
  system.entries.filterMap fun (place, entry) =>
    match entry with
    | .file content =>
      if place.dropLast = system.workingDirectory then place.getLast?.map (·, content) else none
    | _ => none

/-- Replaces what is at a place in a list of entries, adding the place if it is not there. -/
def putIn (place : Place) (entry : Entry) : List (Place × Entry) → List (Place × Entry)
  | [] => [(place, entry)]
  | (other, old) :: rest =>
    if place = other then (place, entry) :: rest else (other, old) :: putIn place entry rest

/-- Replaces what is at a place. -/
def put (system : FileSystem) (place : Place) (entry : Entry) : FileSystem :=
  { system with entries := putIn place entry system.entries }

/-- Takes a step, which is possible only in a folder. The place that it leads to need not be there. The root is above
itself. -/
def step (system : FileSystem) (place : Place) (step : Step) : Except PathFault Place :=
  match system.entry? place with
  | none => .error .absent
  | some .folder =>
    match step with
    | .stay => .ok place
    | .up => .ok place.dropLast
    | .enter name =>
      if Path.maxNameBytes < name.utf8ByteSize then .error .tooLong else .ok (place ++ [name])
  | some _ => .error .notFolder

/-- Takes the steps of a path. -/
def follow (system : FileSystem) (fromRoot : Bool) (steps : List Step) : Except PathFault Place :=
  steps.foldlM system.step (if fromRoot then [] else system.workingDirectory)

/-- Reads the text at a path. -/
def read (system : FileSystem) (text : String) : Except PathFault String := do
  let path ← Path.ofText text
  let place ← system.follow path.fromRoot (if path.endsInSlash then path.steps ++ [.stay] else path.steps)
  match system.entry? place with
  | none => .error .absent
  | some .folder => .error .folder
  | some (.file content) => .ok content
  | some .nullDevice => .ok ""

/-- Writes a text at a path, making the file if it is not there. A path that ends in a slash asks for a folder, and only
the way to that folder has to be there. -/
def write (system : FileSystem) (text content : String) : Except PathFault FileSystem := do
  let path ← Path.ofText text
  if path.endsInSlash then
    let _ ← system.follow path.fromRoot (path.steps.dropLast ++ [.stay])
    .error .folder
  else
    let place ← system.follow path.fromRoot path.steps
    match system.entry? place with
    | none | some (.file _) => .ok (system.put place (.file content))
    | some .folder => .error .folder
    | some .nullDevice => .ok system

/-- Access to the files of a file system. -/
def access : FileAccess (StateM FileSystem) where
  read path := do
    return ((← get).read path).mapError PathFault.message
  write path content := do
    match (← get).write path content with
    | .ok system =>
      set system
      return .ok ()
    | .error fault => return .error fault.message

/-- The files of the working directory that are new or have changed since. -/
def changes (before after : FileSystem) : List (String × String) :=
  after.files.filter fun file => !before.files.contains file

end FileSystem

/-- Runs a command line on files in memory. It gives what the command leaves on its streams, and the files that are new or
have changed. -/
def runOnFiles (files : List (String × String)) (arguments : List String) :
    RunResult × List (String × String) :=
  let before := FileSystem.ofFiles files
  let (result, after) := (runArguments FileSystem.access arguments).run before
  let shown := {
    result with
    stdout := result.stdout ++ after.textAt FileSystem.standardOutput
    stderr := result.stderr ++ after.textAt FileSystem.standardError }
  (shown, before.changes after)

end ProbePoints
