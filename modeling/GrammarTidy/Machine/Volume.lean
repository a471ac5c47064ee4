import GrammarTidy.Command.Host

namespace GrammarTidy.Machine

open Command (SystemError)

/-! Files and folders in memory. -/

/-! ## Paths

A path is a text, taken apart at its slashes; slashes side by side count as one.
There is a limit to the bytes of a name, and to those of a path. -/

structure Path where
  /-- The path starts at the root, not at the current folder. -/
  absolute : Bool
  steps : List String
  /-- The path ends with a slash, so it can only lead to a folder. -/
  asFolder : Bool
  size : Nat
deriving DecidableEq, Repr

namespace Path

def ofText (text : String) : Path where
  absolute := text.toList.head? = some '/'
  steps := (cut '/' text).filter (!·.isEmpty)
  asFolder := text.toList.getLast? = some '/'
  size := text.utf8ByteSize

def longestName : Nat := 255

def longest : Nat := 4095

end Path

/-! ## Nodes

A name stands for a folder, for a store of bytes or for a device. The null device
takes everything, and the full device has no room for a single byte; both are empty
to read. -/

inductive Device where
  | null
  | full
  | input
  | output
deriving DecidableEq, Repr

inductive Node where
  | folder
  | file (contents : Bytes)
  | device (device : Device)
deriving DecidableEq, Repr

/-- The names from the root down to a node. -/
abbrev Names := List String

structure Volume where
  nodes : List (Names × Node) := []
  current : Names := []
deriving DecidableEq, Repr

namespace Volume

/-- The node of some names. The folders on the way to a node are there without
being listed. -/
def node? (volume : Volume) (names : Names) : Option Node :=
  match volume.nodes.lookup names with
  | some node => some node
  | none =>
      if names.isEmpty || volume.nodes.any (fun entry => names.isPrefixOf entry.1) then
        some .folder
      else
        none

def set (volume : Volume) (names : Names) (node : Node) : Volume :=
  { volume with nodes := (names, node) :: volume.nodes.filter (·.1 != names) }

/-- Add bytes to the end of a file. -/
def append (volume : Volume) (names : Names) (bytes : Bytes) : Volume :=
  match volume.node? names with
  | some (.file contents) => volume.set names (.file (contents ++ bytes))
  | _ => volume

def look (volume : Volume) (folder : Names) (name : String) :
    Except SystemError (Option Node) :=
  if name.utf8ByteSize > Path.longestName then .error .nameTooLong
  else .ok (volume.node? (folder ++ [name]))

def walk (volume : Volume) : Names → List String → Except SystemError Names
  | here, [] => .ok here
  | here, step :: rest =>
      if step = "." then volume.walk here rest
      else if step = ".." then volume.walk here.dropLast rest
      else
        match volume.look here step with
        | .ok (some .folder) => volume.walk (here ++ [step]) rest
        | .ok (some _) => .error .notFolder
        | .ok none => .error .notFound
        | .error cause => .error cause

/-! ## Where paths lead

A path leads to a folder for sure, or to whatever a name stands for in a folder, if
it stands for anything. -/

inductive Target where
  | folder
  | place (folder : Names) (name : String)
deriving DecidableEq, Repr

/-- Follow a path. All of it but the last step must lead from folder to
folder. -/
def target (volume : Volume) (path : Path) : Except SystemError Target :=
  if path.size > Path.longest then .error .nameTooLong
  else
    match path.steps.getLast? with
    | none => if path.absolute then .ok .folder else .error .notFound
    | some last => do
        let start := if path.absolute then [] else volume.current
        let parent ← volume.walk start path.steps.dropLast
        if last = "." || last = ".." then return .folder
        else return .place parent last

def find (volume : Volume) (path : Path) : Except SystemError Node := do
  match ← volume.target path with
  | .folder => return .folder
  | .place folder name =>
      match ← volume.look folder name with
      | none => throw .notFound
      | some .folder => return .folder
      | some node => if path.asFolder then throw .notFolder else return node

/-- The names that a path leads to, for writing. A folder cannot be written, and a
path that ends with a slash asks for one, whether it is there or not. -/
def place (volume : Volume) (path : Path) : Except SystemError Names := do
  match ← volume.target path with
  | .folder => throw .isFolder
  | .place folder name =>
      if path.asFolder then throw .isFolder
      else
        match ← volume.look folder name with
        | some .folder => throw .isFolder
        | _ => return folder ++ [name]

end Volume

end GrammarTidy.Machine
