import Telemetry.Fault

namespace Telemetry

abbrev Location := List Text

/-- What can be found at a place: a directory, a file, a device that swallows what is written to it,
or a device that has no room. -/
inductive Node
  | directory
  | file (content : Text)
  | sink
  | full
  deriving DecidableEq, Repr

/-- What comes of reading what a path leads to: it cannot be opened, it can be opened but not read,
or it has a content. -/
inductive Reading
  | unopened
  | failed (reason : OsError)
  | content (text : Text)
  deriving DecidableEq, Repr

def Reading.text? : Reading → Option Text
  | .content text => some text
  | _ => none

structure FileTree where
  here : Location
  nodes : List (Location × Node)
  deriving DecidableEq, Repr

namespace FileTree

def maxNameLength : Nat := 255

def maxPathLength : Nat := 4095

def node? (t : FileTree) (l : Location) : Option Node :=
  if l.isEmpty then some .directory else t.nodes.lookup l

def putIn (l : Location) (n : Node) : List (Location × Node) → List (Location × Node)
  | [] => [(l, n)]
  | (k, old) :: rest => if k = l then (l, n) :: rest else (k, old) :: putIn l n rest

def put (t : FileTree) (l : Location) (n : Node) : FileTree :=
  { t with nodes := putIn l n t.nodes }

def remove (t : FileTree) (l : Location) : FileTree :=
  { t with nodes := t.nodes.filter fun x => x.1 != l }

def names (path : Text) : List Text := (path.pieces 47).filter fun n => !n.isEmpty

/-- The place of a name in a directory. One dot is the directory itself, two are the one that it is
in; the root is in itself. -/
def place (directory : Location) (name : Text) : Except OsError Location :=
  if name = [46] then .ok directory
  else if name = [46, 46] then .ok directory.tail
  else if maxNameLength < name.length then .error .nameTooLong
  else .ok (name :: directory)

def enter (t : FileTree) : Location → List Text → Except OsError Location
  | l, [] => .ok l
  | l, n :: rest =>
    match place l n with
    | .error e => .error e
    | .ok inner =>
      match t.node? inner with
      | none => .error .noEntry
      | some .directory => t.enter inner rest
      | some _ => .error .notDirectory

structure Route where
  directory : Location
  last : Option Text
  /-- Whether the path ends in a slash, so that it can only mean a directory. -/
  slash : Bool
  deriving DecidableEq, Repr

/-- Follows a path up to its last name. A path ends at its first zero byte; an empty one leads
nowhere. -/
def route (t : FileTree) (path : Text) : Except OsError Route :=
  let path := path.beforeNul
  if path.isEmpty then .error .noEntry
  else if maxPathLength < path.length then .error .nameTooLong
  else
    let start := if path.head? = some 47 then [] else t.here
    match t.enter start (names path).dropLast with
    | .error e => .error e
    | .ok directory => .ok ⟨directory, (names path).getLast?, path.getLast? = some 47⟩

/-- Reads what a path leads to. A directory can be opened but not read; devices hold nothing. -/
def read (t : FileTree) (path : Text) : Reading :=
  match t.route path with
  | .error _ => .unopened
  | .ok r =>
    match r.last with
    | none => .failed .isDirectory
    | some name =>
      match (place r.directory name).toOption.bind t.node? with
      | none => .unopened
      | some .directory => .failed .isDirectory
      | some (.file content) => if r.slash then .unopened else .content content
      | some _ => if r.slash then .unopened else .content []

/-- Opens what a path leads to for writing at its end, and answers its place. A missing file is
created. -/
def openToAppend (t : FileTree) (path : Text) : Except OsError (Location × FileTree) := do
  let r ← t.route path
  match r.last, r.slash with
  | some name, false =>
    let l ← place r.directory name
    match t.node? l with
    | some .directory => throw .isDirectory
    | some _ => return (l, t)
    | none => return (l, t.put l (.file []))
  | _, _ => throw .isDirectory

def append (t : FileTree) (l : Location) (text : Text) : Except OsError FileTree :=
  match t.node? l with
  | some (.file content) => .ok (t.put l (.file (content ++ text)))
  | some .sink => .ok t
  | some .full => .error .noSpace
  | some .directory => .error .isDirectory
  | none => .error .noEntry

def filesIn (t : FileTree) (directory : Location) : List (Text × Text) :=
  t.nodes.filterMap fun
    | (name :: l, .file content) => if l = directory then some (name, content) else none
    | _ => none

end FileTree

end Telemetry
