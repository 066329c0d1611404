import Telemetry.Shared.Board

namespace Telemetry.Shared

open Counters

abbrev Shelf (α : Type) := List (Nat × α)

namespace Shelf

def get? (s : Shelf α) (k : Nat) : Option α := s.lookup k

def remove (s : Shelf α) (k : Nat) : Shelf α := s.filter fun x => x.1 != k

/-- Puts a thing under a number, which is then used by no other thing. -/
def put (s : Shelf α) (k : Nat) (a : α) : Shelf α := (k, a) :: remove s k

end Shelf

structure World where
  space : Namespace
  mappings : Shelf (Option Mapping)
  buffers : Shelf Buffer
  boards : Shelf Board
  deriving Repr

inductive Command
  | create (h : Nat) (name : Option Text) (size : Nat) (exclusive unlinkFirst : Bool)
  | attach (h : Nat) (name : Option Text)
  | close (h : Option Nat)
  | unlink (name : Option Text)
  | access (h : Nat) (a : Access)
  | createBuffer (b : Nat) (name : Text) (length : Nat)
  | attachBuffer (b : Nat) (name : Text)
  | moveBuffer (b target : Nat)
  | assignBuffer (b target : Nat)
  | dropBuffer (b : Nat)
  | bufferState (b : Nat)
  | accessBuffer (b : Nat) (a : Access)
  | createBoard (b : Nat) (name : Text) (valuesLength : Nat) (charset : Charset)
      (clock : Option Clock) (timeout : Int)
  | configureBoard (b : Nat) (d : Document)
  | attachBoard (b : Nat) (name : Text)
  | moveBoard (b target : Nat)
  | dropBoard (b : Nat)
  | boardCapacity (b : Nat)
  | boardState (b : Nat)
  | call (b : Nat) (c : Call)

structure BoardState where
  name : Text
  owner : Bool
  metadataLength : Int
  valuesLength : Int
  creator : Int
  running : Bool
  maxId : Int
  charset : Charset
  timeout : Option Int
  start : Int
  deriving DecidableEq, Repr

inductive Answer
  | reply (r : Reply)
  | mapping (p : Option Mapping)
  | buffer (b : Buffer)
  | board (s : BoardState)
  deriving DecidableEq, Repr

/-- What a command does: the world afterwards, what is cut off, then what is written, its answer,
and the rows of a scan. -/
structure Effect where
  world : World
  cuts : List Cut
  writes : List Write
  answer : Except Fault Answer
  seen : Option (List Row)

def Effect.memory (e : Effect) (m : Memory) : Memory :=
  (e.cuts.foldl (fun m c => m.clearFrom c.region c.offset) m).storeAll e.writes

namespace World

def empty : World := ⟨.empty, [], [], []⟩

def nothingThere : Fault := .raised (ascii "nothing has this number")

def done (w : World) : Effect := ⟨w, [], [], .ok (.reply .unit), none⟩

def refuse (w : World) (e : Fault) : Effect := ⟨w, [], [], .error e, none⟩

def accessed (w : World) (v : View) (a : Access) (m : Memory) : Effect :=
  let p := a.run v m
  ⟨w, [], p.writes, p.result.map .reply, none⟩

variable [Platform]

def dropBuffer (w : World) (b : Nat) : World :=
  match Shelf.get? w.buffers b with
  | none => w
  | some x => { w with space := x.release w.space, buffers := Shelf.remove w.buffers b }

/-- Puts a buffer under a number after the buffer that had it is dropped. -/
def placeBuffer (w : World) (b : Nat) (x : Buffer) : World :=
  let w' := w.dropBuffer b
  { w' with buffers := Shelf.put w'.buffers b x }

def dropBoard (w : World) (host : Host) (m : Memory) (b : Nat) : World × List Write :=
  match Shelf.get? w.boards b with
  | none => (w, [])
  | some x =>
    let (space, writes) := x.release w.space host m
    ({ w with space := space, boards := Shelf.remove w.boards b }, writes)

/-- Puts a board that was just made under a number after the board that had it is dropped. -/
def placeBoard (w : World) (host : Host) (m : Memory) (b : Nat) (c : Board.Creation) : Effect :=
  let w' := { w with space := c.space }
  match c.result with
  | .error e => ⟨w', [], c.writes, .error e, none⟩
  | .ok x =>
    let (w', writes) := w'.dropBoard host (m.storeAll c.writes) b
    ⟨{ w' with boards := Shelf.put w'.boards b x }, [], c.writes ++ writes,
      .ok (.reply .unit), none⟩

def stateOf (host : Host) (x : Board) : Query BoardState := do
  return {
    name := x.buffer.name
    owner := x.buffer.owner
    metadataLength := ← x.metadataLength
    valuesLength := ← x.valuesLength
    creator := ← x.creator
    running := ← x.isCreatorRunning host
    maxId := x.session.monitor.maxId
    charset := x.session.monitor.charset
    timeout := if x.buffer.owner then x.session.registry.map Registry.timeout else none
    start := ← x.start }

def step (w : World) (host : Host) (m : Memory) : Command → Effect
  | .create h name size exclusive unlinkFirst =>
    match name with
    | none =>
      ⟨{ w with mappings := Shelf.put w.mappings h none }, [], [], .ok (.mapping none), none⟩
    | some name =>
      let g := w.space.create name size exclusive unlinkFirst
      let p := g.result.toOption
      ⟨{ w with space := g.space, mappings := Shelf.put w.mappings h p }, g.cuts, [],
        .ok (.mapping p), none⟩
  | .attach h name =>
    let p := name.bind fun name => (w.space.attach name).toOption
    ⟨{ w with mappings := Shelf.put w.mappings h p }, [], [], .ok (.mapping p), none⟩
  | .close h =>
    ⟨{ w with mappings := h.elim w.mappings (Shelf.put w.mappings · none) }, [], [],
      .ok (.mapping none), none⟩
  | .unlink name => { w with space := name.elim w.space w.space.unlink }.done
  | .access h a => w.accessed (viewOf (Shelf.get? w.mappings h).join) a m
  | .createBuffer b name length =>
    match Buffer.create w.space name length with
    | (space, .ok x) => ({ w with space := space }.placeBuffer b x).done
    | (space, .error e) => { w with space := space }.refuse e
  | .attachBuffer b name =>
    match Buffer.attach w.space name with
    | .ok x => (w.placeBuffer b x).done
    | .error e => w.refuse e
  | .moveBuffer b target =>
    let w' := w.dropBuffer target
    match Shelf.get? w'.buffers b with
    | none => w'.refuse nothingThere
    | some x =>
      { w' with buffers := Shelf.put (Shelf.put w'.buffers b x.emptied) target x }.done
  | .assignBuffer b target =>
    match Shelf.get? w.buffers b, Shelf.get? w.buffers target with
    | some x, some old =>
      if b = target then w.done
      else
        { w with
          space := old.release w.space
          buffers := Shelf.put (Shelf.put w.buffers b x.emptied) target x }.done
    | _, _ => w.refuse nothingThere
  | .dropBuffer b => (w.dropBuffer b).done
  | .bufferState b =>
    match Shelf.get? w.buffers b with
    | some x => ⟨w, [], [], .ok (.buffer x), none⟩
    | none => w.refuse nothingThere
  | .accessBuffer b a =>
    match Shelf.get? w.buffers b with
    | some x => w.accessed x.view a m
    | none => w.refuse nothingThere
  | .createBoard b name valuesLength charset clock timeout =>
    w.placeBoard host m b
      (Board.create w.space host name valuesLength charset clock timeout m)
  | .configureBoard b d =>
    match Settings.ofDocument d with
    | .error e => w.refuse e
    | .ok c => w.placeBoard host m b (Board.createFrom w.space host c m)
  | .attachBoard b name =>
    w.placeBoard host m b ⟨w.space, [], Board.attach w.space name m⟩
  | .moveBoard b target =>
    match Shelf.get? w.boards b with
    | none => w.refuse nothingThere
    | some x =>
      if b = target then w.done
      else
        let (w', writes) := w.dropBoard host m target
        ⟨{ w' with boards := Shelf.put (Shelf.remove w'.boards b) target x }, [], writes,
          .ok (.reply .unit), none⟩
  | .dropBoard b =>
    let (w', writes) := w.dropBoard host m b
    ⟨w', [], writes, .ok (.reply .unit), none⟩
  | .boardCapacity b =>
    match Shelf.get? w.boards b with
    | none => w.refuse (.boardReadOnly [])
    | some x => ⟨w, [], [], x.registry.map fun r => .reply (.number r.capacity), none⟩
  | .boardState b =>
    match Shelf.get? w.boards b with
    -- the header is looked for in a buffer without a mapping
    | none => w.refuse (.outOfBounds 0 Board.headerLength 0)
    | some x => ⟨w, [], [], (stateOf host x m).map .board, none⟩
  | .call b c =>
    match Shelf.get? w.boards b with
    | none => w.refuse nothingThere
    | some x =>
      let s := x.session.step host.wallTime m c
      ⟨{ w with boards := Shelf.put w.boards b { x with session := s.session } }, [], s.writes,
        s.reply.map .reply, s.seen⟩

def run (w : World) (host : Host) (m : Memory) : List Command → World × Memory
  | [] => (w, m)
  | c :: rest =>
    let e := w.step host m c
    e.world.run host (e.memory m) rest

end World

end Telemetry.Shared
