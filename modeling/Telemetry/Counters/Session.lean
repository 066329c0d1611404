import Telemetry.Counters.Handle

namespace Telemetry.Counters

/-- Where a registry reads the time: from a clock that moves when told to, or from the wall clock.
Assumption of clocks: a reading returns and is never refused, also the one that a counter which is
given back is dated by, when its state has been written already. -/
inductive Clock
  | manual (time : Int)
  | wall
  deriving DecidableEq, Repr

namespace Clock

def read (wallTime : Int) : Clock → Int
  | manual t => t
  | wall => wallTime

def set (t : Int) : Clock → Clock
  | manual _ => manual t
  | wall => wall

def advance (d : Int) : Clock → Clock
  | manual t => manual (Word.wrap 8 (t + d))
  | wall => wall

end Clock

/-- A question to a monitor; a scan may be given a number of rows after which its consumer fails. -/
inductive Lookup
  | maxId
  | value (id : Int)
  | registration (id : Int)
  | owner (id : Int)
  | state (id : Int)
  | type (id : Int)
  | deadline (id : Int)
  | label (id : Int)
  | key (id : Int)
  | validate (id : Int)
  | charset
  | find (type registration : Int)
  | labels (failAfter : Option Nat)
  | valuesOf (failAfter : Option Nat)
  | records (failAfter : Option Nat)
  deriving DecidableEq, Repr

inductive HandleUse
  | id
  | get
  | set (x : Int)
  | getAndAdd (x : Int)
  | getAndSet (x : Int)
  | compareAndSet (expected x : Int)
  | raiseTo (x : Int)
  | label
  | setLabel (t : Text)
  | appendLabel (t : Text)
  | isClosed
  | disconnect
  | close
  deriving DecidableEq, Repr

inductive Command
  | capacity
  | available
  | timeout
  | time
  | allocate (q : Request)
  | free (id : Int)
  | setValue (id x : Int)
  | setRegistration (id x : Int)
  | setOwner (id x : Int)
  | setLabel (id : Int) (t : Text)
  | appendLabel (id : Int) (t : Text)
  | setKey (id : Int) (s : Source)
  | writeKey (id : Int) (key : Script)
  | openHandle (q : Request)

/-- A command to the handles; a raw handle is opened on an id that is already there. -/
inductive HandleCommand
  | raw (id : Int) (managed : Bool)
  | move (h : Nat)
  | assign (h source : Nat)
  | destroy (h : Nat)
  | use (h : Nat) (u : HandleUse)
  deriving DecidableEq, Repr

inductive Call
  | look (q : Lookup)
  | metadata (a : Access)
  | values (a : Access)
  | setClock (t : Int)
  | advanceClock (d : Int)
  | command (c : Command)
  | handle (c : HandleCommand)

inductive Row
  | label (r : Monitor.LabelRow)
  | value (r : Monitor.ValueRow)
  | record (r : Monitor.RecordRow)
  deriving DecidableEq, Repr

structure Session where
  monitor : Monitor
  registry : Option Registry
  clock : Clock
  /-- Handles by number; a destroyed one leaves its number unused. -/
  handles : List (Option Handle)
  deriving Repr

/-- What a call does: the session afterwards, its writes, its answer, and the rows a scan handed
over. -/
structure Step where
  session : Session
  writes : List Write
  reply : Except Fault Reply
  seen : Option (List Row)

namespace Session

def create (monitor : Monitor) (registry : Option Registry) (clock : Clock) : Session :=
  ⟨monitor, registry, clock, []⟩

def consumerFailed : Fault := .raised (ascii "consumer failed")

def walked (s : Session) (row : α → Row) (w : Walk α) : Step :=
  ⟨s, [], match w.fault with | none => .ok .unit | some e => .error e, some (w.seen.map row)⟩

def answer (s : Session) (x : Query Reply) (m : Memory) : Step := ⟨s, [], x m, none⟩

def number (x : Query Int) : Query Reply := do return .number (← x)

def look (s : Session) (m : Memory) : Lookup → Step
  | .maxId => s.answer (return .number s.monitor.maxId) m
  | .value id => s.answer (number (s.monitor.value id)) m
  | .registration id => s.answer (number (s.monitor.registration id)) m
  | .owner id => s.answer (number (s.monitor.owner id)) m
  | .state id => s.answer (number (s.monitor.state id)) m
  | .type id => s.answer (number (s.monitor.type id)) m
  | .deadline id => s.answer (number (s.monitor.deadline id)) m
  | .label id => s.answer (do return .text (← s.monitor.label id)) m
  | .key id => s.answer (do return .bytes (← s.monitor.key id)) m
  | .validate id => s.answer (do s.monitor.validate id; return .unit) m
  | .charset => s.answer (return .text s.monitor.charset.name) m
  | .find type registration => s.answer (number (s.monitor.find type registration)) m
  | .labels n => s.walked .label (s.monitor.walkLabels (Consumer.upTo n consumerFailed) m)
  | .valuesOf n => s.walked .value (s.monitor.walkValues (Consumer.upTo n consumerFailed) m)
  | .records n => s.walked .record (s.monitor.walkRecords (Consumer.upTo n consumerFailed) m)

def act (s : Session) (x : Action Reply) (m : Memory) : Step :=
  let p := x m
  ⟨s, p.writes, p.result, none⟩

def done (x : Action Unit) : Action Reply := do x; return .unit

def settle (s : Session) (o : Outcome α) (reply : α → Reply) : Step :=
  ⟨{ s with registry := some o.registry }, o.writes, o.result.map reply, none⟩

def noHandle : Fault := .raised (ascii "no such handle")

def handle? (s : Session) (h : Nat) : Option Handle := (s.handles[h]?).join

def setHandle (s : Session) (h : Nat) (x : Option Handle) : Session :=
  { s with handles := s.handles.set h x }

def addHandle (s : Session) (opened : Except Fault Handle) (writes : List Write) : Step :=
  ⟨{ s with handles := s.handles ++ opened.toOption.toList.map some }, writes,
    opened.map fun x => .number x.id, none⟩

def giveBack (s : Session) (now : Int) (x : Handle) (m : Memory) : Step :=
  let nothing : Step := ⟨s, [], .ok .unit, none⟩
  match s.registry with
  | some r => if x.owns then s.settle (r.free now x.id m) fun _ => .unit else nothing
  | none => nothing

def use (s : Session) (now : Int) (h : Nat) (x : Handle) (m : Memory) : HandleUse → Step
  | .id => s.answer (return .number x.id) m
  | .get => s.answer (number x.get) m
  | .set v => s.act (done (x.set v)) m
  | .getAndAdd v => s.act (do return .number (← x.getAndAdd v)) m
  | .getAndSet v => s.act (do return .number (← x.getAndSet v)) m
  | .compareAndSet e v => s.act (do return .flag (← x.compareAndSet e v)) m
  | .raiseTo v => s.act (do return .flag (← x.raiseTo v)) m
  | .label => s.answer (do return .text (← x.label s.registry)) m
  | .setLabel t => s.act (done (x.setLabel s.registry t)) m
  | .appendLabel t => s.act (done (x.appendLabel s.registry t)) m
  | .isClosed => s.answer (return .flag x.closed) m
  | .disconnect => ⟨s.setHandle h (some x.disconnect), [], .ok .unit, none⟩
  | .close =>
    let given := s.giveBack now x m
    { given with session := given.session.setHandle h (some x.close) }

/-- Runs a command to the handles at a time. What becomes of a counter when its handle is replaced
or destroyed is not told. -/
def handle (s : Session) (now : Int) (m : Memory) : HandleCommand → Step
  | .raw id managed =>
    s.addHandle (Handle.create s.monitor.values id (managed && s.registry.isSome)) []
  | .move h =>
    match s.handle? h with
    | none => ⟨s, [], .error noHandle, none⟩
    | some x =>
      let s' := s.setHandle h (some x.emptied)
      ⟨{ s' with handles := s'.handles ++ [some x] }, [], .ok (.number s.handles.length), none⟩
  | .assign h source =>
    match s.handle? h, s.handle? source with
    | some x, some y =>
      if h = source then ⟨s, [], .ok (.number x.id), none⟩
      else
        let given := s.giveBack now x m
        ⟨(given.session.setHandle h (some y)).setHandle source (some y.emptied), given.writes,
          .ok (.number y.id), none⟩
    | _, _ => ⟨s, [], .error noHandle, none⟩
  | .destroy h =>
    match s.handle? h with
    | none => ⟨s, [], .error noHandle, none⟩
    | some x =>
      let given := s.giveBack now x m
      ⟨given.session.setHandle h none, given.writes, .ok .unit, none⟩
  | .use h u =>
    match s.handle? h with
    | none => ⟨s, [], .error noHandle, none⟩
    | some x => s.use now h x m u

def command (s : Session) (r : Registry) (now : Int) (m : Memory) : Command → Step
  | .capacity => s.answer (return .number r.capacity) m
  | .available => s.answer (number (r.available now)) m
  | .timeout => s.answer (return .number r.timeout) m
  | .time => s.answer (return .number now) m
  | .allocate q => s.settle (r.allocate now q m) .number
  | .free id => s.settle (r.free now id m) fun _ => .unit
  | .setValue id x => s.act (done (r.setValue id x)) m
  | .setRegistration id x => s.act (done (r.setRegistration id x)) m
  | .setOwner id x => s.act (done (r.setOwner id x)) m
  | .setLabel id t => s.act (done (r.setLabel id t)) m
  | .appendLabel id t => s.act (done (r.appendLabel id t)) m
  | .setKey id k => s.act (done (r.setKey id k)) m
  | .writeKey id k => s.act (done (r.writeKey id k)) m
  | .openHandle q =>
    let o := r.allocate now q m
    { s with registry := some o.registry }.addHandle
      (do Handle.create r.monitor.values (← o.result) true) o.writes

def moveClock (s : Session) (c : Clock) (wallTime : Int) : Step :=
  ⟨{ s with clock := c }, [], .ok (.number (c.read wallTime)), none⟩

def step (s : Session) (wallTime : Int) (m : Memory) : Call → Step
  | .look q => s.look m q
  | .metadata a => s.act (a.run s.monitor.metadata) m
  | .values a => s.act (a.run s.monitor.values) m
  | .setClock t => s.moveClock (s.clock.set t) wallTime
  | .advanceClock d => s.moveClock (s.clock.advance d) wallTime
  | .command c =>
    match s.registry with
    | none => ⟨s, [], .error .noRegistry, none⟩
    | some r => s.command r (s.clock.read wallTime) m c
  | .handle c => s.handle (s.clock.read wallTime) m c

def run (s : Session) (wallTime : Int) (m : Memory) : List Call → Session × Memory
  | [] => (s, m)
  | c :: rest =>
    let x := s.step wallTime m c
    x.session.run wallTime (m.storeAll x.writes) rest

def available (s : Session) (wallTime : Int) (m : Memory) : Option (Except Fault Int) :=
  s.registry.map fun r => r.available (s.clock.read wallTime) m

def states (s : Session) (count : Nat) (m : Memory) : List Int :=
  let whole := min count (s.monitor.metadata.capacity / Record.length)
  (List.range whole).map fun i =>
    Word.signed (m.load s.monitor.metadata.region (s.monitor.metadata.base + i * Record.length) 4)

def finish (s : Session) (wallTime : Int) (m : Memory) : List Write :=
  (s.handles.foldl (fun (acc : Session × List Write) x =>
    match x with
    | none => acc
    | some h =>
      let given := acc.1.giveBack (s.clock.read wallTime) h (m.storeAll acc.2)
      (given.session, acc.2 ++ given.writes)) (s, [])).2

end Session

end Telemetry.Counters
