import Telemetry.Log.Running
import Telemetry.Proofs.FileTree

namespace Telemetry.Log

/-- A line that is to be written. The clock decides when and is not part of it. -/
structure Item where
  outlet : Outlet
  level : Int
  body : Text
  deriving DecidableEq, Repr

/-- A log without a queue. -/
structure Direct where
  files : FileTree
  outlet : Outlet
  level : Int
  closed : Bool
  /-- The messages that were accepted since the caller last waited for the worker. -/
  gap : Nat
  deriving DecidableEq, Repr

namespace Direct

def start (files : FileTree) : Direct := ⟨files, .console, Level.info.number, false, 0⟩

/-- What a message comes to: nothing below the level in force, else one line at the outlet in force
or, after the end, on the error stream. -/
def said (d : Direct) (level : Int) (body : Text) : List Item :=
  if level < d.level then [] else [⟨if d.closed then .console else d.outlet, level, body⟩]

def heard (d : Direct) (level : Int) : Direct :=
  if level < d.level ∨ d.closed then d else { d with gap := d.gap + 1 }

def complaint (path : Text) (e : OsError) : Text :=
  ascii "Failed to create FileSink: " ++ (Fault.logFileNotOpened path e).message

/-- The lines about a change of the outlet: the old one is told, then the new one. -/
def handover (old new : Outlet) : List Item :=
  [⟨old, Level.system.number, ascii "Switching log sink to: " ++ new.description⟩,
    ⟨new, Level.system.number, ascii "Log sink switched from: " ++ old.description⟩]

def farewell (outlet : Outlet) : Item :=
  ⟨outlet, Level.system.number, ascii "Logger is shutting down."⟩

/-- The log after a call. A file that cannot be opened leaves the outlet as it is. -/
def next (d : Direct) : Call → Direct
  | .log level _ => d.heard level
  | .flush => { d with gap := 0 }
  | .setLevel level => { d with level }
  | .setFile path =>
    match d.files.openToAppend path with
    | .error _ => d.heard Level.error.number
    | .ok (l, files) =>
      { d with files, outlet := if d.closed then d.outlet else .file path l, gap := 0 }
  | .shutDown => { d with closed := true, gap := 0 }

def items (d : Direct) : Call → List Item
  | .log level body => d.said level body
  | .flush | .setLevel _ => []
  | .setFile path =>
    match d.files.openToAppend path with
    | .error e => d.said Level.error.number (complaint path e)
    | .ok (l, _) => if d.closed then [] else handover d.outlet (.file path l)
  | .shutDown => if d.closed then [] else [farewell d.outlet]

def reply (d : Direct) : Call → Reply
  | .setFile path =>
    match d.files.openToAppend path with
    | .error _ => .flag false
    | .ok _ => .flag (!d.closed)
  | _ => .unit

def run (d : Direct) (cs : List Call) : Direct := cs.foldl next d

def ledger (d : Direct) : List Call → List Item
  | [] => []
  | c :: cs => d.items c ++ (d.next c).ledger cs

def replies (d : Direct) : List Call → List Reply
  | [] => []
  | c :: cs => d.reply c :: (d.next c).replies cs

/-- What a caller keeps to. A message finds room in a queue with a limit even if the worker does
nothing until the caller next waits for it, the level changes when no message waits, and files that
are opened can be written to. A file that cannot be opened is itself a message. -/
def Permits (limit : Nat) (d : Direct) : Call → Prop
  | .log _ _ => d.closed ∨ d.gap < limit
  | .setLevel _ => d.closed ∨ d.gap = 0
  | .setFile path =>
    match d.files.openToAppend path with
    | .error _ => d.closed ∨ d.gap < limit
    | .ok (l, files) => files.node? l ≠ some .full
  | .flush | .shutDown => True

def PermitsAll (limit : Nat) (d : Direct) : List Call → Prop
  | [] => True
  | c :: cs => Permits limit d c ∧ PermitsAll limit (d.next c) cs

instance (limit : Nat) (d : Direct) (c : Call) : Decidable (d.Permits limit c) :=
  match c with
  | .log _ _ => inferInstanceAs (Decidable (d.closed ∨ d.gap < limit))
  | .setLevel _ => inferInstanceAs (Decidable (d.closed ∨ d.gap = 0))
  | .setFile path =>
    match h : d.files.openToAppend path with
    | .error _ => decidable_of_iff (d.closed ∨ d.gap < limit) (by simp [Permits, h])
    | .ok (l, files) => decidable_of_iff (files.node? l ≠ some .full) (by simp [Permits, h])
  | .flush | .shutDown => inferInstanceAs (Decidable True)

instance decidablePermitsAll (limit : Nat) (d : Direct) (cs : List Call) :
    Decidable (d.PermitsAll limit cs) :=
  match cs with
  | [] => inferInstanceAs (Decidable True)
  | c :: cs =>
    have := decidablePermitsAll limit (d.next c) cs
    inferInstanceAs (Decidable (d.Permits limit c ∧ (d.next c).PermitsAll limit cs))

theorem run_append_one (d : Direct) (cs : List Call) (c : Call) :
    d.run (cs ++ [c]) = (d.run cs).next c := by
  simp [run]

theorem ledger_append_one (d : Direct) (cs : List Call) (c : Call) :
    d.ledger (cs ++ [c]) = d.ledger cs ++ (d.run cs).items c := by
  induction cs generalizing d with
  | nil => simp [ledger, run]
  | cons c' cs ih => simp [ledger, run, ih]

theorem replies_append_one (d : Direct) (cs : List Call) (c : Call) :
    d.replies (cs ++ [c]) = d.replies cs ++ [(d.run cs).reply c] := by
  induction cs generalizing d with
  | nil => simp [replies, run]
  | cons c' cs ih => simp [replies, run, ih]

end Direct

structure Written where
  outlet : Outlet
  entry : Entry
  deriving DecidableEq, Repr

namespace Written

def item (w : Written) : Item := ⟨w.outlet, w.entry.level, w.entry.body⟩

def onConsole (w : Written) : Bool := w.outlet = .console

def isAt (l : Location) (w : Written) : Bool :=
  match w.outlet with
  | .file _ k => k = l
  | _ => false

end Written

def lines (format : Entry → Text) (ws : List Written) : Text :=
  ws.flatMap fun w => format w.entry

/-- Everything that came out of a log is the lines of `ws`, each at its outlet and in their order;
`files` is what the files were. -/
structure Shows (format : Entry → Text) (files : FileTree) (ws : List Written) (o : Output) :
    Prop where
  console : o.console = lines format (ws.filter Written.onConsole)
  files : files.Grows (fun l => lines format (ws.filter (Written.isAt l))) o.files
  reported : o.reported = []
  callbackFaults : o.callbackFaults = []

def Outlet.IsWritable (files : FileTree) : Outlet → Prop
  | file _ l => ∃ n, files.node? l = some n ∧ n.IsWritable
  | console | syslog => True

variable {format : Entry → Text} {files : FileTree} {ws : List Written} {o : Output} {l : Location}

theorem Outlet.IsWritable.opened {s : Outlet} (h : s.IsWritable files) (hl : l ≠ []) :
    s.IsWritable (files.opened l) := by
  cases s with
  | console | syslog => trivial
  | file path k =>
    obtain ⟨n, hn, hw⟩ := h
    refine ⟨n, ?_, hw⟩
    rw [FileTree.node?_opened hl]
    by_cases hk : k = l
    · simp [← hk, hn]
    · simp [hk, hn]

theorem shows_create (format : Entry → Text) (files : FileTree) :
    Shows format files [] (Output.create files) :=
  ⟨rfl, .refl files, rfl, rfl⟩

namespace Shows

theorem print (h : Shows format files ws o) (e : Entry) :
    Shows format files (ws ++ [⟨.console, e⟩]) (o.print (format e)) := by
  refine ⟨?_, ?_, h.reported, h.callbackFaults⟩
  · simp [Output.print, h.console, lines, Written.onConsole]
  · simpa [Output.print, Written.isAt] using h.files

theorem write (h : Shows format files ws o) {s : Outlet} (hs : s.IsWritable files) (e : Entry) :
    ∃ o', s.write (format e) o = .ok o' ∧ Shows format files (ws ++ [⟨s, e⟩]) o' := by
  cases s with
  | console => exact ⟨o.print (format e), by simp [Outlet.write], h.print e⟩
  | syslog =>
    refine ⟨o, rfl, ?_, ?_, h.reported, h.callbackFaults⟩
    · simpa [Written.onConsole] using h.console
    · simpa [Written.isAt] using h.files
  | file path l =>
    obtain ⟨n, hn, hw⟩ := hs
    obtain ⟨v, hv, grown⟩ := h.files.append hn hw (format e)
    refine ⟨{ o with files := v }, by simp [Outlet.write, hv], ?_, ?_, h.reported,
      h.callbackFaults⟩
    · simpa [Written.onConsole] using h.console
    -- the line is one more of the file at `l` and changes no other file
    · have same (k : Location) :
          (if k = l then lines format (ws.filter (Written.isAt k)) ++ format e
            else lines format (ws.filter (Written.isAt k))) =
          lines format ((ws ++ [(⟨.file path l, e⟩ : Written)]).filter (Written.isAt k)) := by
        by_cases hk : k = l
        · simp [hk, lines, Written.isAt]
        · simp [hk, lines, Written.isAt, Ne.symm hk]
      simpa only [same] using grown

theorem openFile_eq (h : Shows format files ws o) (path : Text) :
    Outlet.openFile path o =
      match files.openToAppend path with
      | .error e => .error (.logFileNotOpened path e)
      | .ok (l, _) => .ok (.file path l, { o with files := o.files.opened l }) := by
  unfold Outlet.openFile
  rw [FileTree.openToAppend_eq, FileTree.openToAppend_eq, h.files.target]
  cases files.target path <;> simp [Except.map]

theorem opened (h : Shows format files ws o) (hl : l ≠ []) :
    Shows format (files.opened l) ws { o with files := o.files.opened l } :=
  ⟨h.console, h.files.opened hl, h.reported, h.callbackFaults⟩

end Shows

end Telemetry.Log
