import Telemetry.Proofs.Log.Ledger

namespace Telemetry.Log

def Command.leaves (o : Outlet) : Command → Outlet
  | setOutlet new => new
  | message _ | flush | setCallback _ => o

def Command.due (o : Outlet) : Command → List Item
  | message e => [⟨o, e.level, e.body⟩]
  | setOutlet new => Direct.handover o new
  | flush | setCallback _ => []

/-- A command that is done in full: its message is severe enough, its outlet takes in every line. -/
def Command.Fits (files : FileTree) (level : Int) : Command → Prop
  | message e => level ≤ e.level
  | setOutlet new => new.IsWritable files
  | flush | setCallback _ => True

def leaves (o : Outlet) (cs : List Command) : Outlet := cs.foldl Command.leaves o

def due (o : Outlet) : List Command → List Item
  | [] => []
  | c :: cs => c.due o ++ due (c.leaves o) cs

theorem leaves_append_one (o : Outlet) (cs : List Command) (c : Command) :
    leaves o (cs ++ [c]) = c.leaves (leaves o cs) := by
  simp [leaves]

theorem due_append_one (o : Outlet) (cs : List Command) (c : Command) :
    due o (cs ++ [c]) = due o cs ++ c.due (leaves o cs) := by
  induction cs generalizing o with
  | nil => simp [due, leaves]
  | cons c' cs ih => simp [due, leaves, ih]

variable {format : Entry → Text} {files : FileTree} {ws : List Written}

theorem length_due_message (o : Outlet) (ms : List Entry) :
    (due o (ms.map .message)).length = ms.length := by
  induction ms with
  | nil => rfl
  | cons e ms ih => simpa [due, Command.due, Command.leaves] using ih

theorem Command.Fits.opened {level : Int} {c : Command} {l : Location} (h : c.Fits files level)
    (hl : l ≠ []) : c.Fits (files.opened l) level := by
  cases c with
  | setOutlet new => exact Outlet.IsWritable.opened h hl
  | message _ | flush | setCallback _ => exact h

theorem Journal.write_shows {j : Journal} (h : Shows j.format files ws j.output)
    (hw : j.outlet.IsWritable files) (e : Entry) :
    ∃ o, j.write e = .ok { j with output := o } ∧
      Shows j.format files (ws ++ [⟨j.outlet, e⟩]) o := by
  obtain ⟨o, ho, shows⟩ := h.write hw e
  exact ⟨o, by simp [Journal.write, ho, Except.map], shows⟩

theorem Journal.tellDropped_of_none {j : Journal} (h : j.dropped = 0) : j.tellDropped = j := by
  simp [Journal.tellDropped, h]

theorem Journal.conclude_shows {j : Journal} (h : Shows j.format files ws j.output)
    (hw : j.outlet.IsWritable files) :
    ∃ o vs, j.conclude = { j with output := o } ∧ Shows j.format files (ws ++ vs) o ∧
      vs.map Written.item = [Direct.farewell j.outlet] := by
  let last := j.entry Level.system.number (ascii "Logger is shutting down.")
  obtain ⟨o, ho, shows⟩ := j.write_shows h hw last
  exact ⟨o, [⟨j.outlet, last⟩], by simp [Journal.conclude, last, ho], shows, by
    simp [Written.item, Direct.farewell, Journal.entry, last]⟩

theorem Journal.perform_shows {j : Journal} {c : Command}
    (h : Shows j.format files ws j.output) (hw : j.outlet.IsWritable files)
    (hc : c.Fits files j.level) :
    ∃ n cb o vs,
      j.perform c =
        ({ j with outlet := c.leaves j.outlet, droppedInAll := n, callback := cb, output := o },
          true) ∧
      Shows j.format files (ws ++ vs) o ∧ vs.map Written.item = c.due j.outlet := by
  cases c with
  | message e =>
    obtain ⟨o, ho, shows⟩ := j.write_shows h hw e
    have hle : j.level ≤ e.level := hc
    exact ⟨j.droppedInAll, j.callback, o, [⟨j.outlet, e⟩],
      by simp [Journal.perform, Journal.writeOrReport, ho, hle, Command.leaves], shows,
      by simp [Written.item, Command.due]⟩
  | setOutlet new =>
    -- the old outlet is told first, and the new one after it is in force
    obtain ⟨o, ho, shows⟩ := j.write_shows h hw
      (j.entry Level.system.number (ascii "Switching log sink to: " ++ new.description))
    obtain ⟨o', ho', shows'⟩ :=
      Journal.write_shows (j := { j with outlet := new, droppedInAll := 0, output := o }) shows hc
        (j.entry Level.system.number (ascii "Log sink switched from: " ++ j.outlet.description))
    refine ⟨0, j.callback, o', _, ?_, by simpa using shows', ?_⟩
    · simp only [Journal.perform, Journal.replaceOutlet, ho]
      simp only [Journal.entry] at ho' ⊢
      simp [ho', Command.leaves]
    · simp [Written.item, Command.due, Direct.handover, Journal.entry]
  | flush =>
    exact ⟨j.droppedInAll, j.callback, j.output, [],
      by simp [Journal.perform, Command.leaves], by simpa using h, by simp [Command.due]⟩
  | setCallback cb =>
    exact ⟨j.droppedInAll, cb, j.output, [],
      by simp [Journal.perform, Command.leaves], by simpa using h, by simp [Command.due]⟩

namespace Running

def pending (s : Running) : List Command := s.batch.getD [] ++ s.journal.queue

/-- The lines that the worker still has to write. -/
def owed (s : Running) : List Item :=
  due s.journal.outlet s.pending ++
    if s.journal.isShutDown ∧ ¬ s.ended then [Direct.farewell (leaves s.journal.outlet s.pending)]
    else []

/-- How many turns the worker needs until nothing is left for it to do. -/
def rounds (s : Running) : Nat :=
  if s.ended then 0
  else s.batch.elim 0 (·.length + 1) +
    (if s.journal.queue.isEmpty then 0 else s.journal.queue.length + 2) +
    if s.journal.isShutDown then 1 else 0

variable {s : Running} {c : Command} {rest : List Command}

@[simp]
theorem answer_journal (s : Running) (r : Reply) : (s.answer r).journal = s.journal := rfl

@[simp]
theorem answer_batch (s : Running) (r : Reply) : (s.answer r).batch = s.batch := rfl

@[simp]
theorem answer_ended (s : Running) (r : Reply) : (s.answer r).ended = s.ended := rfl

@[simp]
theorem answer_calls (s : Running) (r : Reply) :
    (s.answer r).made = s.made ∧ (s.answer r).todo = s.todo :=
  ⟨rfl, rfl⟩

theorem owed_of_ended (hp : s.pending = []) (he : s.ended = true) : s.owed = [] := by
  simp [owed, hp, he, due]

theorem tick_of_ended (h : s.ended = true) : s.tick = s := by
  simp [tick, h]

theorem tick_of_cons (h : s.ended = false) (hb : s.batch = some (c :: rest)) :
    s.tick = { s with journal := (s.journal.perform c).1, batch := some rest }.release c
      (s.journal.perform c).2 := by
  simp [tick, h, hb]

theorem tick_of_nil (h : s.ended = false) (hb : s.batch = some []) :
    s.tick = { s with journal := s.journal.tellDropped, batch := none } := by
  simp [tick, h, hb]

theorem tick_of_waiting (h : s.ended = false) (hb : s.batch = none) (hq : s.journal.queue ≠ []) :
    s.tick = { s with journal.queue := [], batch := some s.journal.queue } := by
  simp [tick, h, hb, hq, Journal.take]

theorem tick_of_shutDown (h : s.ended = false) (hb : s.batch = none) (hq : s.journal.queue = [])
    (hs : s.journal.isShutDown = true) :
    s.tick =
      { s with journal := s.journal.conclude, ended := true, wait := .nothing }.answer .unit := by
  simp [tick, h, hb, hq, hs]

theorem tick_of_idle (h : s.ended = false) (hb : s.batch = none) (hq : s.journal.queue = [])
    (hs : s.journal.isShutDown = false) : s.tick = s := by
  simp [tick, h, hb, hq, hs]

theorem run_append (s : Running) (ts us : List Turn) : s.run (ts ++ us) = (s.run ts).run us := by
  simp [run]

theorem run_worker_succ (s : Running) (n : Nat) :
    s.run (List.replicate (n + 1) .worker) = s.tick.run (List.replicate n .worker) := by
  simp [List.replicate_succ, run, step]

@[simp]
theorem release_journal (s : Running) (c : Command) (done : Bool) :
    (s.release c done).journal = s.journal := by
  cases c <;> simp [release]

@[simp]
theorem release_batch (s : Running) (c : Command) (done : Bool) :
    (s.release c done).batch = s.batch := by
  cases c <;> simp [release]

@[simp]
theorem release_ended (s : Running) (c : Command) (done : Bool) :
    (s.release c done).ended = s.ended := by
  cases c <;> simp [release]

@[simp]
theorem release_calls (s : Running) (c : Command) (done : Bool) :
    (s.release c done).made = s.made ∧ (s.release c done).todo = s.todo := by
  cases c <;> simp [release]

@[simp]
theorem release_message (s : Running) (e : Entry) (done : Bool) :
    s.release (.message e) done = s := by
  simp [release]

theorem release_of_awaited (s : Running) (hc : ∀ e, c ≠ .message e) (done : Bool) :
    s.release c done = { s with wait := .nothing }.answer (answerFor c done) := by
  cases c with
  | message e => exact absurd rfl (hc e)
  | setOutlet _ | flush | setCallback _ => simp [release]

@[simp]
theorem tick_calls (s : Running) : s.tick.made = s.made ∧ s.tick.todo = s.todo := by
  unfold tick
  split
  · simp
  · simp
  · simp
  · split
    · simp
    · split <;> simp

@[simp]
theorem submit_calls (s : Running) (c : Command) :
    (s.submit c).made = s.made ∧ (s.submit c).todo = s.todo := by
  unfold submit
  split <;> simp

@[simp]
theorem call_calls (s : Running) (c : Call) :
    (s.call c).made = s.made ∧ (s.call c).todo = s.todo := by
  unfold call
  split
  · simp
  · simp
  · simp
  · split <;> simp
  · split <;> simp

end Running

end Telemetry.Log
