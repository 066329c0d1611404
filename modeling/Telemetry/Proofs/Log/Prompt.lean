import Telemetry.Proofs.Log.Delivery

namespace Telemetry.Log

namespace Journal

variable {j : Journal} {c : Command} {cs : List Command}

def call (j : Journal) : Call → Journal × Reply
  | .log level body => (j.log level body, .unit)
  | .flush => (j.flush, .unit)
  | .setLevel level => (j.setLevel level, .unit)
  | .setFile path => ((j.setFile path).1, .flag (j.setFile path).2)
  | .shutDown => (j.shutDown, .unit)

def callAll (j : Journal) : List Call → Journal × List Reply
  | [] => (j, [])
  | c :: cs => (((j.call c).1.callAll cs).1, (j.call c).2 :: ((j.call c).1.callAll cs).2)

/-- Nothing else comes to wait, and a log that is open stays open. -/
structure Keeps (j k : Journal) : Prop where
  queue : k.queue = j.queue
  isShutDown : k.isShutDown = j.isShutDown

theorem Keeps.refl (j : Journal) : Keeps j j := ⟨rfl, rfl⟩

theorem Keeps.trans {j k l : Journal} (h : Keeps j k) (h' : Keeps k l) : Keeps j l :=
  ⟨h'.queue.trans h.queue, h'.isShutDown.trans h.isShutDown⟩

variable (j)

theorem report_keeps (f : Fault) : Keeps j (j.report f) := by
  unfold report
  split <;> exact ⟨rfl, rfl⟩

variable {j}

theorem keeps_of_write {e : Entry} {k : Journal} (h : j.write e = .ok k) : Keeps j k := by
  unfold write at h
  cases ho : j.outlet.write (j.format e) j.output with
  | error f => simp [ho, Except.map] at h
  | ok o =>
    simp only [ho, Except.map, Except.ok.injEq] at h
    exact h ▸ ⟨rfl, rfl⟩

variable (j)

theorem writeOrReport_keeps (e : Entry) : Keeps j (j.writeOrReport e) := by
  unfold writeOrReport
  split
  · rename_i k hk
    exact keeps_of_write hk
  · exact report_keeps j _

theorem replaceOutlet_keeps (s : Outlet) : Keeps j (j.replaceOutlet s).1 := by
  simp only [replaceOutlet]
  split
  · exact report_keeps j _
  · rename_i k hk
    have told := keeps_of_write hk
    split
    · have reported := report_keeps { k with outlet := s, droppedInAll := 0 }
      exact ⟨(reported _).queue.trans told.queue, (reported _).isShutDown.trans told.isShutDown⟩
    · rename_i l hl
      have begun := keeps_of_write hl
      exact ⟨begun.queue.trans told.queue, begun.isShutDown.trans told.isShutDown⟩

theorem perform_keeps (c : Command) : Keeps j (j.perform c).1 := by
  cases c with
  | message e =>
    simp only [perform]
    split
    · exact writeOrReport_keeps j e
    · exact .refl j
  | setOutlet s => exact replaceOutlet_keeps j s
  | flush => exact .refl j
  | setCallback _ => exact ⟨rfl, rfl⟩

theorem performAll_cons (c : Command) (cs : List Command) :
    (j.performAll (c :: cs)).1 = ((j.perform c).1.performAll cs).1 := by
  cases cs <;> rfl

theorem performAll_append_one (cs : List Command) (c : Command) :
    j.performAll (cs ++ [c]) = (j.performAll cs).1.perform c := by
  induction cs generalizing j with
  | nil => rfl
  | cons c' cs ih =>
    rw [performAll_cons, ← ih]
    cases cs <;> rfl

theorem performAll_keeps (cs : List Command) : Keeps j (j.performAll cs).1 := by
  induction cs generalizing j with
  | nil => exact .refl j
  | cons c cs ih =>
    rw [performAll_cons]
    exact (perform_keeps j c).trans (ih _)

theorem tellDropped_keeps : Keeps j j.tellDropped := by
  unfold tellDropped
  split
  · exact .refl j
  · simp only
    split
    · rename_i k hk
      exact ⟨(keeps_of_write hk).queue, (keeps_of_write hk).isShutDown⟩
    · exact ⟨rfl, rfl⟩

theorem conclude_keeps : Keeps j j.conclude := by
  unfold conclude
  split
  · rename_i k hk
    exact keeps_of_write hk
  · exact ⟨rfl, rfl⟩

theorem work_queue : j.work.1.queue = [] := by
  have performed := performAll_keeps { j with queue := [] } j.queue
  exact (performed.trans (tellDropped_keeps _)).queue

theorem work_isShutDown : j.work.1.isShutDown = j.isShutDown := by
  have performed := performAll_keeps { j with queue := [] } j.queue
  exact (performed.trans (tellDropped_keeps _)).isShutDown

theorem drained :
    (if j.queue.isEmpty then j else j.work.1).queue = [] ∧
      (if j.queue.isEmpty then j else j.work.1).isShutDown = j.isShutDown := by
  by_cases hq : j.queue = []
  · simp [hq]
  · simp [hq, work_queue, work_isShutDown]

def HasMessages (j : Journal) : Prop := ∃ ms : List Entry, j.queue = ms.map .message

variable {j}

theorem HasMessages.log (h : j.HasMessages) (level : Int) (body : Text) :
    (j.log level body).HasMessages ∧ (j.log level body).isShutDown = j.isShutDown := by
  obtain ⟨ms, hq⟩ := h
  unfold Journal.log
  split
  · exact ⟨⟨ms, hq⟩, rfl⟩
  · split
    · exact ⟨⟨ms, hq⟩, rfl⟩
    · split
      · exact ⟨⟨ms, hq⟩, rfl⟩
      · exact ⟨⟨ms ++ [j.entry level body], by simp [hq]⟩, rfl⟩

theorem HasMessages.submit (h : j.HasMessages) (c : Command) :
    (j.submit c).1.HasMessages ∧ (j.submit c).1.isShutDown = j.isShutDown := by
  unfold Journal.submit
  split
  · exact ⟨h, rfl⟩
  · exact ⟨⟨[], work_queue _⟩, work_isShutDown _⟩

theorem HasMessages.setFile (h : j.HasMessages) (path : Text) :
    (j.setFile path).1.HasMessages ∧ (j.setFile path).1.isShutDown = j.isShutDown := by
  unfold Journal.setFile
  split
  · exact h.log _ _
  · rename_i outlet o _
    exact HasMessages.submit (j := { j with output := o }) h (.setOutlet outlet)

theorem HasMessages.shutDown (h : j.HasMessages) :
    j.shutDown.HasMessages ∧ j.shutDown.isShutDown = true := by
  unfold Journal.shutDown
  split
  · rename_i hs
    exact ⟨h, hs⟩
  · have performed := drained { j with isShutDown := true }
    have last := conclude_keeps
      (if j.queue.isEmpty then { j with isShutDown := true }
        else ({ j with isShutDown := true } : Journal).work.1)
    exact ⟨⟨[], last.queue.trans performed.1⟩, last.isShutDown.trans performed.2⟩

end Journal

namespace Running

variable {s : Running}

/-- The worker has nothing in hand, and messages alone wait for it. -/
structure IsResting (s : Running) : Prop where
  batch : s.batch = none
  ended : s.ended = s.journal.isShutDown
  wait : s.wait = .nothing
  messages : ∃ ms : List Entry, s.journal.queue = ms.map .message

theorem run_messages (he : s.ended = false) (ms : List Entry) (rest : List Command)
    (hb : s.batch = some (ms.map .message ++ rest)) :
    s.run (List.replicate ms.length .worker) =
      { s with journal := (s.journal.performAll (ms.map .message)).1, batch := some rest } := by
  induction ms generalizing s with
  | nil =>
    have same : s = { s with batch := some rest } := by rw [← show s.batch = some rest from hb]
    simpa [run, Journal.performAll] using same
  | cons e ms ih =>
    rw [List.map_cons, List.cons_append] at hb
    have first : s.tick =
        { s with
          journal := (s.journal.perform (.message e)).1
          batch := some (ms.map .message ++ rest) } := by
      rw [tick_of_cons he hb, release_message]
    have others := ih (s := s.tick) (by rw [first, he]) (by rw [first])
    rw [List.length_cons, run_worker_succ, others, first, List.map_cons, Journal.performAll_cons]

theorem run_taken (he : s.ended = false) (hb : s.batch = none) {ms : List Entry}
    {rest : List Command} (hq : s.journal.queue = ms.map .message ++ rest)
    (hne : s.journal.queue ≠ []) :
    s.run (.worker :: List.replicate ms.length .worker) =
      { s with
        journal := (({ s.journal with queue := [] } : Journal).performAll (ms.map .message)).1
        batch := some rest } := by
  have taken : s.tick =
      { s with journal.queue := [], batch := some (ms.map .message ++ rest) } := by
    rw [tick_of_waiting he hb hne, hq]
  rw [← List.replicate_succ, run_worker_succ,
    run_messages (by rw [taken, he]) ms rest (by rw [taken]), taken]

theorem run_command (he : s.ended = false) (hb : s.batch = none) {ms : List Entry} {c : Command}
    (hq : s.journal.queue = ms.map .message ++ [c]) (hc : ∀ e, c ≠ .message e) :
    s.run (.worker :: List.replicate ms.length .worker ++ [.worker, .worker]) =
      { s with
        journal := s.journal.work.1
        wait := .nothing
        answers := s.answers ++ [answerFor c s.journal.work.2] } := by
  let j := (({ s.journal with queue := [] } : Journal).performAll (ms.map .message)).1
  have work : s.journal.work = ((j.perform c).1.tellDropped, (j.perform c).2) := by
    simp [Journal.work, Journal.take, Journal.finish, hq, Journal.performAll_append_one, j]
  let told : Running := { s with journal := j, batch := some [c] }
  let done : Running :=
    { s with
      journal := (j.perform c).1, batch := some [], wait := .nothing
      answers := s.answers ++ [answerFor c (j.perform c).2] }
  have performed : told.tick = done := by
    rw [tick_of_cons (s := told) he rfl, release_of_awaited _ hc]
    rfl
  calc s.run (.worker :: List.replicate ms.length .worker ++ [.worker, .worker])
    _ = told.run [.worker, .worker] := by
      rw [run_append, run_taken he hb hq (by simp [hq])]
    _ = told.tick.tick := rfl
    _ = { done with journal := (j.perform c).1.tellDropped, batch := none } := by
      rw [performed, tick_of_nil (s := done) he rfl]
    _ = _ := by
      rw [work, ← hb]

theorem run_rest (he : s.ended = false) (hb : s.batch = none) {ms : List Entry}
    (hq : s.journal.queue = ms.map .message) (hms : ms ≠ []) :
    s.run (.worker :: List.replicate ms.length .worker ++ [.worker]) =
      { s with journal := s.journal.work.1 } := by
  let j := (({ s.journal with queue := [] } : Journal).performAll (ms.map .message)).1
  have work : s.journal.work.1 = j.tellDropped := by
    simp [Journal.work, Journal.take, Journal.finish, hq, j]
  let told : Running := { s with journal := j, batch := some [] }
  calc s.run (.worker :: List.replicate ms.length .worker ++ [.worker])
    _ = told.run [.worker] := by
      rw [run_append, run_taken he hb (hq.trans (List.append_nil _).symm) (by simpa [hq] using hms)]
    _ = told.tick := rfl
    _ = { told with journal := j.tellDropped, batch := none } := by
      rw [tick_of_nil (s := told) he rfl]
    _ = _ := by
      rw [work, ← hb]

theorem submit_prompt (h : s.IsResting) {c : Command} (hc : ∀ e, c ≠ .message e) :
    ∃ ts, (s.submit c).run ts =
      { s with
        journal := (s.journal.submit c).1
        answers := s.answers ++ [answerFor c (s.journal.submit c).2] } := by
  cases hs : s.journal.isShutDown with
  | true => exact ⟨[], by simp [run, submit, Journal.submit, hs, answer]⟩
  | false =>
    obtain ⟨ms, hq⟩ := h.messages
    let t : Running :=
      { s with journal.queue := s.journal.queue ++ [c], wait := .command }
    have he : t.ended = false := h.ended.trans hs
    have hsubmit : s.submit c = t := by rw [submit, if_neg (by simp [hs])]
    have hwork : s.journal.submit c = t.journal.work := by
      rw [Journal.submit, if_neg (by simp [hs])]
    have queued : t.journal.queue = ms.map .message ++ [c] := by simp [t, hq]
    have done := run_command (s := t) he h.batch queued hc
    exact ⟨_, by rw [hsubmit, done, ← hwork, ← h.wait]⟩

theorem shutDown_prompt (h : s.IsResting) :
    ∃ ts, (s.call .shutDown).run ts =
      { s with
        journal := s.journal.shutDown
        ended := true
        answers := s.answers ++ [.unit] } := by
  cases hs : s.journal.isShutDown with
  | true =>
    have he : s.ended = true := h.ended.trans hs
    exact ⟨[], by simp [run, call, Journal.shutDown, hs, answer, ← he]⟩
  | false =>
    obtain ⟨ms, hq⟩ := h.messages
    let t : Running := { s with journal.isShutDown := true, wait := .finish }
    have hcall : s.call .shutDown = t := by simp [call, hs, t]
    let j := if t.journal.queue.isEmpty then t.journal else t.journal.work.1
    -- The worker performs the messages first; its turn after that is the last one.
    have performed : ∃ ts, t.run ts = { t with journal := j } := by
      by_cases hms : ms = []
      · exact ⟨[], by simp [run, j, t, hq, hms]⟩
      · have he : t.ended = false := h.ended.trans hs
        have rest := run_rest (s := t) he h.batch hq hms
        exact ⟨_, by simpa [j, t, hq, hms] using rest⟩
    obtain ⟨ts, hts⟩ := performed
    obtain ⟨hempty, hshut⟩ := Journal.drained t.journal
    have last : ({ t with journal := j } : Running).tick =
        { t with
          journal := j.conclude, ended := true, wait := .nothing
          answers := s.answers ++ [.unit] } :=
      tick_of_shutDown (s := { t with journal := j }) (h.ended.trans hs) h.batch hempty hshut
    have shut : s.journal.shutDown = j.conclude := by
      rw [Journal.shutDown, if_neg (by simp [hs])]
    refine ⟨ts ++ [.worker], ?_⟩
    rw [hcall, run_append, hts, shut]
    exact last.trans (by rw [← h.wait])

theorem call_prompt (h : s.IsResting) (c : Call) :
    ∃ ts, (s.call c).run ts =
      { s with
        journal := (s.journal.call c).1
        ended := (s.journal.call c).1.isShutDown
        answers := s.answers ++ [(s.journal.call c).2] } := by
  cases c with
  | log level body =>
    have same := (Journal.HasMessages.log h.messages level body).2
    exact ⟨[], by simp [run, call, answer, Journal.call, same, ← h.ended]⟩
  | flush =>
    obtain ⟨ts, hts⟩ := submit_prompt h (c := .flush) (by simp)
    have same := (Journal.HasMessages.submit h.messages .flush).2
    exact ⟨ts, hts.trans (by simp [Journal.call, Journal.flush, same, ← h.ended, answerFor])⟩
  | setLevel level =>
    exact ⟨[], by simp [run, call, answer, Journal.call, Journal.setLevel, ← h.ended]⟩
  | setFile path =>
    have same := (Journal.HasMessages.setFile h.messages path).2
    cases ho : Outlet.openFile path s.journal.output with
    | error e =>
      refine ⟨[], ?_⟩
      simp only [Journal.call, same, ← h.ended]
      simp [run, call, answer, Journal.setFile, ho]
    | ok opened =>
      obtain ⟨outlet, o⟩ := opened
      have rests : ({ s with journal.output := o } : Running).IsResting :=
        ⟨h.batch, h.ended, h.wait, h.messages⟩
      obtain ⟨ts, hts⟩ := submit_prompt rests (c := .setOutlet outlet) (by simp)
      refine ⟨ts, ?_⟩
      simp only [Journal.call, same, ← h.ended]
      simpa [call, Journal.setFile, ho, answerFor] using hts
  | shutDown =>
    obtain ⟨ts, hts⟩ := shutDown_prompt h
    have shut := (Journal.HasMessages.shutDown h.messages).2
    exact ⟨ts, hts.trans (by simp [Journal.call, shut])⟩

theorem call_messages {j : Journal} (h : j.HasMessages) (c : Call) : (j.call c).1.HasMessages := by
  cases c with
  | log level body => exact (h.log level body).1
  | flush => exact (h.submit .flush).1
  | setLevel level => exact h
  | setFile path => exact (h.setFile path).1
  | shutDown => exact h.shutDown.1

/-- The operations of a journal are one of the ways that calls can go. -/
theorem exists_run_eq_callAll (h : s.IsResting) (cs : List Call) :
    ∃ ts, ({ s with todo := cs } : Running).run ts =
      { s with
        journal := (s.journal.callAll cs).1
        ended := (s.journal.callAll cs).1.isShutDown
        made := s.made ++ cs
        todo := []
        answers := s.answers ++ (s.journal.callAll cs).2 } := by
  induction cs generalizing s with
  | nil => exact ⟨[], by simp [run, Journal.callAll, ← h.ended]⟩
  | cons c cs ih =>
    let t : Running := { s with made := s.made ++ [c], todo := cs }
    have first : ({ s with todo := c :: cs } : Running).step .caller = t.call c := by
      simp [step, advance, h.wait, t]
    have rests : t.IsResting := ⟨h.batch, h.ended, h.wait, h.messages⟩
    obtain ⟨ts, hts⟩ := call_prompt rests c
    have still : IsResting
        { t with
          journal := (s.journal.call c).1
          ended := (s.journal.call c).1.isShutDown
          answers := s.answers ++ [(s.journal.call c).2] } :=
      ⟨h.batch, rfl, h.wait, call_messages h.messages c⟩
    obtain ⟨us, hus⟩ := ih still
    refine ⟨.caller :: (ts ++ us), ?_⟩
    have run_cons : ({ s with todo := c :: cs } : Running).run (.caller :: (ts ++ us)) =
        ((t.call c).run ts).run us := by
      rw [← first, ← run_append]
      rfl
    rw [run_cons, hts]
    simpa [Journal.callAll, t] using hus

end Running

theorem Journal.callAll_delivers (format : Entry → Text) (stamp : Stamp) (files : FileTree)
    (limit : Nat) (cs : List Call) (h : (Direct.start files).PermitsAll (max 1 limit) cs) :
    let done := ((create format stamp files).setLimit limit).callAll cs
    let d := (Direct.start files).run cs
    done.2 = (Direct.start files).replies cs ∧
      ∃ ws missing, Shows format d.files ws done.1.output ∧
        ws.map Written.item ++ missing = (Direct.start files).ledger cs ∧
        missing.length ≤ d.gap := by
  intro done d
  let j := (create format stamp files).setLimit limit
  have rests : (Running.start j []).IsResting := ⟨rfl, rfl, rfl, [], rfl⟩
  obtain ⟨ts, hts⟩ := Running.exists_run_eq_callAll rests cs
  have led : (Running.start j cs).run ts =
      ⟨done.1, none, done.1.isShutDown, .nothing, cs, [], done.2⟩ := hts
  have follows := (Running.start_follows format stamp files limit h).run ts
  rw [led] at follows
  obtain ⟨missing, ⟨ws, shows, owes⟩, few⟩ := follows.written
  obtain ⟨vs, tracks⟩ := follows.tracks
  obtain ⟨ms, pending, waiting, ended, finished, answers⟩ := tracks.idle rfl
  exact ⟨answers, ws, missing, shows, owes, few rfl⟩

end Telemetry.Log
