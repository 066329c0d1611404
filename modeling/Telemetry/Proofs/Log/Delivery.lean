import Telemetry.Proofs.Log.Turns

namespace Telemetry.Log

variable {format : Entry → Text} {files : FileTree} {ws : List Written}

/-- Where a caller stands that was promised some answers. It goes on with at most `gap` messages
waiting, or it waits for a command behind everything else, or it waits for the end. -/
inductive Stands (gap : Nat) (promised : List Reply) (s : Running) : Prop
  | idle (ms : List Entry) (wait : s.wait = .nothing) (pending : s.pending = ms.map .message)
      (few : ms.length ≤ gap) (ended : s.ended = s.journal.isShutDown)
      (finished : s.ended = true → ms = []) (answers : s.answers = promised)
  | submitted (ms : List Entry) (c : Command) (wait : s.wait = .command)
      (pending : s.pending = ms.map .message ++ [c]) (awaited : ∀ e, c ≠ .message e)
      (isOpen : s.journal.isShutDown = false) (ended : s.ended = false)
      (answers : s.answers ++ [Running.answerFor c true] = promised)
  | closing (ms : List Entry) (wait : s.wait = .finish) (pending : s.pending = ms.map .message)
      (closed : s.journal.isShutDown = true) (ended : s.ended = false)
      (answers : s.answers ++ [.unit] = promised)

theorem Stands.congr {gap : Nat} {promised : List Reply} {s t : Running}
    (h : Stands gap promised s) (hp : t.pending = s.pending)
    (hs : t.journal.isShutDown = s.journal.isShutDown) (he : t.ended = s.ended)
    (hw : t.wait = s.wait) (ha : t.answers = s.answers) : Stands gap promised t := by
  cases h with
  | idle ms wait pending few ended finished answers =>
    exact .idle ms (hw.trans wait) (hp.trans pending) few (by rw [he, hs, ended])
      (fun h => finished (he ▸ h)) (ha.trans answers)
  | submitted ms c wait pending awaited isOpen ended answers =>
    exact .submitted ms c (hw.trans wait) (hp.trans pending) awaited (hs.trans isOpen)
      (he.trans ended) (by rw [ha, answers])
  | closing ms wait pending closed ended answers =>
    exact .closing ms (hw.trans wait) (hp.trans pending) (hs.trans closed) (he.trans ended)
      (by rw [ha, answers])

theorem Stands.performed {gap : Nat} {promised : List Reply} {s : Running} {c : Command}
    {rest : List Command} {j : Journal} (h : Stands gap promised s) (he : s.ended = false)
    (hb : s.batch = some (c :: rest)) (hq : j.queue = s.journal.queue)
    (hs : j.isShutDown = s.journal.isShutDown) :
    Stands gap promised ({ s with journal := j, batch := some rest }.release c true) := by
  have hp : s.pending = c :: (rest ++ s.journal.queue) := by simp [Running.pending, hb]
  cases h with
  | idle ms wait pending few ended finished answers =>
    cases ms with
    | nil => simp [hp] at pending
    | cons e ms =>
      simp only [hp, List.map_cons, List.cons.injEq] at pending
      simp only [List.length_cons] at few
      rw [pending.1, Running.release_message]
      exact .idle ms wait (by simpa [Running.pending, hq] using pending.2) (by omega)
        (by simpa [hs] using ended) (by simp [he]) answers
  | submitted ms c' wait pending awaited isOpen ended answers =>
    cases ms with
    | nil =>
      -- no message is left in front, so that this is the command that the caller waits for
      simp only [hp, List.map_nil, List.nil_append, List.cons.injEq] at pending
      rw [pending.1, Running.release_of_awaited _ awaited]
      exact .idle [] rfl (by simpa [Running.pending, hq] using pending.2)
        (by simp) (by simp [ended, hs, isOpen]) (by simp) answers
    | cons e ms =>
      simp only [hp, List.map_cons, List.cons_append, List.cons.injEq] at pending
      rw [pending.1, Running.release_message]
      exact .submitted ms c' wait (by simpa [Running.pending, hq] using pending.2) awaited
        (by simp [hs, isOpen]) ended answers
  | closing ms wait pending closed ended answers =>
    cases ms with
    | nil => simp [hp] at pending
    | cons e ms =>
      simp only [hp, List.map_cons, List.cons.injEq] at pending
      rw [pending.1, Running.release_message]
      exact .closing ms wait (by simpa [Running.pending, hq] using pending.2)
        (by simp [hs, closed]) ended answers

/-- A log in use that has written `ws` and keeps up with a log without a queue, which by now has
come to `items` and has given the answers `promised`. -/
structure Tracks (format : Entry → Text) (limit : Nat) (d : Direct) (items : List Item)
    (promised : List Reply) (ws : List Written) (s : Running) : Prop where
  formatted : s.journal.format = format
  limited : s.journal.limit = limit
  level : s.journal.level = d.level
  closed : s.journal.isShutDown = d.closed
  dropped : s.journal.dropped = 0
  outlet : leaves s.journal.outlet s.pending = d.outlet
  writable : s.journal.outlet.IsWritable d.files
  fits : ∀ c ∈ s.pending, c.Fits d.files d.level
  shows : Shows format d.files ws s.journal.output
  owes : ws.map Written.item ++ s.owed = items
  stands : Stands d.gap promised s

namespace Tracks

variable {limit : Nat} {d : Direct} {items : List Item} {promised : List Reply} {s : Running}
variable {c : Command} {rest : List Command}

theorem performs (h : Tracks format limit d items promised ws s)
    (hb : s.batch = some (c :: rest)) :
    ∃ n cb o vs,
      s.journal.perform c =
        ({ s.journal with
            outlet := c.leaves s.journal.outlet, droppedInAll := n, callback := cb, output := o },
          true) ∧
      Shows format d.files (ws ++ vs) o ∧ vs.map Written.item = c.due s.journal.outlet := by
  have hc : c.Fits d.files s.journal.level :=
    h.level ▸ h.fits c (by simp [Running.pending, hb])
  simpa only [h.formatted] using Journal.perform_shows (h.formatted ▸ h.shows) h.writable hc

theorem tick_of_cons (h : Tracks format limit d items promised ws s) (he : s.ended = false)
    (hb : s.batch = some (c :: rest)) :
    ∃ vs, Tracks format limit d items promised (ws ++ vs) s.tick := by
  have hp : s.pending = c :: (rest ++ s.journal.queue) := by simp [Running.pending, hb]
  obtain ⟨n, cb, o, vs, hperform, shows, hvs⟩ := h.performs hb
  have hout := h.outlet
  have howes := h.owes
  simp only [Running.owed, hp, leaves, due, List.foldl_cons] at hout howes
  refine ⟨vs, ?_⟩
  rw [Running.tick_of_cons he hb, hperform]
  refine
    { formatted := by simp [h.formatted]
      limited := by simp [h.limited]
      level := by simp [h.level]
      closed := by simp [h.closed]
      dropped := by simp [h.dropped]
      outlet := by simp [Running.pending, leaves, hout]
      writable := ?_
      fits := fun c' hc' => h.fits c' ?_
      shows := by simpa using shows
      owes := ?_
      stands := h.stands.performed he hb rfl rfl }
  · cases c with
    | setOutlet new =>
      have hnew := h.fits (.setOutlet new) (by simp [hp])
      simpa [Command.leaves, Command.Fits] using hnew
    | message _ | flush | setCallback _ => simpa [Command.leaves] using h.writable
  · simp [Running.pending] at hc'
    simp [hp, hc']
  · simp [Running.owed, Running.pending, hvs, leaves, ← howes]

theorem of_pending (h : Tracks format limit d items promised ws s) {q : List Command}
    {b : Option (List Command)}
    (hp : { s with journal.queue := q, batch := b }.pending = s.pending) :
    Tracks format limit d items promised ws { s with journal.queue := q, batch := b } := by
  refine
    { h with
      outlet := by simpa only [hp] using h.outlet
      fits := by simpa only [hp] using h.fits
      owes := by simpa only [Running.owed, hp] using h.owes
      stands := h.stands.congr hp rfl rfl rfl rfl }

theorem tick_of_shutDown (h : Tracks format limit d items promised ws s) (he : s.ended = false)
    (hb : s.batch = none) (hq : s.journal.queue = []) (hs : s.journal.isShutDown = true) :
    ∃ vs, Tracks format limit d items promised (ws ++ vs) s.tick := by
  have hp : s.pending = [] := by simp [Running.pending, hb, hq]
  obtain ⟨o, vs, hconclude, shows, hvs⟩ :=
    Journal.conclude_shows (h.formatted ▸ h.shows) h.writable
  have answers : s.answers ++ [.unit] = promised := by
    cases h.stands with
    | idle _ _ _ _ ended => simp [he, hs] at ended
    | submitted _ _ _ _ _ isOpen => simp [hs] at isOpen
    | closing _ _ _ _ _ answers => exact answers
  have howes := h.owes
  simp only [Running.owed, hp, hs, he, due, leaves] at howes
  refine ⟨vs, ?_⟩
  rw [Running.tick_of_shutDown he hb hq hs, hconclude]
  refine
    { h with
      outlet := by simpa [Running.pending] using h.outlet
      fits := by simp [Running.pending, hb, hq]
      shows := by simpa [h.formatted] using shows
      owes := ?_
      stands := .idle [] rfl (by simp [Running.pending, hb, hq]) (by simp)
        (by simp [hs]) (by simp) answers }
  simp [Running.owed, Running.pending, hb, hq, due, hvs, ← howes]

theorem tick (h : Tracks format limit d items promised ws s) :
    ∃ vs, Tracks format limit d items promised (ws ++ vs) s.tick := by
  cases he : s.ended with
  | true =>
    rw [Running.tick_of_ended he]
    exact ⟨[], by simpa using h⟩
  | false =>
    rcases hb : s.batch with _ | _ | ⟨c, rest⟩
    · by_cases hq : s.journal.queue = []
      · cases hs : s.journal.isShutDown with
        | true => exact h.tick_of_shutDown he hb hq hs
        | false =>
          rw [Running.tick_of_idle he hb hq hs]
          exact ⟨[], by simpa using h⟩
      · rw [Running.tick_of_waiting he hb hq]
        exact ⟨[], by simpa using h.of_pending (by simp [Running.pending, hb])⟩
    · rw [Running.tick_of_nil he hb, Journal.tellDropped_of_none h.dropped]
      have kept := h.of_pending (q := s.journal.queue) (b := none) (by simp [Running.pending, hb])
      exact ⟨[], by simpa using kept⟩
    · exact h.tick_of_cons he hb

theorem idle (h : Tracks format limit d items promised ws s) (hw : s.wait = .nothing) :
    ∃ ms : List Entry, s.pending = ms.map .message ∧ ms.length ≤ d.gap ∧ s.ended = d.closed ∧
      (d.closed = true → ms = []) ∧ s.answers = promised := by
  cases h.stands with
  | idle ms wait pending few ended finished answers =>
    have same : s.ended = d.closed := ended.trans h.closed
    exact ⟨ms, pending, few, same, fun hc => finished (same.trans hc), answers⟩
  | submitted ms c wait => simp [hw] at wait
  | closing ms wait => simp [hw] at wait

theorem answer (h : Tracks format limit d items promised ws s) (hw : s.wait = .nothing)
    (r : Reply) : Tracks format limit d items (promised ++ [r]) ws (s.answer r) := by
  obtain ⟨ms, pending, few, ended, finished, answers⟩ := h.idle hw
  exact
    { h with
      stands := .idle ms hw pending few (ended.trans h.closed.symm)
        (fun he => finished (ended ▸ he)) (by simp [Running.answer, answers]) }

theorem push (h : Tracks format limit d items promised ws s) (hc : d.closed = false)
    (hf : c.Fits d.files d.level) {w : Wait} {g : Nat} {rs : List Reply}
    (hs : Stands g rs { s with journal.queue := s.journal.queue ++ [c], wait := w }) :
    Tracks format limit { d with outlet := c.leaves d.outlet, gap := g }
      (items ++ c.due d.outlet) rs ws
      { s with journal.queue := s.journal.queue ++ [c], wait := w } := by
  have hp : { s with journal.queue := s.journal.queue ++ [c], wait := w }.pending =
      s.pending ++ [c] := by
    simp [Running.pending]
  have hopen : s.journal.isShutDown = false := h.closed.trans hc
  have howes := h.owes
  simp only [Running.owed, hopen, Bool.false_eq_true, false_and, if_false, List.append_nil]
    at howes
  refine
    { h with
      outlet := by rw [hp, leaves_append_one, h.outlet]
      fits := ?_
      owes := ?_
      stands := hs }
  · intro c' hc'
    rw [hp] at hc'
    rcases List.mem_append.1 hc' with old | new
    · exact h.fits c' old
    · simpa [List.mem_singleton.1 new] using hf
  · rw [Running.owed, hp, due_append_one, h.outlet]
    simp [hopen, ← howes]

theorem log_of_low (h : Tracks format limit d items promised ws s) {level : Int}
    (low : level < d.level) (body : Text) :
    Tracks format limit (d.heard level) (items ++ d.said level body) promised ws
      { s with journal := s.journal.log level body } := by
  have same : s.journal.log level body = s.journal := by
    simp [Journal.log, h.level, low]
  simpa [same, Direct.heard, Direct.said, low] using h

theorem log_of_closed (h : Tracks format limit d items promised ws s) (hw : s.wait = .nothing)
    (hc : d.closed = true) {level : Int} (high : ¬ level < d.level) (body : Text) :
    Tracks format limit (d.heard level) (items ++ d.said level body) promised
      (ws ++ [⟨.console, s.journal.entry level body⟩])
      { s with journal := s.journal.log level body } := by
  obtain ⟨ms, pending, few, ended, finished, answers⟩ := h.idle hw
  obtain rfl := finished hc
  let line := s.journal.format (s.journal.entry level body)
  have printed : s.journal.log level body = s.journal.print line := by
    simp [Journal.log, h.level, high, h.closed, hc, line]
  have heard : d.heard level = d := by simp [Direct.heard, hc]
  have done : s.ended = true := ended.trans hc
  have howes := h.owes
  rw [Running.owed_of_ended pending done, List.append_nil] at howes
  rw [printed, heard]
  refine
    { h with
      shows := by
        simpa [line, h.formatted, Journal.print] using h.shows.print (s.journal.entry level body)
      owes := ?_
      stands := .idle [] hw pending few (ended.trans h.closed.symm) (by simp) answers }
  have left : ({ s with journal := s.journal.print line } : Running).owed = [] :=
    Running.owed_of_ended pending done
  rw [left]
  simp [howes, Direct.said, high, hc, Written.item, Journal.entry]

theorem log_of_room (h : Tracks format limit d items promised ws s) (hw : s.wait = .nothing)
    (hc : d.closed = false) (room : d.gap < limit) {level : Int} (high : ¬ level < d.level)
    (body : Text) :
    Tracks format limit (d.heard level) (items ++ d.said level body) promised ws
      { s with journal := s.journal.log level body } := by
  obtain ⟨ms, pending, few, ended, finished, answers⟩ := h.idle hw
  -- what waits are messages of the gap at most, even if the worker has taken none of them
  have short : ¬ s.journal.limit ≤ s.journal.queue.length := by
    have hlen := congrArg List.length pending
    simp only [Running.pending, List.length_append, List.length_map] at hlen
    have := h.limited
    omega
  have queued : s.journal.log level body =
      { s.journal with queue := s.journal.queue ++ [.message (s.journal.entry level body)] } := by
    simp [Journal.log, h.level, high, h.closed, hc, short]
  have heard : d.heard level = { d with gap := d.gap + 1 } := by
    simp [Direct.heard, hc, high]
  have said : d.said level body = Command.due d.outlet (.message (s.journal.entry level body)) := by
    simp [Direct.said, hc, high, Command.due, Journal.entry]
  rw [queued, heard, said]
  have severe : Command.Fits d.files d.level (.message (s.journal.entry level body)) := by
    simpa [Command.Fits, Journal.entry] using high
  refine h.push hc severe (.idle (ms ++ [s.journal.entry level body]) hw ?_ (by simpa)
    (ended.trans h.closed.symm) (by simp [ended, hc]) answers)
  rw [List.map_append, ← pending]
  simp [Running.pending]

theorem log (h : Tracks format limit d items promised ws s) (hw : s.wait = .nothing)
    (room : d.closed = true ∨ d.gap < limit) (level : Int) (body : Text) :
    ∃ vs, Tracks format limit (d.heard level) (items ++ d.said level body) promised (ws ++ vs)
      { s with journal := s.journal.log level body } := by
  by_cases low : level < d.level
  · exact ⟨[], by simpa using h.log_of_low low body⟩
  · cases hc : d.closed with
    | true => exact ⟨_, h.log_of_closed hw hc low body⟩
    | false =>
      simp only [hc, Bool.false_eq_true, false_or] at room
      exact ⟨[], by simpa using h.log_of_room hw hc room low body⟩

theorem submit_of_open (h : Tracks format limit d items promised ws s) (hw : s.wait = .nothing)
    (hc : d.closed = false) (hf : c.Fits d.files d.level) (ha : ∀ e, c ≠ .message e) :
    Tracks format limit { d with outlet := c.leaves d.outlet, gap := 0 } (items ++ c.due d.outlet)
      (promised ++ [Running.answerFor c true]) ws (s.submit c) := by
  obtain ⟨ms, pending, few, ended, finished, answers⟩ := h.idle hw
  have hopen : s.journal.isShutDown = false := h.closed.trans hc
  rw [Running.submit, if_neg (by simp [hopen])]
  refine h.push hc hf (.submitted ms c rfl ?_ ha hopen (ended.trans hc) (by rw [answers]))
  rw [← pending]
  simp [Running.pending]

theorem answer_of_closed (h : Tracks format limit d items promised ws s) (hw : s.wait = .nothing)
    (hc : d.closed = true) (r : Reply) :
    Tracks format limit { d with gap := 0 } items (promised ++ [r]) ws (s.answer r) := by
  have answered := h.answer hw r
  obtain ⟨ms, pending, few, ended, finished, answers⟩ := answered.idle hw
  exact
    { answered with
      stands := .idle ms hw pending (by simp [finished hc]) (ended.trans h.closed.symm)
        (fun _ => finished hc) answers }

theorem submit_of_closed (h : Tracks format limit d items promised ws s) (hw : s.wait = .nothing)
    (hc : d.closed = true) (c : Command) :
    Tracks format limit { d with gap := 0 } items (promised ++ [Running.answerFor c false]) ws
      (s.submit c) := by
  rw [Running.submit, if_pos (h.closed.trans hc)]
  exact h.answer_of_closed hw hc _

theorem opened (h : Tracks format limit d items promised ws s) {l : Location} (hl : l ≠ []) :
    Tracks format limit { d with files := d.files.opened l } items promised ws
      { s with journal.output.files := s.journal.output.files.opened l } := by
  refine
    { h with
      writable := h.writable.opened hl
      fits := fun c hc => (h.fits c hc).opened hl
      shows := h.shows.opened hl
      stands := h.stands.congr rfl rfl rfl rfl rfl }

theorem setLevel (h : Tracks format limit d items promised ws s) (hw : s.wait = .nothing)
    (quiet : d.closed = true ∨ d.gap = 0) (level : Int) :
    Tracks format limit { d with level } items promised ws
      { s with journal := s.journal.setLevel level } := by
  obtain ⟨ms, pending, few, ended, finished, answers⟩ := h.idle hw
  -- a message that still waits would be judged by the new level
  have none_waits : ms = [] := by
    rcases quiet with hc | hg
    · exact finished hc
    · exact List.length_eq_zero_iff.1 (by omega)
  subst none_waits
  exact
    { h with
      level := by simp [Journal.setLevel]
      fits := fun c hc => by
        have : c ∈ s.pending := hc
        simp [pending] at this
      stands := .idle [] hw pending few (ended.trans h.closed.symm) (by simp) answers }

theorem shutDown_of_open (h : Tracks format limit d items promised ws s)
    (hw : s.wait = .nothing) (hc : d.closed = false) :
    Tracks format limit { d with closed := true, gap := 0 }
      (items ++ [Direct.farewell d.outlet]) (promised ++ [.unit]) ws
      { s with journal.isShutDown := true, wait := .finish } := by
  obtain ⟨ms, pending, few, ended, finished, answers⟩ := h.idle hw
  have still : s.ended = false := ended.trans hc
  have hp : { s with journal.isShutDown := true, wait := .finish }.pending = s.pending := rfl
  have hopen : s.journal.isShutDown = false := h.closed.trans hc
  have howes := h.owes
  simp only [Running.owed, hopen, Bool.false_eq_true, false_and, if_false, List.append_nil]
    at howes
  refine
    { h with
      closed := rfl
      owes := ?_
      stands := .closing ms rfl pending rfl still (by rw [answers]) }
  rw [Running.owed, hp, h.outlet]
  simp [still, ← howes]

theorem setFile (h : Tracks format limit d items promised ws s) (hw : s.wait = .nothing)
    {path : Text} (hp : d.Permits limit (.setFile path)) :
    ∃ vs, Tracks format limit (d.next (.setFile path)) (items ++ d.items (.setFile path))
      (promised ++ [d.reply (.setFile path)]) (ws ++ vs) (s.call (.setFile path)) := by
  unfold Running.call Direct.next Direct.items Direct.reply
  unfold Direct.Permits at hp
  simp only [h.shows.openFile_eq]
  rcases ho : d.files.openToAppend path with e | ⟨l, opened⟩
  · simp only [ho] at hp ⊢
    obtain ⟨vs, told⟩ := h.log hw hp Level.error.number (Direct.complaint path e)
    exact ⟨vs, told.answer hw (.flag false)⟩
  · obtain ⟨target, rfl⟩ := FileTree.of_openToAppend ho
    simp only [ho] at hp ⊢
    have now := h.opened (FileTree.ne_nil_of_target target)
    cases hc : d.closed with
    | true =>
      have refused := now.submit_of_closed hw hc (.setOutlet (.file path l))
      simp only [hc] at refused
      exact ⟨[], by simpa [Running.answerFor] using refused⟩
    | false =>
      have fits : Command.Fits (d.files.opened l) d.level (.setOutlet (.file path l)) :=
        FileTree.isWritable_of_target target hp
      have accepted := now.submit_of_open hw hc fits (by simp)
      simp only [hc] at accepted
      exact ⟨[], by simpa [Running.answerFor, Command.leaves, Command.due] using accepted⟩

theorem call (h : Tracks format limit d items promised ws s) (hw : s.wait = .nothing) {c : Call}
    (hp : d.Permits limit c) :
    ∃ vs, Tracks format limit (d.next c) (items ++ d.items c) (promised ++ [d.reply c]) (ws ++ vs)
      (s.call c) := by
  cases c with
  | log level body =>
    obtain ⟨vs, told⟩ := h.log hw hp level body
    exact ⟨vs, told.answer hw .unit⟩
  | flush =>
    refine ⟨[], ?_⟩
    simp only [Running.call, Direct.next, Direct.items, Direct.reply, List.append_nil]
    cases hc : d.closed with
    | true =>
      have refused := h.submit_of_closed hw hc .flush
      simpa only [hc, Running.answerFor] using refused
    | false =>
      have accepted := h.submit_of_open (c := .flush) hw hc trivial (by simp)
      simpa only [hc, Running.answerFor, Command.leaves, Command.due, List.append_nil]
        using accepted
  | setLevel level =>
    refine ⟨[], ?_⟩
    simp only [Running.call, Direct.next, Direct.items, Direct.reply, List.append_nil]
    exact (h.setLevel hw hp level).answer hw .unit
  | setFile path => exact h.setFile hw hp
  | shutDown =>
    refine ⟨[], ?_⟩
    simp only [Running.call, Direct.next, Direct.items, Direct.reply, List.append_nil, h.closed]
    cases hc : d.closed with
    | true => simpa [hc] using h.answer_of_closed hw hc .unit
    | false => simpa [hc] using h.shutDown_of_open hw hc

theorem clock (h : Tracks format limit d items promised ws s) (stamp : Stamp) :
    Tracks format limit d items promised ws { s with journal.stamp := stamp } :=
  { h with stands := h.stands.congr rfl rfl rfl rfl rfl }

theorem noted (h : Tracks format limit d items promised ws s) (made todo : List Call) :
    Tracks format limit d items promised ws { s with made, todo } :=
  { h with stands := h.stands.congr rfl rfl rfl rfl rfl }

/-- When nothing is left for the worker to do, everything was written and the caller need not
wait. -/
theorem of_rounds_eq_zero (h : Tracks format limit d items promised ws s) (hr : s.rounds = 0) :
    s.wait = .nothing ∧ ws.map Written.item = items := by
  have howes := h.owes
  cases he : s.ended with
  | true =>
    cases h.stands with
    | idle ms wait pending few ended finished =>
      rw [finished he] at pending
      rw [Running.owed_of_ended pending he, List.append_nil] at howes
      exact ⟨wait, howes⟩
    | submitted ms c wait pending awaited isOpen ended => simp [he] at ended
    | closing ms wait pending closed ended => simp [he] at ended
  | false =>
    have hb : s.batch = none := by
      rcases hb : s.batch with _ | b
      · rfl
      · simp [Running.rounds, he, hb] at hr
    have hq : s.journal.queue = [] := by
      rcases hq : s.journal.queue with _ | ⟨c, rest⟩
      · rfl
      · simp [Running.rounds, he, hb, hq] at hr
    have hs : s.journal.isShutDown = false := by
      simpa [Running.rounds, he, hb, hq] using hr
    have hp : s.pending = [] := by simp [Running.pending, hb, hq]
    have none_owed : s.owed = [] := by simp [Running.owed, hp, hs, due]
    rw [none_owed, List.append_nil] at howes
    refine ⟨?_, howes⟩
    cases h.stands with
    | idle ms wait => exact wait
    | submitted ms c wait pending => simp [hp] at pending
    | closing ms wait pending closed => simp [hs] at closed

theorem rounds_tick (h : Tracks format limit d items promised ws s) :
    s.tick.rounds = s.rounds - 1 := by
  cases he : s.ended with
  | true => simp [Running.tick_of_ended he, Running.rounds, he]
  | false =>
    rcases hb : s.batch with _ | _ | ⟨c, rest⟩
    · by_cases hq : s.journal.queue = []
      · cases hs : s.journal.isShutDown with
        | true => simp [Running.tick_of_shutDown he hb hq hs, Running.rounds, he, hb, hq, hs]
        | false => simp [Running.tick_of_idle he hb hq hs, Running.rounds, he, hb, hq, hs]
      -- `n` commands are taken in one turn, performed in `n` and come to their end in one more
      · simp [Running.tick_of_waiting he hb hq, Running.rounds, he, hb, hq]
    · have told := Journal.tellDropped_of_none h.dropped
      simp [Running.tick_of_nil he hb, told, Running.rounds, he, hb]
      omega
    · obtain ⟨n, cb, o, vs, hperform, -⟩ := h.performs hb
      simp [Running.tick_of_cons he hb, hperform, Running.rounds, he, hb]
      omega

theorem work (h : Tracks format limit d items promised ws s) (n : Nat) :
    ∃ vs, Tracks format limit d items promised (ws ++ vs) (s.run (List.replicate n .worker)) ∧
      (s.run (List.replicate n .worker)).rounds = s.rounds - n ∧
      (s.run (List.replicate n .worker)).made = s.made := by
  induction n generalizing s ws with
  | zero => exact ⟨[], by simpa [Running.run] using h, rfl, rfl⟩
  | succ n ih =>
    obtain ⟨vs, ticked⟩ := h.tick
    obtain ⟨us, worked, hr, hm⟩ := ih ticked
    rw [Running.run_worker_succ]
    refine ⟨vs ++ us, by simpa using worked, ?_, by simpa using hm⟩
    rw [hr, h.rounds_tick]
    omega

end Tracks

namespace Running

variable {s : Running} {limit : Nat} {cs : List Call}

/-- What came out of a log in use is what its calls come to, less the lines `missing` at the end. -/
def Lacks (format : Entry → Text) (files : FileTree) (s : Running) (missing : List Item) : Prop :=
  ∃ ws, Shows format ((Direct.start files).run s.made).files ws s.journal.output ∧
    ws.map Written.item ++ missing = (Direct.start files).ledger s.made

/-- A log in use after some turns, its calls `cs` made or still to be made. -/
structure Delivers (format : Entry → Text) (files : FileTree) (cs : List Call) (s : Running) :
    Prop where
  /-- The calls are made in order. -/
  calls : s.made ++ s.todo = cs
  /-- What came out is a beginning of what the calls come to. A caller that need not wait can lack
  only messages since it last waited. -/
  written : ∃ missing, s.Lacks format files missing ∧
    (s.wait = .nothing → missing.length ≤ ((Direct.start files).run s.made).gap)
  /-- When a flush or the end has come back, nothing is missing. -/
  returned : s.wait = .nothing →
    s.made.getLast? = some .flush ∨ s.made.getLast? = some .shutDown → s.Lacks format files []
  answers : s.wait = .nothing → s.answers = (Direct.start files).replies s.made
  /-- A worker that is left to work writes everything and lets the caller go on. -/
  progress : ∀ n, s.rounds ≤ n →
    let t := s.run (List.replicate n .worker)
    t.made = s.made ∧ t.wait = .nothing ∧ t.Lacks format files []

/-- A log in use that keeps up with what its calls come to. -/
structure Follows (format : Entry → Text) (limit : Nat) (files : FileTree) (cs : List Call)
    (s : Running) : Prop where
  calls : s.made ++ s.todo = cs
  permits : ((Direct.start files).run s.made).PermitsAll limit s.todo
  tracks : ∃ ws, Tracks format limit ((Direct.start files).run s.made)
    ((Direct.start files).ledger s.made) ((Direct.start files).replies s.made) ws s

theorem start_follows (format : Entry → Text) (stamp : Stamp) (files : FileTree) (limit : Nat)
    (h : (Direct.start files).PermitsAll (max 1 limit) cs) :
    Follows format (max 1 limit) files cs
      (start ((Journal.create format stamp files).setLimit limit) cs) := by
  refine ⟨rfl, h, [], ?_⟩
  exact
    { formatted := rfl
      limited := rfl
      level := rfl
      closed := rfl
      dropped := rfl
      outlet := rfl
      writable := trivial
      fits := by simp [pending, start, Journal.create, Journal.setLimit]
      shows := shows_create format files
      owes := rfl
      stands := .idle [] rfl rfl (by simp) rfl (by simp) rfl }

theorem Follows.advance (h : Follows format limit files cs s) :
    Follows format limit files cs s.advance := by
  obtain ⟨calls, permits, ws, tracks⟩ := h
  unfold Running.advance
  split
  · rename_i c rest hw ht
    rw [ht] at calls permits
    obtain ⟨vs, called⟩ := (tracks.noted (s.made ++ [c]) rest).call hw permits.1
    refine ⟨by simpa using calls, ?_, ws ++ vs, ?_⟩
    · simpa [Direct.run_append_one] using permits.2
    · simpa [Direct.run_append_one, Direct.ledger_append_one, Direct.replies_append_one]
        using called
  · exact ⟨calls, permits, ws, tracks⟩

theorem Follows.step (h : Follows format limit files cs s) (t : Turn) :
    Follows format limit files cs (s.step t) := by
  cases t with
  | caller => exact h.advance
  | worker =>
    obtain ⟨calls, permits, ws, tracks⟩ := h
    obtain ⟨vs, ticked⟩ := tracks.tick
    exact ⟨by simpa [Running.step] using calls, by simpa [Running.step] using permits, ws ++ vs,
      by simpa [Running.step] using ticked⟩
  | clock stamp =>
    obtain ⟨calls, permits, ws, tracks⟩ := h
    exact ⟨calls, permits, ws, tracks.clock stamp⟩

theorem Follows.run (h : Follows format limit files cs s) (ts : List Turn) :
    Follows format limit files cs (s.run ts) := by
  induction ts generalizing s with
  | nil => exact h
  | cons t ts ih => exact ih (h.step t)

theorem Follows.written (h : Follows format limit files cs s) :
    ∃ missing, s.Lacks format files missing ∧
      (s.wait = .nothing → missing.length ≤ ((Direct.start files).run s.made).gap) := by
  obtain ⟨ws, tracks⟩ := h.tracks
  refine ⟨s.owed, ⟨ws, tracks.shows, tracks.owes⟩, fun hw => ?_⟩
  obtain ⟨ms, pending, few, ended, -⟩ := tracks.idle hw
  have no_end : ¬ (s.journal.isShutDown = true ∧ ¬ s.ended = true) := by
    simp [tracks.closed, ended]
  rw [Running.owed, pending, if_neg no_end, List.append_nil, length_due_message]
  exact few

theorem Follows.progress (h : Follows format limit files cs s) {n : Nat} (hn : s.rounds ≤ n) :
    (s.run (List.replicate n .worker)).made = s.made ∧
      (s.run (List.replicate n .worker)).wait = .nothing ∧
      (s.run (List.replicate n .worker)).Lacks format files [] := by
  obtain ⟨ws, tracks⟩ := h.tracks
  obtain ⟨vs, worked, hr, hm⟩ := tracks.work n
  obtain ⟨wait, all⟩ := worked.of_rounds_eq_zero (by omega)
  refine ⟨hm, wait, ws ++ vs, ?_, ?_⟩
  · simpa [hm] using worked.shows
  · simpa [hm] using all

theorem Follows.returned (h : Follows format limit files cs s) (hw : s.wait = .nothing)
    (hlast : s.made.getLast? = some .flush ∨ s.made.getLast? = some .shutDown) :
    s.Lacks format files [] := by
  have no_gap : ((Direct.start files).run s.made).gap = 0 := by
    rcases hlast with hlast | hlast <;>
      (obtain ⟨before, hm⟩ := List.getLast?_eq_some_iff.1 hlast
       simp [hm, Direct.run_append_one, Direct.next])
  obtain ⟨missing, lacks, few⟩ := h.written
  have none_missing : missing = [] := List.length_eq_zero_iff.1 (by have := few hw; omega)
  exact none_missing ▸ lacks

/-- A log in use delivers what its calls come to, whoever comes next at every turn. -/
theorem run_delivers (format : Entry → Text) (stamp : Stamp) (files : FileTree) (limit : Nat)
    (cs : List Call) (ts : List Turn) (h : (Direct.start files).PermitsAll (max 1 limit) cs) :
    Delivers format files cs
      ((start ((Journal.create format stamp files).setLimit limit) cs).run ts) := by
  have follows := (start_follows format stamp files limit h).run ts
  obtain ⟨ws, tracks⟩ := follows.tracks
  exact
    { calls := follows.calls
      written := follows.written
      returned := follows.returned
      answers := fun hw => (tracks.idle hw).choose_spec.2.2.2.2
      progress := fun n hn => follows.progress hn }

/-- A queue of two, a file that can be opened and one that cannot, a new level, and a message after
the end. The caller overtakes the worker more than once. -/
theorem run_delivers_two :
    let files : FileTree := ⟨[], []⟩
    let cs : List Call :=
      [.log 2 (ascii "a"), .log 3 (ascii "b"), .setFile (ascii "/x"), .log 4 (ascii "c"),
        .setFile (ascii "/y/z"), .flush, .setLevel 4, .log 3 (ascii "d"), .shutDown,
        .log 4 (ascii "e")]
    let ts : List Turn :=
      [.caller, .worker, .caller, .worker, .caller] ++ List.replicate 4 .worker ++
        [.caller, .caller, .clock ⟨1, 1, 1⟩, .caller] ++ List.replicate 6 .worker ++
        [.caller, .caller, .caller, .worker, .worker, .caller]
    let s := (start ((Journal.create Entry.body ⟨0, 1, 1⟩ files).setLimit 2) cs).run ts
    (Direct.start files).PermitsAll (max 1 2) cs ∧ Delivers Entry.body files cs s ∧
      s.made = cs ∧ s.wait = .nothing ∧
      s.journal.output.console = ascii "abSwitching log sink to: File: /xe" ∧
      s.journal.output.files.node? [ascii "x"] =
        some (.file (ascii "Log sink switched from: Consolec" ++
          Direct.complaint (ascii "/y/z") .noEntry ++ ascii "Logger is shutting down.")) := by
  intro files cs ts s
  have permitted : (Direct.start files).PermitsAll (max 1 2) cs := by decide +kernel
  exact ⟨permitted, run_delivers Entry.body ⟨0, 1, 1⟩ files 2 cs ts permitted, by decide +kernel,
    by decide +kernel, by decide +kernel, by decide +kernel⟩

end Running

end Telemetry.Log
