import Telemetry.Guard

namespace Telemetry.Guards

/-- A guard that will run an action unless something is done to it. -/
def isArmed (a : Nat) (x : Option Guard) : Bool := x = some ⟨a, true, false⟩

/-- A guard that is still active although its action was begun for its end. -/
def isLingering (a : Nat) (x : Option Guard) : Bool := x = some ⟨a, true, true⟩

def isActiveFor (a : Nat) (x : Option Guard) : Bool := x.any fun g => g.active ∧ g.action = a

def armed (s : Guards) (a : Nat) : Nat := s.guards.countP (isArmed a)

def active (s : Guards) (a : Nat) : Nat := s.guards.countP (isActiveFor a)

def ran (s : Guards) (a : Nat) : Nat := s.runs.count a

def begun (s : Guards) (a : Nat) : Nat := if a < s.actions then 1 else 0

def begins (a : Nat) (s : Guards) : Command → Bool
  | .create => a = s.actions
  | _ => false

/-- Whether a command invokes an active guard of an action or brings one to its end. -/
def ends (a : Nat) (s : Guards) : Command → Bool
  | .invoke g => isActiveFor a (s.get? g)
  | .finish g => isArmed a (s.get? g)
  | _ => false

/-- Whether a command dismisses an active guard of an action that has not come to its end. -/
def dismisses (a : Nat) (s : Guards) : Command → Bool
  | .dismiss g => isArmed a (s.get? g)
  | _ => false

/-- Whether a command comes back to a guard whose action was begun for its end, and which gives the
action away once more because it is active still. -/
def relapses (a : Nat) (s : Guards) : Command → Bool
  | .move g | .invoke g => isLingering a (s.get? g)
  | _ => false

def Command.subject? : Command → Option Nat
  | .move g | .dismiss g | .invoke g | .isActive g | .finish g | .leave g => some g
  | .create => none

section Step

variable {s : Guards} {a g : Nat} {x : Option Guard}

theorem countP_alter {p : Option Guard → Bool} (hp : p none = false)
    (become : Guard → Option Guard) :
    (s.alter g become).guards.countP p + (p (s.get? g)).toNat =
      s.guards.countP p + (p ((s.get? g).bind become)).toNat := by
  by_cases hg : g < s.guards.length
  · have hget : s.get? g = s.guards[g] := by simp [get?, hg]
    have hpos : p s.guards[g] = true → 0 < s.guards.countP p := fun h =>
      List.countP_pos_iff.mpr ⟨_, List.getElem_mem hg, h⟩
    rw [alter, List.countP_set hg, hget]
    cases hold : p s.guards[g] with
    | false => cases p (s.guards[g].bind become) <;> simp
    | true =>
      have := hpos hold
      cases p (s.guards[g].bind become) <;> simp <;> omega
  · have hget : s.get? g = none := by simp [get?, hg]
    simp [alter, hget, hp, List.set_eq_of_length_le (Nat.le_of_not_lt hg)]

theorem countP_concat (p : Option Guard → Bool) (xs : List (Option Guard)) :
    (xs ++ [x]).countP p = xs.countP p + (p x).toNat := by
  rw [List.countP_append, List.countP_singleton]
  cases p x <;> rfl

theorem isActiveFor_toNat :
    (isActiveFor a x).toNat = (isArmed a x).toNat + (isLingering a x).toNat := by
  rcases x with - | ⟨b, active, ending⟩
  · rfl
  · cases active <;> cases ending <;> by_cases h : b = a <;>
      simp [isActiveFor, isArmed, isLingering, h]

theorem isArmed_dismissed : isArmed a (x.bind fun g => some g.dismiss) = false := by
  cases x <;> simp [isArmed, Guard.dismiss]

theorem isActiveFor_dismissed : isActiveFor a (x.bind fun g => some g.dismiss) = false := by
  cases x <;> simp [isActiveFor, Guard.dismiss]

theorem countP_dismissed {p : Option Guard → Bool} (hp : p none = false)
    (hdismissed : ∀ x : Option Guard, p (x.bind fun g => some g.dismiss) = false) (s : Guards)
    (g : Nat) : (s.alter g fun x => some x.dismiss).guards.countP p + (p (s.get? g)).toNat =
      s.guards.countP p := by
  rw [countP_alter hp, hdismissed]
  rfl

theorem isArmed_handedOn : isArmed a (x.map Guard.handedOn) = isActiveFor a x := by
  rcases x with - | ⟨b, active, ending⟩
  · rfl
  · cases active <;> simp [isArmed, isActiveFor, Guard.handedOn]

theorem isActiveFor_handedOn : isActiveFor a (x.map Guard.handedOn) = isActiveFor a x := by
  cases x <;> rfl

theorem isArmed_finish : isArmed a (x.bind Guard.finish) = false := by
  rcases x with - | ⟨b, active, ending⟩
  · rfl
  · cases active <;> cases ending <;> simp [isArmed, Guard.finish]

theorem isActiveFor_finish : isActiveFor a (x.bind Guard.finish) = isActiveFor a x := by
  rcases x with - | ⟨b, active, ending⟩
  · rfl
  · cases active <;> cases ending <;> simp [isActiveFor, Guard.finish]

theorem isArmed_leave : isArmed a (x.bind Guard.leave) = isArmed a x := by
  rcases x with - | ⟨b, active, ending⟩
  · rfl
  · cases ending <;> simp [isArmed, Guard.leave]

theorem isActiveFor_leave_le : (isActiveFor a (x.bind Guard.leave)).toNat ≤
    (isActiveFor a x).toNat := by
  rcases x with - | ⟨b, active, ending⟩
  · exact Nat.le_refl _
  · cases ending <;> simp [isActiveFor, Guard.leave]

theorem count_due : (x.elim [] Guard.due).count a = (isActiveFor a x).toNat := by
  rcases x with - | ⟨b, active, ending⟩
  · rfl
  · cases active <;> by_cases h : b = a <;> simp [Guard.due, isActiveFor, h]

theorem count_dueAtEnd : (x.elim [] Guard.dueAtEnd).count a = (isArmed a x).toNat := by
  rcases x with - | ⟨b, active, ending⟩
  · rfl
  · cases active <;> cases ending <;> by_cases h : b = a <;>
      simp [Guard.dueAtEnd, Guard.due, isArmed, h]

theorem begun_step (s : Guards) (c : Command) (a : Nat) :
    (s.step c).1.begun a = s.begun a + (begins a s c).toNat := by
  cases c with
  | create =>
    show (if a < s.actions + 1 then 1 else 0) = _
    unfold begun begins
    obtain h | h | h := Nat.lt_trichotomy a s.actions
    · simp [h, Nat.lt_succ_of_lt h, Nat.ne_of_lt h]
    · simp [h]
    · simp [Nat.not_lt_of_gt h, Nat.ne_of_gt h, Nat.not_lt.mpr h]
  | _ => rfl

theorem ran_step (s : Guards) (c : Command) (a : Nat) :
    (s.step c).1.ran a = s.ran a + (ends a s c).toNat := by
  cases c with
  | invoke g => exact List.count_append.trans (congrArg _ count_due)
  | finish g => exact List.count_append.trans (congrArg _ count_dueAtEnd)
  | _ => rfl

theorem armed_step (s : Guards) (c : Command) (a : Nat) :
    (s.step c).1.armed a + (ends a s c).toNat + (dismisses a s c).toNat =
      s.armed a + (begins a s c).toNat + (relapses a s c).toNat := by
  have hdismissed := countP_dismissed (p := isArmed a) rfl (fun _ => isArmed_dismissed) s
  cases c with
  | create =>
    show List.countP (isArmed a) (s.guards ++ [some ⟨s.actions, true, false⟩]) + 0 + 0 = _
    rw [countP_concat]
    by_cases h : s.actions = a
    · simp [begins, relapses, armed, isArmed, h]
    · simp [begins, relapses, armed, isArmed, h, Ne.symm h]
  | move g =>
    have hset := hdismissed g
    have hboth := isActiveFor_toNat (a := a) (x := s.get? g)
    show List.countP (isArmed a) ((s.alter g _).guards ++ [(s.get? g).map Guard.handedOn]) + 0 + 0
      = s.guards.countP (isArmed a) + 0 + (isLingering a (s.get? g)).toNat
    rw [countP_concat, isArmed_handedOn]
    omega
  | dismiss g => exact hdismissed g
  | invoke g =>
    have hset := hdismissed g
    have hboth := isActiveFor_toNat (a := a) (x := s.get? g)
    show (s.alter g _).guards.countP (isArmed a) + (isActiveFor a (s.get? g)).toNat + 0
      = s.guards.countP (isArmed a) + 0 + (isLingering a (s.get? g)).toNat
    omega
  | finish g =>
    have hset := countP_alter (s := s) (g := g) (p := isArmed a) rfl Guard.finish
    rw [isArmed_finish] at hset
    exact hset
  | leave g =>
    have hset := countP_alter (s := s) (g := g) (p := isArmed a) rfl Guard.leave
    rw [isArmed_leave] at hset
    exact Nat.add_right_cancel hset
  | isActive g => rfl

theorem active_step_le (s : Guards) (c : Command) (a : Nat) :
    (s.step c).1.active a ≤ s.active a + (begins a s c).toNat := by
  have hdismissed := countP_dismissed (p := isActiveFor a) rfl (fun _ => isActiveFor_dismissed) s
  cases c with
  | create =>
    show List.countP (isActiveFor a) (s.guards ++ [some ⟨s.actions, true, false⟩]) ≤ _
    rw [countP_concat]
    by_cases h : s.actions = a
    · simp [begins, active, isActiveFor, h]
    · simp [begins, active, isActiveFor, h, Ne.symm h]
  | move g =>
    have hset := hdismissed g
    show List.countP (isActiveFor a) ((s.alter g _).guards ++ [(s.get? g).map Guard.handedOn])
      ≤ s.guards.countP (isActiveFor a) + 0
    rw [countP_concat, isActiveFor_handedOn]
    omega
  | dismiss g => exact Nat.le.intro (hdismissed g)
  | invoke g => exact Nat.le.intro (hdismissed g)
  | finish g =>
    have hset := countP_alter (s := s) (g := g) (p := isActiveFor a) rfl Guard.finish
    rw [isActiveFor_finish] at hset
    exact Nat.le_of_eq (Nat.add_right_cancel hset)
  | leave g =>
    have hset := countP_alter (s := s) (g := g) (p := isActiveFor a) rfl Guard.leave
    have hle := isActiveFor_leave_le (a := a) (x := s.get? g)
    show (s.alter g Guard.leave).guards.countP (isActiveFor a) ≤ s.guards.countP (isActiveFor a)
    omega
  | isActive g => exact Nat.le_refl _

end Step

/-- At how many commands of a sequence something happens. -/
def tally (happens : Guards → Command → Bool) (s : Guards) : List Command → Nat
  | [] => 0
  | c :: cs => (happens s c).toNat + tally happens (s.step c).1 cs

theorem runAll_cons (s : Guards) (c : Command) (cs : List Command) :
    s.runAll (c :: cs) = (s.step c).1.runAll cs := rfl

theorem runAll_append (s : Guards) (cs ds : List Command) :
    s.runAll (cs ++ ds) = (s.runAll cs).runAll ds := List.foldl_append

theorem count_runAll (count : Guards → Nat) (happens : Guards → Command → Bool)
    (hstep : ∀ s c, count (s.step c).1 = count s + (happens s c).toNat) (s : Guards)
    (cs : List Command) : count (s.runAll cs) = count s + tally happens s cs := by
  induction cs generalizing s with
  | nil => rfl
  | cons c cs ih => rw [runAll_cons, ih, hstep, tally, Nat.add_assoc]

theorem begun_runAll (s : Guards) (cs : List Command) (a : Nat) :
    (s.runAll cs).begun a = s.begun a + tally (begins a) s cs :=
  count_runAll (begun · a) (begins a) (fun s c => begun_step s c a) s cs

theorem ran_runAll (s : Guards) (cs : List Command) (a : Nat) :
    (s.runAll cs).ran a = s.ran a + tally (ends a) s cs :=
  count_runAll (ran · a) (ends a) (fun s c => ran_step s c a) s cs

theorem armed_runAll (s : Guards) (cs : List Command) (a : Nat) :
    (s.runAll cs).armed a + tally (ends a) s cs + tally (dismisses a) s cs =
      s.armed a + tally (begins a) s cs + tally (relapses a) s cs := by
  induction cs generalizing s with
  | nil => rfl
  | cons c cs ih =>
    have hstep := armed_step s c a
    have hrest := ih (s.step c).1
    rw [← runAll_cons] at hrest
    simp only [tally]
    omega

theorem active_runAll_le (s : Guards) (cs : List Command) (a : Nat) :
    (s.runAll cs).active a ≤ s.active a + tally (begins a) s cs := by
  induction cs generalizing s with
  | nil => exact Nat.le_refl _
  | cons c cs ih =>
    have hstep := active_step_le s c a
    have hrest := ih (s.step c).1
    rw [← runAll_cons] at hrest
    simp only [tally]
    omega

/-- What every action comes to, whatever it does in its turn: each relapse is a run more, or a guard
that is armed once more. -/
theorem balance {cs : List Command} {a : Nat} (h : a < (empty.runAll cs).actions) :
    (empty.runAll cs).ran a + (empty.runAll cs).armed a + tally (dismisses a) empty cs =
      1 + tally (relapses a) empty cs := by
  have hbegun := begun_runAll empty cs a
  have hran := ran_runAll empty cs a
  have harmed := armed_runAll empty cs a
  have hone : (empty.runAll cs).begun a = 1 := if_pos h
  have hnone : empty.begun a = 0 ∧ empty.ran a = 0 ∧ empty.armed a = 0 := ⟨rfl, rfl, rfl⟩
  omega

theorem active_le_one (cs : List Command) (a : Nat) : (empty.runAll cs).active a ≤ 1 := by
  have hbegun := begun_runAll empty cs a
  have hactive := active_runAll_le empty cs a
  have hone : (empty.runAll cs).begun a ≤ 1 := by
    unfold begun
    split <;> omega
  have hnone : empty.begun a = 0 ∧ empty.active a = 0 := ⟨rfl, rfl⟩
  omega

theorem tally_append (happens : Guards → Command → Bool) (s : Guards) (cs ds : List Command) :
    tally happens s (cs ++ ds) = tally happens s cs + tally happens (s.runAll cs) ds := by
  induction cs generalizing s with
  | nil => exact (Nat.zero_add _).symm
  | cons c cs ih => rw [List.cons_append, tally, ih, tally, Nat.add_assoc, runAll_cons]

theorem tally_pos_iff {happens : Guards → Command → Bool} {s : Guards} {cs : List Command} :
    0 < tally happens s cs ↔
      ∃ before c after, cs = before ++ c :: after ∧ happens (s.runAll before) c := by
  induction cs generalizing s with
  | nil => simp [tally]
  | cons c cs ih =>
    cases hc : happens s c with
    | true =>
      simp only [tally, hc, Bool.toNat_true]
      exact ⟨fun _ => ⟨[], c, cs, rfl, hc⟩, fun _ => by omega⟩
    | false =>
      simp only [tally, hc, Bool.toNat_false, Nat.zero_add, ih]
      constructor
      · rintro ⟨before, d, after, rfl, hd⟩
        exact ⟨c :: before, d, after, rfl, hd⟩
      · rintro ⟨before, d, after, hsplit, hd⟩
        cases before with
        | nil =>
          cases hsplit
          simp [runAll, hc] at hd
        | cons b before =>
          cases hsplit
          exact ⟨before, d, after, rfl, hd⟩

theorem get?_alter (s : Guards) (g : Nat) (become : Guard → Option Guard) (k : Nat) :
    (s.alter g become).get? k = if k = g then (s.get? g).bind become else s.get? k := by
  by_cases hk : k = g
  · subst hk
    by_cases hlt : k < s.guards.length <;> simp [get?, alter, hlt]
  · simp [get?, alter, hk, List.getElem?_set_ne (Ne.symm hk)]

theorem get?_ending (s : Guards) (g k : Nat) :
    (s.runAll (ending g)).get? k = if k = g then none else s.get? k := by
  show ((s.alter g Guard.finish).alter g Guard.leave).get? k = _
  simp only [get?_alter]
  by_cases hk : k = g
  · simp only [hk, if_true]
    rcases s.get? g with - | ⟨b, active, ending⟩
    · rfl
    · cases active <;> cases ending <;> rfl
  · simp [hk]

theorem get?_endings (s : Guards) (gs : List Nat) (k : Nat) :
    (s.runAll (gs.flatMap ending)).get? k = if k ∈ gs then none else s.get? k := by
  induction gs generalizing s with
  | nil => rfl
  | cons g gs ih =>
    rw [List.flatMap_cons, runAll_append, ih, get?_ending]
    by_cases hk : k = g <;> simp [hk]

theorem get?_finishAll (s : Guards) (k : Nat) : s.finishAll.get? k = none := by
  rw [finishAll, get?_endings]
  by_cases hk : k < s.guards.length <;> simp [hk, get?]

theorem armed_eq_zero {s : Guards} (h : ∀ g, s.get? g = none) (a : Nat) : s.armed a = 0 := by
  rw [armed, List.countP_eq_zero]
  intro x hx
  obtain ⟨g, hg, rfl⟩ := List.getElem_of_mem hx
  have hnone := h g
  simp only [get?, List.getElem?_eq_getElem hg, Option.join_some] at hnone
  simp [hnone, isArmed]

theorem tally_endings {happens : Guards → Command → Bool}
    (h : ∀ s g, happens s (.finish g) = false ∧ happens s (.leave g) = false) (s : Guards)
    (gs : List Nat) : tally happens s (gs.flatMap ending) = 0 := by
  induction gs generalizing s with
  | nil => rfl
  | cons g gs ih =>
    rw [List.flatMap_cons, tally_append, ih, ending, tally, tally, tally, (h s g).1, (h _ g).2]
    rfl

theorem ran_finishAll (s : Guards) (a : Nat) : s.finishAll.ran a = s.ran a + s.armed a := by
  have hran := ran_runAll s ((List.range s.guards.length).flatMap ending) a
  have harmed := armed_runAll s ((List.range s.guards.length).flatMap ending) a
  have hquiet : ∀ happens : Nat → Guards → Command → Bool,
      (∀ s g, happens a s (.finish g) = false ∧ happens a s (.leave g) = false) →
        tally (happens a) s ((List.range s.guards.length).flatMap ending) = 0 := fun _ h =>
    tally_endings h s _
  rw [hquiet begins fun _ _ => ⟨rfl, rfl⟩, hquiet dismisses fun _ _ => ⟨rfl, rfl⟩,
    hquiet relapses fun _ _ => ⟨rfl, rfl⟩, ← finishAll, armed_eq_zero (get?_finishAll s)] at harmed
  rw [finishAll]
  omega

/-- A command about a guard that is not active, such as one moved from or gone, runs nothing. -/
theorem runs_step_of_idle {s : Guards} {c : Command} {g : Nat} (hc : c.subject? = some g)
    (hidle : ∀ a, isActiveFor a (s.get? g) = false) : (s.step c).1.runs = s.runs := by
  have hdue : (s.get? g).elim [] Guard.due = [] := by
    rcases hg : s.get? g with - | ⟨a, active, ending⟩
    · rfl
    · cases active with
      | false => rfl
      | true => simpa [hg, isActiveFor] using hidle a
  have hdueAtEnd : (s.get? g).elim [] Guard.dueAtEnd = [] := by
    rcases hg : s.get? g with - | ⟨a, active, ending⟩
    · rfl
    · rw [hg] at hdue
      cases ending with
      | false => exact hdue
      | true => rfl
  cases c with
  | invoke k =>
    cases hc
    simp [step, run, alter, hdue]
  | finish k =>
    cases hc
    simp [step, run, alter, hdueAtEnd]
  | create => cases hc
  | _ => rfl

/-- Some command of a sequence, when its turn comes, does something. The sequence begins without
guards. -/
def Happens (does : Guards → Command → Bool) (cs : List Command) : Prop :=
  ∃ before c after, cs = before ++ c :: after ∧ does (empty.runAll before) c

/-- Whether a command leaves the guard that it is about behind without its action. -/
def spends (g : Nat) (s : Guards) : Command → Bool
  | .move k | .dismiss k | .invoke k => k = g ∧ (s.get? g).isSome
  | .leave k => k = g ∧ (s.get? g).any Guard.ending
  | _ => false

def Passive (s : Guards) (g : Nat) : Prop :=
  g < s.guards.length ∧ ∀ a, isActiveFor a (s.get? g) = false

theorem Passive.append {s : Guards} {g : Nat} (h : s.Passive g) (x : Option Guard) (n : Nat) :
    Passive { s with guards := s.guards ++ [x], actions := n } g := by
  refine ⟨?_, fun a => ?_⟩
  · have hlt := h.1
    simp only [List.length_append]
    omega
  · simpa [get?, List.getElem?_append_left h.1] using h.2 a

theorem passive_alter {s : Guards} {g k : Nat} (hg : g < s.guards.length)
    {become : Guard → Option Guard}
    (hother : k ≠ g → ∀ a, isActiveFor a (s.get? g) = false)
    (hself : k = g → ∀ a, isActiveFor a ((s.get? g).bind become) = false) :
    (s.alter k become).Passive g := by
  refine ⟨by simpa [alter] using hg, fun a => ?_⟩
  rw [get?_alter]
  by_cases hk : g = k
  · subst hk
    simpa using hself rfl a
  · simpa [hk] using hother (Ne.symm hk) a

theorem Passive.alter {s : Guards} {g : Nat} (h : s.Passive g) (k : Nat)
    {become : Guard → Option Guard}
    (hbecome : ∀ a, (isActiveFor a ((s.get? g).bind become)).toNat
      ≤ (isActiveFor a (s.get? g)).toNat) : (s.alter k become).Passive g := by
  refine passive_alter h.1 (fun _ => h.2) fun _ a => ?_
  have hle := hbecome a
  rw [h.2 a] at hle
  simpa using hle

theorem Passive.step {s : Guards} {g : Nat} (h : s.Passive g) (c : Command) :
    (s.step c).1.Passive g := by
  have hdismiss (k : Nat) : (s.alter k fun x => some x.dismiss).Passive g :=
    h.alter k fun a => by simp [isActiveFor_dismissed]
  cases c with
  | create => exact h.append _ _
  | move k => exact (hdismiss k).append _ _
  | dismiss k => exact hdismiss k
  | invoke k => exact hdismiss k
  | isActive k => exact h
  | finish k => exact h.alter k fun a => Nat.le_of_eq (congrArg _ isActiveFor_finish)
  | leave k => exact h.alter k fun a => isActiveFor_leave_le

theorem passive_runAll {s : Guards} {g : Nat} (h : s.Passive g) (cs : List Command) :
    (s.runAll cs).Passive g := by
  induction cs generalizing s with
  | nil => exact h
  | cons c cs ih => exact ih (h.step c)

theorem passive_of_spends {s : Guards} {g : Nat} {c : Command} (h : spends g s c) :
    (s.step c).1.Passive g := by
  have hthere : (s.get? g).isSome → g < s.guards.length := by
    intro hsome
    by_cases hg : g < s.guards.length
    · exact hg
    · simp [get?, hg] at hsome
  have hdismiss : (s.get? g).isSome → (s.alter g fun x => some x.dismiss).Passive g := fun hsome =>
    passive_alter (hthere hsome) (absurd rfl) fun _ _ => isActiveFor_dismissed
  cases c with
  | move k =>
    obtain ⟨rfl, hsome⟩ : k = g ∧ (s.get? g).isSome := by simpa [spends] using h
    exact (hdismiss hsome).append _ _
  | dismiss k =>
    obtain ⟨rfl, hsome⟩ : k = g ∧ (s.get? g).isSome := by simpa [spends] using h
    exact hdismiss hsome
  | invoke k =>
    obtain ⟨rfl, hsome⟩ : k = g ∧ (s.get? g).isSome := by simpa [spends] using h
    exact hdismiss hsome
  | leave k =>
    obtain ⟨rfl, hending⟩ : k = g ∧ (s.get? g).any Guard.ending := by simpa [spends] using h
    cases hx : s.get? k with
    | none => simp [hx] at hending
    | some x =>
      have hend : x.ending = true := by simpa [hx] using hending
      refine passive_alter (hthere (by simp [hx])) (absurd rfl) fun _ a => ?_
      simp [hx, Guard.leave, hend, isActiveFor]
  | create => simp [spends] at h
  | isActive k => simp [spends] at h
  | finish k => simp [spends] at h

/-- What has become of an action after a sequence of commands. -/
structure RunsOnce (cs : List Command) (a : Nat) : Prop where
  sole : (empty.runAll cs).active a ≤ 1
  ended : Happens (ends a) cs → (empty.runAll cs).ran a = 1
  dismissed : Happens (dismisses a) cs → (empty.runAll cs).ran a = 0
  pending : ¬ Happens (ends a) cs → ¬ Happens (dismisses a) cs →
    (empty.runAll cs).ran a = 0 ∧ (empty.runAll cs).armed a = 1
  idle : ∀ c g, c.subject? = some g → (∀ b, isActiveFor b ((empty.runAll cs).get? g) = false) →
    ((empty.runAll cs).step c).1.runs = (empty.runAll cs).runs
  spent : ∀ g, Happens (spends g) cs → ∀ b, isActiveFor b ((empty.runAll cs).get? g) = false
  gone : (empty.runAll cs).armed a = 0 → ¬ Happens (dismisses a) cs → (empty.runAll cs).ran a = 1
  finished : ¬ Happens (dismisses a) cs → (empty.runAll cs).finishAll.ran a = 1
  finished_dismissed : Happens (dismisses a) cs → (empty.runAll cs).finishAll.ran a = 0

/-- An action that was ever guarded is, at every point, with at most one active guard. It is still
with one that is armed, or it has run once, or it was dismissed, if while it runs for the end of a
guard it does not come back to that guard; whenever it does, it runs or is guarded once more. -/
theorem runsOnce (cs : List Command) (a : Nat) (h : a < (empty.runAll cs).actions) :
    (empty.runAll cs).active a ≤ 1 ∧
    (empty.runAll cs).ran a + (empty.runAll cs).armed a + tally (dismisses a) empty cs =
      1 + tally (relapses a) empty cs ∧
    (¬ Happens (relapses a) cs → RunsOnce cs a) := by
  have hbalance := balance h
  refine ⟨active_le_one cs a, hbalance, fun hcalm => ?_⟩
  have hran : (empty.runAll cs).ran a = 0 + tally (ends a) empty cs := ran_runAll empty cs a
  have hends : Happens (ends a) cs ↔ 0 < tally (ends a) empty cs := tally_pos_iff.symm
  have hdismisses : Happens (dismisses a) cs ↔ 0 < tally (dismisses a) empty cs :=
    tally_pos_iff.symm
  have hnone : tally (relapses a) empty cs = 0 :=
    Nat.eq_zero_of_not_pos fun hpos => hcalm (tally_pos_iff.mp hpos)
  have hfinished := ran_finishAll (empty.runAll cs) a
  constructor
  case idle =>
    intro c g hc hidle
    exact runs_step_of_idle hc hidle
  case spent =>
    rintro g ⟨before, c, after, rfl, hc⟩ b
    rw [runAll_append, runAll_cons]
    exact (passive_runAll (passive_of_spends hc) after).2 b
  case sole => exact active_le_one cs a
  all_goals
    simp only [hends, hdismisses]
    omega

/-- Three actions: one is handed from guard to guard and runs at the end of the last, although the
guards before it are invoked and dismissed; one is dismissed, and its guard is ended by the first
action while that runs; one is still guarded. -/
def handed : List Command :=
  [.create, .move 0, .move 1, .invoke 0, .dismiss 1, .create, .finish 2, .dismiss 3, .finish 3,
    .leave 2, .invoke 2, .create]

theorem runsOnce_handed :
    (0 < (empty.runAll handed).actions ∧ tally (relapses 0) empty handed = 0 ∧
        RunsOnce handed 0 ∧ (empty.runAll handed).ran 0 = 1) ∧
      (1 < (empty.runAll handed).actions ∧ tally (relapses 1) empty handed = 0 ∧
        RunsOnce handed 1 ∧ (empty.runAll handed).ran 1 = 0) ∧
      (2 < (empty.runAll handed).actions ∧ tally (relapses 2) empty handed = 0 ∧
        RunsOnce handed 2 ∧ (empty.runAll handed).armed 2 = 1) := by
  have hcalm : ∀ a, tally (relapses a) empty handed = 0 → ¬ Happens (relapses a) handed :=
    fun a h hhappens => by
      have hpos := tally_pos_iff.mpr hhappens
      omega
  exact ⟨⟨by decide, rfl, (runsOnce handed 0 (by decide)).2.2 (hcalm 0 rfl), rfl⟩,
    ⟨by decide, rfl, (runsOnce handed 1 (by decide)).2.2 (hcalm 1 rfl), rfl⟩,
    ⟨by decide, rfl, (runsOnce handed 2 (by decide)).2.2 (hcalm 2 rfl), rfl⟩⟩

/-- An action that invokes its own guard while it runs for the end of that guard. -/
def comingBack : List Command := [.create, .finish 0, .invoke 0, .leave 0]

theorem runsOnce_comingBack :
    (0 < (empty.runAll comingBack).actions ∧ ∀ g, (empty.runAll comingBack).get? g = none) ∧
      (empty.runAll comingBack).ran 0 = 2 ∧ ¬ RunsOnce comingBack 0 := by
  refine ⟨⟨by decide, fun g => ?_⟩, rfl, fun h => ?_⟩
  · match g with
    | 0 => rfl
    | g + 1 => simp [get?, comingBack, runAll, step, alter, run, empty]
  · have hended : Happens (ends 0) comingBack := ⟨[.create], .finish 0, _, rfl, rfl⟩
    have hone : 2 = 1 := h.ended hended
    omega

end Telemetry.Guards
