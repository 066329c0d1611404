import Telemetry.FileTree

namespace Telemetry

def Node.extended (text : Text) : Node → Node
  | file content => file (content ++ text)
  | n => n

def Node.IsWritable : Node → Prop
  | file _ | sink => True
  | directory | full => False

@[simp]
theorem Node.extended_eq_directory {text : Text} {n : Node} :
    n.extended text = .directory ↔ n = .directory := by
  cases n <;> simp [extended]

@[simp]
theorem Node.extended_nil (n : Node) : n.extended [] = n := by
  cases n <;> simp [extended]

namespace FileTree

variable {t u : FileTree} {l k : Location} {path text : Text} {n : Node}
variable {written : Location → Text}

@[simp]
theorem node?_nil (t : FileTree) : t.node? [] = some .directory := rfl

theorem node?_of_ne (hl : l ≠ []) : t.node? l = t.nodes.lookup l := by
  simp [node?, hl]

theorem lookup_putIn (ns : List (Location × Node)) :
    (putIn l n ns).lookup k = if k = l then some n else ns.lookup k := by
  have lookup_cons (j : Location) (m : Node) (rest : List (Location × Node)) :
      ((j, m) :: rest).lookup k = if k = j then some m else rest.lookup k := by
    by_cases hk : k = j
    · simp [hk]
    · simp [List.lookup_cons, beq_false_of_ne hk, hk]
  induction ns with
  | nil => exact lookup_cons l n []
  | cons x rest ih =>
    obtain ⟨j, old⟩ := x
    by_cases hj : j = l
    · subst hj
      by_cases hk : k = j <;> simp [putIn, lookup_cons, hk]
    · by_cases hk : k = j
      · subst hk
        simp [putIn, lookup_cons, hj]
      · simp [putIn, lookup_cons, hj, hk, ih]

theorem node?_put (hl : l ≠ []) : (t.put l n).node? k = if k = l then some n else t.node? k := by
  by_cases hk : k = []
  · simp [hk, hl.symm]
  · rw [node?_of_ne hk, node?_of_ne hk]
    exact lookup_putIn t.nodes

theorem ne_nil_of_node? (hn : t.node? l = some n) (hd : n ≠ .directory) : l ≠ [] := by
  rintro rfl
  simp at hn
  exact hd hn.symm

def target (t : FileTree) (path : Text) : Except OsError Location :=
  match t.route path with
  | .error e => .error e
  | .ok ⟨directory, some name, false⟩ =>
    match place directory name with
    | .error e => .error e
    | .ok l => if t.node? l = some .directory then .error .isDirectory else .ok l
  | .ok _ => .error .isDirectory

def opened (t : FileTree) (l : Location) : FileTree :=
  if t.node? l = none then t.put l (.file []) else t

theorem openToAppend_eq (t : FileTree) (path : Text) :
    t.openToAppend path = (t.target path).map fun l => (l, t.opened l) := by
  unfold openToAppend target opened
  rcases t.route path with e | ⟨directory, _ | name, _ | _⟩
  · rfl
  · rfl
  · rfl
  · cases hp : place directory name with
    | error e => simp [bind, Except.bind, Except.map, hp]
    | ok l =>
      rcases hn : t.node? l with _ | n
      · simp [bind, Except.bind, Except.map, pure, Except.pure, hp, hn]
      · cases n <;>
          simp [bind, Except.bind, Except.map, pure, Except.pure, throw, throwThe,
            MonadExceptOf.throw, hp, hn]
  · rfl

theorem node?_ne_directory_of_target (h : t.target path = .ok l) : t.node? l ≠ some .directory := by
  unfold target at h
  split at h
  · cases h
  · split at h
    · cases h
    · split at h
      · cases h
      · rename_i hd
        exact Except.ok.inj h ▸ hd
  · cases h

theorem node?_opened (hl : l ≠ []) :
    (t.opened l).node? k = if k = l then some ((t.node? l).getD (.file [])) else t.node? k := by
  unfold opened
  rcases hn : t.node? l with _ | n
  · simp [node?_put hl]
  · by_cases hk : k = l <;> simp [hk, hn]

theorem of_openToAppend (h : t.openToAppend path = .ok (l, u)) :
    t.target path = .ok l ∧ u = t.opened l := by
  rw [openToAppend_eq] at h
  cases ht : t.target path with
  | error e => simp [ht, Except.map] at h
  | ok k =>
    simp only [ht, Except.map, Except.ok.injEq, Prod.mk.injEq] at h
    obtain ⟨rfl, rfl⟩ := h
    exact ⟨rfl, rfl⟩

theorem ne_nil_of_target (h : t.target path = .ok l) : l ≠ [] := by
  rintro rfl
  exact node?_ne_directory_of_target h (node?_nil t)

theorem isWritable_of_target (h : t.target path = .ok l)
    (hf : (t.opened l).node? l ≠ some .full) :
    ∃ n, (t.opened l).node? l = some n ∧ n.IsWritable := by
  have hl := ne_nil_of_target h
  have hd := node?_ne_directory_of_target h
  rw [node?_opened hl] at hf ⊢
  rcases hn : t.node? l with _ | n
  · exact ⟨.file [], by simp, trivial⟩
  · refine ⟨n, by simp, ?_⟩
    cases n with
    | file _ | sink => trivial
    | directory => exact hd hn
    | full => simp [hn] at hf

/-- `u` is what `t` becomes when `written l` is written at the end of what is at each place `l`. -/
structure Grows (t : FileTree) (written : Location → Text) (u : FileTree) : Prop where
  here : u.here = t.here
  node? (l : Location) : u.node? l = (t.node? l).map (Node.extended (written l))
  /-- Nothing is written where nothing is. -/
  nothing (l : Location) (hl : t.node? l = none) : written l = []

theorem Grows.refl (t : FileTree) : Grows t (fun _ => []) t :=
  ⟨rfl, fun l => by cases t.node? l <;> simp, fun _ _ => rfl⟩

namespace Grows

theorem node?_eq_none_iff (h : Grows t written u) : u.node? l = none ↔ t.node? l = none := by
  simp [h.node? l]

theorem node?_eq_directory_iff (h : Grows t written u) :
    u.node? l = some .directory ↔ t.node? l = some .directory := by
  simp [h.node? l]

theorem enter (h : Grows t written u) (l : Location) (names : List Text) :
    u.enter l names = t.enter l names := by
  induction names generalizing l with
  | nil => rfl
  | cons name rest ih =>
    simp only [FileTree.enter]
    cases hp : place l name with
    | error e => simp
    | ok inner =>
      simp only [h.node? inner]
      rcases t.node? inner with _ | n
      · simp
      · cases n <;> simp [Node.extended, ih]

theorem route (h : Grows t written u) (path : Text) : u.route path = t.route path := by
  simp only [FileTree.route, h.here, h.enter]

theorem target (h : Grows t written u) (path : Text) : u.target path = t.target path := by
  simp only [FileTree.target, h.route, h.node?_eq_directory_iff]

theorem opened (h : Grows t written u) (hl : l ≠ []) :
    Grows (t.opened l) written (u.opened l) := by
  refine ⟨?_, fun k => ?_, fun k hk => ?_⟩
  · simp only [FileTree.opened, h.node?_eq_none_iff]
    split <;> exact h.here
  · rw [node?_opened hl, node?_opened hl, h.node? k, h.node? l]
    by_cases hk : k = l
    · subst hk
      rcases hn : t.node? k with _ | n
      -- nothing was written where nothing was, so the new file is empty in both trees
      · simp [h.nothing k hn]
      · simp
    · simp [hk]
  · rw [node?_opened hl] at hk
    by_cases hkl : k = l
    · simp [hkl] at hk
    · exact h.nothing k (by simpa [hkl] using hk)

theorem append (h : Grows t written u) (hn : t.node? l = some n) (hw : n.IsWritable)
    (text : Text) :
    ∃ v, u.append l text = .ok v ∧
      Grows t (fun k => if k = l then written k ++ text else written k) v := by
  have hu := h.node? l
  rw [hn] at hu
  have written_at : ∀ k, t.node? k = none → k ≠ l := by
    rintro k hk rfl
    simp [hk] at hn
  cases n with
  | file content =>
    have hl : l ≠ [] := ne_nil_of_node? hn (by simp)
    simp only [Option.map_some, Node.extended] at hu
    refine ⟨u.put l (.file (content ++ written l ++ text)), by simp only [FileTree.append, hu],
      h.here, fun k => ?_, fun k hk => ?_⟩
    · rw [node?_put hl]
      by_cases hk : k = l
      · simp [hk, hn, Node.extended]
      · simp [hk, h.node? k]
    · simp [written_at k hk, h.nothing k hk]
  | sink =>
    simp only [Option.map_some, Node.extended] at hu
    refine ⟨u, by simp only [FileTree.append, hu], h.here, fun k => ?_, fun k hk => ?_⟩
    · by_cases hk : k = l
      · simp [hk, hn, hu, Node.extended]
      · simp [hk, h.node? k]
    · simp [written_at k hk, h.nothing k hk]
  | directory => exact hw.elim
  | full => exact hw.elim

end Grows

end FileTree

end Telemetry
