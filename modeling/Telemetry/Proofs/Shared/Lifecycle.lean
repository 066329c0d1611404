import Telemetry.Proofs.Shared.Admission
import Telemetry.Proofs.Shared.Succession

namespace Telemetry.Shared

open Buffer

namespace Shelf

variable {α : Type} {s : Shelf α} {f : α → Buffer} {k j : Nat} {a : α}

def Distinct (s : Shelf α) : Prop := (s.map Prod.fst).Nodup

def owners (f : α → Buffer) (s : Shelf α) : List Buffer :=
  (s.map fun x => f x.2).filter Buffer.owner

theorem ne_of_mem_remove {x : Nat × α} (h : x ∈ remove s k) : x.1 ≠ k := by
  simpa using (List.mem_filter.1 h).2

theorem mem_of_mem_remove {x : Nat × α} (h : x ∈ remove s k) : x ∈ s := (List.mem_filter.1 h).1

theorem get?_remove_self (s : Shelf α) (k : Nat) : get? (remove s k) k = none := by
  rw [get?, List.lookup_eq_none_iff]
  intro x hx
  simpa using (ne_of_mem_remove hx).symm

theorem get?_remove_of_ne (h : k ≠ j) : get? (remove s j) k = get? s k :=
  lookup_filter_of_ne h s

theorem remove_of_get?_none (h : get? s k = none) : remove s k = s := by
  rw [get?, List.lookup_eq_none_iff] at h
  apply List.filter_eq_self.2
  intro x hx
  have hne : k ≠ x.1 := by simpa using h x hx
  simpa using hne.symm

theorem remove_comm (s : Shelf α) (k j : Nat) : remove (remove s k) j = remove (remove s j) k := by
  simp only [remove, List.filter_filter, Bool.and_comm]

theorem distinct_remove (h : Distinct s) (k : Nat) : Distinct (remove s k) :=
  h.sublist (List.filter_sublist.map _)

theorem distinct_put (h : Distinct s) (k : Nat) (a : α) : Distinct (put s k a) := by
  refine List.nodup_cons.2 ⟨fun hmem => ?_, distinct_remove h k⟩
  obtain ⟨x, hx, hk⟩ := List.mem_map.1 hmem
  exact ne_of_mem_remove hx hk

theorem mem_of_get? (h : get? s k = some a) : (k, a) ∈ s := by
  induction s with
  | nil => nomatch h
  | cons x rest ih =>
    obtain ⟨i, b⟩ := x
    by_cases hi : k = i
    · subst hi
      have hb : b = a := by simpa [get?, List.lookup_cons] using h
      exact hb ▸ List.mem_cons_self
    · have hrest : get? rest k = some a := by
        simpa [get?, List.lookup_cons, beq_eq_false_iff_ne.2 hi] using h
      exact List.mem_cons_of_mem _ (ih hrest)

theorem perm_remove (h : Distinct s) (hk : get? s k = some a) : ((k, a) :: remove s k).Perm s := by
  induction s with
  | nil => nomatch hk
  | cons x rest ih =>
    obtain ⟨i, b⟩ := x
    have hrest : Distinct rest := (List.nodup_cons.1 h).2
    by_cases hi : k = i
    · subst hi
      have hb : b = a := by simpa [get?, List.lookup_cons] using hk
      have hnone : get? rest k = none := by
        rw [get?, List.lookup_eq_none_iff]
        intro x hx
        have hne : k ≠ x.1 := fun heq =>
          (List.nodup_cons.1 h).1 (List.mem_map.2 ⟨x, hx, heq.symm⟩)
        simpa using hne
      have hremove : remove ((k, b) :: rest) k = remove rest k := by simp [remove]
      rw [hremove, remove_of_get?_none hnone, hb]
    · have hget : get? rest k = some a := by
        simpa [get?, List.lookup_cons, beq_eq_false_iff_ne.2 hi] using hk
      have hremove : remove ((i, b) :: rest) k = (i, b) :: remove rest k := by
        simp [remove, Ne.symm hi]
      rw [hremove]
      exact (List.Perm.swap ..).trans ((ih hrest hget).cons _)

theorem owners_cons (f : α → Buffer) (x : Nat × α) (s : Shelf α) :
    owners f (x :: s) = (f x.2).held ++ owners f s := by
  simp only [owners, List.map_cons, List.filter_cons, held]
  split <;> rfl

theorem owners_put (f : α → Buffer) (s : Shelf α) (k : Nat) (a : α) :
    owners f (put s k a) = (f a).held ++ owners f (remove s k) := owners_cons f (k, a) (remove s k)

theorem owners_perm (h : Distinct s) (hk : get? s k = some a) (f : α → Buffer) :
    ((f a).held ++ owners f (remove s k)).Perm (owners f s) := by
  rw [← owners_cons f (k, a)]
  exact ((perm_remove h hk).map _).filter _

theorem owners_transfer (h : Distinct s) (hk : get? s k = some a) (hne : k ≠ j)
    (f : α → Buffer) :
    ((f a).held ++ owners f (remove (remove s k) j)).Perm (owners f (remove s j)) := by
  rw [remove_comm]
  refine owners_perm (distinct_remove h j) ?_ f
  rw [get?_remove_of_ne hne, hk]

theorem owners_move {s : Shelf Buffer} {x : Buffer} (h : Distinct s) (hk : get? s k = some x)
    (hne : k ≠ j) :
    (owners (fun x => x) (put (put s k x.emptied) j x)).Perm
      (owners (fun x => x) (remove s j)) := by
  have hremove : remove (put s k x.emptied) j = (k, x.emptied) :: remove (remove s k) j := by
    simp [remove, put, hne]
  rw [owners_put, hremove, owners_cons]
  exact owners_transfer h hk hne fun x => x

end Shelf

namespace World

variable {w w₁ w' : World} {s : Namespace} {made : List Buffer} {x : Buffer} {b : Nat}
  {host : Host} {m : Memory} {c : Command}

def owners (w : World) : List Buffer :=
  Shelf.owners (fun x => x) w.buffers ++ Shelf.owners Board.buffer w.boards

structure Distinct (w : World) : Prop where
  buffers : Shelf.Distinct w.buffers
  boards : Shelf.Distinct w.boards

variable [Platform]

/-- A world comes from another one where `made` was created and the names became `s`: then some
owners ended, and no other was lost or doubled. -/
def Turns (w : World) (s : Namespace) (made : List Buffer) (w' : World) : Prop :=
  w'.Distinct ∧ ∃ ended, (ended ++ w'.owners).Perm (made ++ w.owners) ∧ w'.space = endAll ended s

theorem turns_same (h : w.Distinct) (s : Namespace) : w.Turns s [] { w with space := s } :=
  ⟨⟨h.buffers, h.boards⟩, [], .refl _, rfl⟩

theorem Turns.add (h : w.Turns s made w₁) (hdistinct : w'.Distinct) {added : List Buffer}
    (hperm : w'.owners.Perm (added ++ w₁.owners)) (hspace : w'.space = w₁.space) :
    w.Turns s (added ++ made) w' := by
  obtain ⟨-, ended, hended, hnames⟩ := h
  refine ⟨hdistinct, ended, ?_, hspace.trans hnames⟩
  calc (ended ++ w'.owners).Perm (ended ++ (added ++ w₁.owners)) := hperm.append_left ended
    List.Perm _ (added ++ (ended ++ w₁.owners)) := List.perm_append_comm_assoc ..
    List.Perm _ (added ++ (made ++ w.owners)) := hended.append_left added
    List.Perm _ (added ++ made ++ w.owners) := by rw [List.append_assoc]

theorem Turns.moved (h : w.Turns s made w₁) (hdistinct : w'.Distinct)
    (hperm : w'.owners.Perm w₁.owners) (hspace : w'.space = w₁.space) : w.Turns s made w' := by
  rw [← List.nil_append made]
  exact h.add hdistinct hperm hspace

section Dropping

theorem dropBuffer_of_none (h : Shelf.get? w.buffers b = none) : w.dropBuffer b = w := by
  rw [dropBuffer, h]

theorem dropBuffer_of_some (h : Shelf.get? w.buffers b = some x) : w.dropBuffer b =
    { w with space := x.release w.space, buffers := Shelf.remove w.buffers b } := by
  rw [dropBuffer, h]

theorem dropBuffer_turns (h : w.Distinct) (b : Nat) : w.Turns w.space [] (w.dropBuffer b) := by
  cases hx : Shelf.get? w.buffers b with
  | none =>
    rw [dropBuffer_of_none hx]
    exact turns_same h w.space
  | some x =>
    rw [dropBuffer_of_some hx]
    refine ⟨⟨Shelf.distinct_remove h.buffers b, h.boards⟩, x.held, ?_, release_eq_endAll x w.space⟩
    rw [owners, ← List.append_assoc]
    exact (Shelf.owners_perm h.buffers hx fun x => x).append_right _

theorem get?_dropBuffer (w : World) (b : Nat) : Shelf.get? (w.dropBuffer b).buffers b = none := by
  cases hx : Shelf.get? w.buffers b with
  | none => rwa [dropBuffer_of_none hx]
  | some x =>
    rw [dropBuffer_of_some hx]
    exact Shelf.get?_remove_self w.buffers b

theorem dropBoard_of_none (h : Shelf.get? w.boards b = none) :
    w.dropBoard host m b = (w, []) := by
  rw [dropBoard, h]

theorem dropBoard_of_some {y : Board} (h : Shelf.get? w.boards b = some y) :
    w.dropBoard host m b =
      ({ w with space := y.buffer.release w.space, boards := Shelf.remove w.boards b },
        y.session.finish host.wallTime m) := by
  rw [dropBoard, h]
  rfl

theorem dropBoard_turns (h : w.Distinct) (host : Host) (m : Memory) (b : Nat) :
    w.Turns w.space [] (w.dropBoard host m b).1 := by
  cases hy : Shelf.get? w.boards b with
  | none =>
    rw [dropBoard_of_none hy]
    exact turns_same h w.space
  | some y =>
    rw [dropBoard_of_some hy]
    refine ⟨⟨h.buffers, Shelf.distinct_remove h.boards b⟩, y.buffer.held, ?_,
      release_eq_endAll y.buffer w.space⟩
    exact List.perm_append_comm_assoc .. |>.trans
      ((Shelf.owners_perm h.boards hy Board.buffer).append_left _)

theorem get?_dropBoard (w : World) (host : Host) (m : Memory) (b : Nat) :
    Shelf.get? (w.dropBoard host m b).1.boards b = none := by
  cases hy : Shelf.get? w.boards b with
  | none => rwa [dropBoard_of_none hy]
  | some y =>
    rw [dropBoard_of_some hy]
    exact Shelf.get?_remove_self w.boards b

theorem get?_dropBoard_of_ne {target : Nat} (h : b ≠ target) (w : World) (host : Host)
    (m : Memory) :
    Shelf.get? (w.dropBoard host m target).1.boards b = Shelf.get? w.boards b := by
  cases hy : Shelf.get? w.boards target with
  | none => rw [dropBoard_of_none hy]
  | some y =>
    rw [dropBoard_of_some hy]
    exact Shelf.get?_remove_of_ne h

end Dropping

theorem placeBuffer_turns (h : w.Distinct) (s : Namespace) (b : Nat) (x : Buffer) :
    w.Turns s x.held ({ w with space := s }.placeBuffer b x) := by
  have hdrop : w.Turns s [] ({ w with space := s }.dropBuffer b) :=
    dropBuffer_turns (w := { w with space := s }) ⟨h.buffers, h.boards⟩ b
  have hremove := Shelf.remove_of_get?_none (get?_dropBuffer { w with space := s } b)
  rw [← List.append_nil x.held]
  refine hdrop.add ?_ ?_ rfl
  · exact ⟨Shelf.distinct_put hdrop.1.buffers b x, hdrop.1.boards⟩
  · simp only [placeBuffer, owners, Shelf.owners_put, hremove, List.append_assoc]
    exact .refl _

/-- What making a board does to names: it may create a segment, which is the board's own from then on
or is released again. -/
def Accounts (w : World) (c : Command) (g : Board.Creation) : Prop :=
  ∃ s made, c.Begins w.space s made ∧
    ((∃ e, g.result = .error e ∧ g.space = endAll made s) ∨
      ∃ y, g.result = .ok y ∧ y.buffer.held = made ∧ g.space = s)

theorem placeBoard_turns (h : w.Distinct) {g : Board.Creation} (hg : w.Accounts c g) (host : Host)
    (m : Memory) (b : Nat) :
    ∃ s made, c.Begins w.space s made ∧ w.Turns s made (w.placeBoard host m b g).world := by
  obtain ⟨s, made, hbegins, ⟨e, hresult, hspace⟩ | ⟨y, hresult, hheld, hspace⟩⟩ := hg
  · refine ⟨s, made, hbegins, ?_⟩
    simp only [placeBoard, hresult, hspace]
    exact ⟨⟨h.buffers, h.boards⟩, made, .refl _, rfl⟩
  · refine ⟨s, made, hbegins, ?_⟩
    have hdrop : w.Turns s [] ({ w with space := s }.dropBoard host (m.storeAll g.writes) b).1 :=
      dropBoard_turns (w := { w with space := s }) ⟨h.buffers, h.boards⟩ host _ b
    have hremove := Shelf.remove_of_get?_none
      (get?_dropBoard { w with space := s } host (m.storeAll g.writes) b)
    rw [← hheld, ← List.append_nil y.buffer.held]
    simp only [placeBoard, hresult, hspace]
    refine hdrop.add ?_ ?_ rfl
    · exact ⟨hdrop.1.buffers, Shelf.distinct_put hdrop.1.boards b y⟩
    · simp only [owners, Shelf.owners_put, hremove]
      exact List.perm_append_comm_assoc ..

theorem create_accounts {name : Text} (hname : c.creates? = some name) (host : Host)
    (valuesLength : Nat) (charset : Counters.Charset) (clock : Option Counters.Clock)
    (timeout : Int) (m : Memory) :
    w.Accounts c (Board.create w.space host name valuesLength charset clock timeout m) := by
  unfold Board.create
  split
  · exact ⟨w.space, [], .nothing, .inl ⟨_, rfl, rfl⟩⟩
  · dsimp only
    split
    · next s e hcreate => exact ⟨s, [], .refused hname hcreate, .inl ⟨e, rfl, rfl⟩⟩
    · next s x hcreate =>
      obtain ⟨hx, -⟩ := create_owner hcreate
      have hheld : x.held = [x] := held_of_owner (hx ▸ rfl)
      refine ⟨s, [x], .made hname hcreate, ?_⟩
      split
      · next e _ => exact .inl ⟨e, rfl, rfl⟩
      · exact .inr ⟨_, rfl, hheld, rfl⟩

theorem attachBuffer_held {name : Text} (h : Buffer.attach s name = .ok x) : x.held = [] := by
  unfold Buffer.attach at h
  split at h
  · cases h
    rfl
  · nomatch h

theorem attachBoard_plain {name : Text} {y : Board} (h : Board.attach s name m = .ok y) :
    y.buffer.owner = false ∧ y.session.handles = [] := by
  cases hp : s.attach name with
  | error r =>
    unfold Board.attach Buffer.attach at h
    rw [hp] at h
    nomatch h
  | ok p =>
    rw [Board.attach_eq hp] at h
    cases hviews : Board.inspect name p.view m with
    | error e =>
      rw [hviews] at h
      nomatch h
    | ok views =>
      rw [hviews] at h
      cases h
      exact ⟨rfl, rfl⟩

theorem attach_accounts (c : Command) (name : Text) (m : Memory) :
    w.Accounts c ⟨w.space, [], Board.attach w.space name m⟩ := by
  refine ⟨w.space, [], .nothing, ?_⟩
  cases hattach : Board.attach w.space name m with
  | error e => exact .inl ⟨e, rfl, rfl⟩
  | ok y => exact .inr ⟨y, rfl, held_of_not_owner (attachBoard_plain hattach).1, rfl⟩

theorem moveBuffer_turns (h : w.Distinct) (host : Host) (m : Memory) (b target : Nat) :
    w.Turns w.space [] (w.step host m (.moveBuffer b target)).world := by
  have hdrop := dropBuffer_turns h target
  have hnone := get?_dropBuffer w target
  simp only [step]
  split
  · exact hdrop
  · next x hx =>
    have hne : b ≠ target := by
      intro heq
      rw [heq, hnone] at hx
      nomatch hx
    have hbuffers := hdrop.1.buffers
    have hmove := Shelf.owners_move hbuffers hx hne
    rw [Shelf.remove_of_get?_none hnone] at hmove
    refine hdrop.moved ?_ ?_ rfl
    · exact ⟨Shelf.distinct_put (Shelf.distinct_put hbuffers b _) target x, hdrop.1.boards⟩
    · exact hmove.append_right _

theorem assignBuffer_turns (h : w.Distinct) (host : Host) (m : Memory) (b target : Nat) :
    w.Turns w.space [] (w.step host m (.assignBuffer b target)).world := by
  simp only [step]
  split
  · next x old hx hold =>
    split
    · exact turns_same h w.space
    · next hne =>
      have hdrop := dropBuffer_turns h target
      rw [dropBuffer_of_some hold] at hdrop
      have hmove := Shelf.owners_move h.buffers hx hne
      refine hdrop.moved ?_ ?_ rfl
      · exact ⟨Shelf.distinct_put (Shelf.distinct_put h.buffers b _) target x, h.boards⟩
      · exact hmove.append_right _
  · exact turns_same h w.space

theorem moveBoard_turns (h : w.Distinct) (host : Host) (m : Memory) (b target : Nat) :
    w.Turns w.space [] (w.step host m (.moveBoard b target)).world := by
  simp only [step]
  split
  · exact turns_same h w.space
  · next y hy =>
    split
    · exact turns_same h w.space
    · next hne =>
      have hdrop := dropBoard_turns h host m target
      have hnone := get?_dropBoard w host m target
      have hboards := hdrop.1.boards
      rw [← get?_dropBoard_of_ne hne w host m] at hy
      have hmove := Shelf.owners_transfer hboards hy hne Board.buffer
      rw [Shelf.remove_of_get?_none hnone, ← Shelf.owners_put] at hmove
      refine hdrop.moved ?_ ?_ rfl
      · exact ⟨hdrop.1.buffers, Shelf.distinct_put (Shelf.distinct_remove hboards b) target y⟩
      · exact hmove.append_left _

theorem step_turns (h : w.Distinct) (hc : c.Lifecycle) (host : Host) (m : Memory) :
    ∃ s made, c.Begins w.space s made ∧ w.Turns s made (w.step host m c).world := by
  have hsame : w.Turns w.space [] w := turns_same h w.space
  cases c with
  | create | attach | close | unlink | access | accessBuffer | call => exact hc.elim
  | createBuffer b name length =>
    rcases hcreate : Buffer.create w.space name length with ⟨s, e | x⟩
    · refine ⟨s, [], .refused rfl hcreate, ?_⟩
      simp only [step, hcreate]
      exact turns_same h s
    · obtain ⟨hx, -⟩ := create_owner hcreate
      have hheld : x.held = [x] := held_of_owner (hx ▸ rfl)
      refine ⟨s, [x], .made rfl hcreate, ?_⟩
      simp only [step, hcreate, ← hheld]
      exact placeBuffer_turns h s b x
  | attachBuffer b name =>
    refine ⟨w.space, [], .nothing, ?_⟩
    simp only [step]
    cases hattach : Buffer.attach w.space name with
    | error e => exact hsame
    | ok x =>
      have hplace := placeBuffer_turns h w.space b x
      rwa [attachBuffer_held hattach] at hplace
  | moveBuffer b target => exact ⟨w.space, [], .nothing, moveBuffer_turns h host m b target⟩
  | assignBuffer b target => exact ⟨w.space, [], .nothing, assignBuffer_turns h host m b target⟩
  | dropBuffer b => exact ⟨w.space, [], .nothing, dropBuffer_turns h b⟩
  | bufferState b =>
    refine ⟨w.space, [], .nothing, ?_⟩
    simp only [step]
    split <;> exact hsame
  | createBoard b name valuesLength charset clock timeout =>
    exact placeBoard_turns h (create_accounts rfl ..) host m b
  | configureBoard b d =>
    simp only [step]
    cases hd : Settings.ofDocument d with
    | error e => exact ⟨w.space, [], .nothing, hsame⟩
    | ok c =>
      refine placeBoard_turns h (create_accounts ?_ ..) host m b
      simp only [Command.creates?, hd]
      rfl
  | attachBoard b name => exact placeBoard_turns h (attach_accounts _ name m) host m b
  | moveBoard b target => exact ⟨w.space, [], .nothing, moveBoard_turns h host m b target⟩
  | dropBoard b => exact ⟨w.space, [], .nothing, dropBoard_turns h host m b⟩
  | boardCapacity b =>
    refine ⟨w.space, [], .nothing, ?_⟩
    simp only [step]
    split <;> exact hsame
  | boardState b =>
    refine ⟨w.space, [], .nothing, ?_⟩
    simp only [step]
    split <;> exact hsame

end World

end Telemetry.Shared
