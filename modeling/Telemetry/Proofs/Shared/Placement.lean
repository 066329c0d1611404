import Telemetry.Proofs.Shared.Eviction

namespace Telemetry.Shared

namespace Namespace

variable {s s' s'' : Namespace} {name n k : Text} {size region r : Nat}

/-- Every name leads to a segment that was created. -/
def Placed (s : Namespace) : Prop := ∀ n r, s.find? n = some r → r < s.sizes.length

/-- Names lead where they led, or to segments that exist now, and no segment is forgotten. -/
structure Grows (s s' : Namespace) : Prop where
  count : s.sizes.length ≤ s'.sizes.length
  found : ∀ n r, s'.find? n = some r → s.find? n = some r ∨ r < s'.sizes.length

theorem Grows.refl (s : Namespace) : s.Grows s := ⟨Nat.le_refl _, fun _ _ h => .inl h⟩

theorem Grows.trans (h : s.Grows s') (h' : s'.Grows s'') : s.Grows s'' := by
  refine ⟨Nat.le_trans h.count h'.count, fun n r hn => ?_⟩
  rcases h'.found n r hn with hn | hr
  · exact (h.found n r hn).imp_right fun hr => Nat.lt_of_lt_of_le hr h'.count
  · exact .inr hr

theorem Placed.grows (h : s.Placed) (hs : s.Grows s') : s'.Placed := fun n r hn =>
  (hs.found n r hn).elim (fun hn => Nat.lt_of_lt_of_le (h n r hn) hs.count) id

theorem placed_empty : empty.Placed := fun _ _ h => nomatch h

theorem find?_of_forget (h : (s.forget n).find? k = some r) : s.find? k = some r := by
  by_cases hk : k = n
  · subst hk
    rw [find?_forget] at h
    nomatch h
  · rwa [find?_forget_of_ne hk] at h

theorem forget_grows (s : Namespace) (n : Text) : s.Grows (s.forget n) :=
  ⟨Nat.le_refl _, fun _ _ h => .inl (find?_of_forget h)⟩

theorem withNew_grows (s : Namespace) (n : Text) : s.Grows (s.withNew n) := by
  have hlength : (s.withNew n).sizes.length = s.sizes.length + 1 := List.length_append
  refine ⟨by omega, fun k r hk => ?_⟩
  by_cases hkn : k = n
  · subst hkn
    rw [find?, withNew, List.lookup_cons_self] at hk
    cases hk
    exact .inr (by omega)
  · rw [find?_withNew_of_ne hkn] at hk
    exact .inl hk

variable [Platform]

theorem unlink_grows (s : Namespace) (name : Text) : s.Grows (s.unlink name) := by
  unfold unlink
  split
  · exact forget_grows s _
  · exact .refl s

theorem find?_of_resize (h : (s.resize n region size).space.find? k = some r) :
    s.find? k = some r := by
  have hcases := s.resize_cases n region size
  generalize s.resize n region size = g at hcases h
  cases hcases with
  | tooLarge _ => exact find?_of_forget h
  | unmapped _ _ =>
    have hsame := find?_of_forget h
    exact hsame
  | mapped _ _ => exact h

theorem length_sizes_resize (s : Namespace) (n : Text) (region size : Nat) :
    (s.resize n region size).space.sizes.length = s.sizes.length := by
  rcases sizes_resize s n region size with hsizes | hsizes
  · rw [hsizes]
  · rw [hsizes, List.length_set]

theorem resize_grows (s : Namespace) (n : Text) (region size : Nat) :
    s.Grows (s.resize n region size).space :=
  ⟨Nat.le_of_eq (length_sizes_resize s n region size).symm, fun _ _ h => .inl (find?_of_resize h)⟩

theorem create_grows (s : Namespace) (name : Text) (size : Nat) (exclusive unlinkFirst : Bool) :
    s.Grows (s.create name size exclusive unlinkFirst).space := by
  have hcleared (n : Text) : s.Grows (s.cleared n unlinkFirst) := by
    unfold cleared
    split
    · exact forget_grows s n
    · exact .refl s
  have hcases := s.create_cases name size exclusive unlinkFirst
  generalize s.create name size exclusive unlinkFirst = g at hcases ⊢
  cases hcases with
  | void _ => exact .refl s
  | inUse _ _ _ => exact hcleared _
  | opened _ _ _ _ => exact (hcleared _).trans (resize_grows ..)
  | fresh _ _ _ => exact (hcleared _).trans ((withNew_grows _ _).trans (resize_grows ..))

end Namespace

variable [Platform]

theorem Buffer.create_grows (s : Namespace) (name : Text) (length : Nat) :
    s.Grows (create s name length).1 := s.create_grows name length false true

theorem Buffer.release_grows (b : Buffer) (s : Namespace) : s.Grows (b.release s) := by
  unfold release
  split
  · exact s.unlink_grows b.name
  · exact .refl s

theorem Board.create_grows (s : Namespace) (host : Host) (name : Text) (valuesLength : Nat)
    (charset : Counters.Charset) (clock : Option Counters.Clock) (timeout : Int) (m : Memory) :
    s.Grows (create s host name valuesLength charset clock timeout m).space := by
  unfold create
  split
  · exact .refl s
  · have hasked := Buffer.create_grows s name (segmentLength
      (Word.offset (valuesLength * (Counters.Record.length / Counters.Slot.length))) valuesLength)
    dsimp only
    split
    · next h => rwa [h] at hasked
    · next s' b h =>
      rw [h] at hasked
      split
      · exact hasked.trans (b.release_grows s')
      · exact hasked

namespace World

variable {w : World} {host : Host} {m : Memory}

theorem dropBuffer_grows (w : World) (b : Nat) : w.space.Grows (w.dropBuffer b).space := by
  unfold dropBuffer
  split
  · exact .refl _
  · exact Buffer.release_grows _ _

theorem placeBuffer_grows (w : World) (b : Nat) (x : Buffer) :
    w.space.Grows (w.placeBuffer b x).space := w.dropBuffer_grows b

theorem dropBoard_grows (w : World) (host : Host) (m : Memory) (b : Nat) :
    w.space.Grows (w.dropBoard host m b).1.space := by
  unfold dropBoard
  split
  · exact .refl _
  · exact Buffer.release_grows _ _

theorem placeBoard_grows (host : Host) (m : Memory) (b : Nat) {c : Board.Creation}
    (h : w.space.Grows c.space) : w.space.Grows (w.placeBoard host m b c).world.space := by
  unfold placeBoard
  dsimp only
  split
  · exact h
  · exact h.trans (dropBoard_grows { w with space := c.space } host (m.storeAll c.writes) b)

theorem step_grows (w : World) (host : Host) (m : Memory) (c : Command) :
    w.space.Grows (w.step host m c).world.space := by
  cases c with
  | create h name size exclusive unlinkFirst =>
    cases name with
    | none => exact .refl _
    | some name => exact w.space.create_grows name size exclusive unlinkFirst
  | unlink name =>
    cases name with
    | none => exact .refl _
    | some name => exact w.space.unlink_grows name
  | attach _ _ | close _ | access _ _ => exact .refl _
  | createBuffer b name length =>
    have hasked := Buffer.create_grows w.space name length
    unfold step
    dsimp only
    split
    · next s' x h =>
      rw [h] at hasked
      exact hasked.trans (placeBuffer_grows { w with space := s' } b x)
    · next h => rwa [h] at hasked
  | attachBuffer b name =>
    unfold step
    dsimp only
    split
    · exact w.placeBuffer_grows b _
    · exact .refl _
  | moveBuffer b target =>
    have hdrop := w.dropBuffer_grows target
    unfold step
    dsimp only
    split <;> exact hdrop
  | assignBuffer b target =>
    unfold step
    dsimp only
    split
    · split
      · exact .refl _
      · exact Buffer.release_grows _ _
    · exact .refl _
  | dropBuffer b => exact w.dropBuffer_grows b
  | createBoard b name valuesLength charset clock timeout =>
    exact placeBoard_grows host m b (Board.create_grows ..)
  | configureBoard b d =>
    unfold step
    dsimp only
    split
    · exact .refl _
    · exact placeBoard_grows host m b (Board.create_grows ..)
  | attachBoard b name => exact placeBoard_grows host m b (.refl _)
  | moveBoard b target =>
    have hdrop := w.dropBoard_grows host m target
    unfold step
    dsimp only
    split
    · exact .refl _
    · split
      · exact .refl _
      · exact hdrop
  | dropBoard b => exact w.dropBoard_grows host m b
  | bufferState _ | accessBuffer _ _ | boardCapacity _ | boardState _ | call _ _ =>
    unfold step
    dsimp only
    split <;> exact .refl _

theorem run_grows (w : World) (host : Host) (m : Memory) (cs : List Command) :
    w.space.Grows (w.run host m cs).1.space := by
  induction cs generalizing w m with
  | nil => exact .refl _
  | cons c rest ih => exact (w.step_grows host m c).trans (ih _ _)

/-- Whatever was done before, a name leads to a segment that exists. -/
theorem run_placed (host : Host) (m : Memory) (cs : List Command) :
    (empty.run host m cs).1.space.Placed :=
  Namespace.placed_empty.grows (empty.run_grows host m cs)

end World

end Telemetry.Shared
