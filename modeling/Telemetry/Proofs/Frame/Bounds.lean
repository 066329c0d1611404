import Telemetry.Proofs.Frame.Codec
import Telemetry.Proofs.View.Range

namespace Telemetry.Frame

variable {k : FrameKind} {f : Frame} {x : Field}

/-- The window that an access to a field reads or writes if it is not refused. -/
def touched (f : Frame) (x : Field) : View := f.view.slice (f.index x) x.size

def Fits (f : Frame) (x : Field) : Prop := f.index x + x.size ≤ f.view.capacity

instance (f : Frame) (x : Field) : Decidable (f.Fits x) := inferInstanceAs (Decidable (_ ≤ _))

theorem index_of_lt (h : f.offset + x.offset < 0x10000000000000000) :
    f.index x = f.offset + x.offset := by
  simp only [index, Word.offset]
  omega

/-- One turn is lost where the sum of the offsets is no word any more. -/
theorem index_of_le (word : f.offset < 0x10000000000000000) (small : x.offset < 0x10000000000000000)
    (h : 0x10000000000000000 ≤ f.offset + x.offset) :
    f.index x + 0x10000000000000000 = f.offset + x.offset := by
  simp only [index, Word.offset]
  omega

section Access

variable (m : Memory)

theorem get_of_fits (h : f.Fits x) : f.get x m = .ok (x.decode ((f.touched x).bytes m)) := by
  unfold get
  exact Query.bind_ok _ (View.load_of_le h m)

theorem get_of_not_fits (h : ¬ f.Fits x) :
    f.get x m = .error (.outOfBounds (f.index x) x.size f.view.capacity) := by
  have hload := View.load_of_lt (Nat.lt_of_not_le h) m
  change (f.view.load (f.index x) x.size m >>= _) = _
  rw [hload]
  rfl

theorem run_set_of_fits (h : f.Fits x) (value : Int) :
    (f.set x value).run m =
      (m.store (f.view.writeAt (f.index x) (Word.encode x.size value)), .ok ()) := by
  apply View.run_store
  rwa [Word.length_encode]

theorem run_set_of_not_fits (h : ¬ f.Fits x) (value : Int) :
    (f.set x value).run m = (m, .error (.outOfBounds (f.index x) x.size f.view.capacity)) := by
  have hplan : f.set x value m = ⟨[], .error (.outOfBounds (f.index x) x.size f.view.capacity)⟩ :=
    View.put_refused (Nat.lt_of_not_le h) value m
  rw [Action.run, hplan]
  rfl

end Access

/-- What stands between a field and memory: whether it is read and set, whatever the memory and the
value, is decided by its index alone; a refusal names the range and changes nothing; and no byte
outside of the range is looked at or changed. -/
structure Guarded (f : Frame) (x : Field) : Prop where
  answers : ∀ m, (∃ value, f.get x m = .ok value) ↔ f.Fits x
  accepts : ∀ m value, ((f.set x value).run m).2 = .ok () ↔ f.Fits x
  refused : ¬ f.Fits x → ∀ m,
    f.get x m = .error (.outOfBounds (f.index x) x.size f.view.capacity) ∧
    ∀ value, (f.set x value).run m =
      (m, .error (.outOfBounds (f.index x) x.size f.view.capacity))
  inside : f.Fits x → (f.touched x).Inside f.view
  sees : ∀ m m', (f.touched x).bytes m = (f.touched x).bytes m' → f.get x m = f.get x m'
  confines : ∀ m value, (f.touched x).Confines m ((f.set x value).run m).1

theorem guarded (f : Frame) (x : Field) : f.Guarded x where
  answers := by
    intro m
    by_cases h : f.Fits x
    · exact iff_of_true ⟨_, get_of_fits m h⟩ h
    · refine iff_of_false (fun ⟨value, hget⟩ => ?_) h
      rw [get_of_not_fits m h] at hget
      cases hget
  accepts := by
    intro m value
    by_cases h : f.Fits x
    · rw [run_set_of_fits m h]
      exact iff_of_true rfl h
    · rw [run_set_of_not_fits m h]
      exact iff_of_false (fun heq => nomatch heq) h
  refused := fun h m => ⟨get_of_not_fits m h, run_set_of_not_fits m h⟩
  inside := fun h => View.slice_inside h
  sees := by
    intro m m' hsame
    by_cases h : f.Fits x
    · rw [get_of_fits m h, get_of_fits m' h, hsame]
    · rw [get_of_not_fits m h, get_of_not_fits m' h]
  confines := by
    intro m value u hu
    by_cases h : f.Fits x
    · rw [run_set_of_fits m h]
      apply View.bytes_store View.covers_writeAt
      rwa [Word.length_encode]
    · rw [run_set_of_not_fits m h]

/-- Every access to a field of a frame is guarded, whatever the offset. Where the sum of the offsets
does not wrap it succeeds exactly if the field lies in the view in its place, and touches nothing
before the frame. Where the sum wraps it succeeds exactly if the field lies in the view one turn
before its place, and then touches only what lies before the frame. -/
theorem access_bounds (word : f.offset < 0x10000000000000000) (x : k.Member) :
    f.Guarded x.field ∧
    (f.offset + x.field.offset < 0x10000000000000000 →
      (f.Fits x.field ↔ f.offset + x.field.offset + x.field.size ≤ f.view.capacity) ∧
      f.view.base + f.offset ≤ (f.touched x.field).base) ∧
    (0x10000000000000000 ≤ f.offset + x.field.offset →
      (f.Fits x.field ↔
        f.offset + x.field.offset + x.field.size ≤ f.view.capacity + 0x10000000000000000) ∧
      (f.touched x.field).base + x.field.size ≤ f.view.base + f.offset) := by
  have hinside := x.inside
  have hlength : k.headerLength ≤ 40 := by
    cases k <;> decide
  refine ⟨guarded f x.field, fun hlt => ?_, fun hle => ?_⟩
  · have hindex := index_of_lt hlt
    simp only [Fits, touched, View.slice]
    omega
  · have hindex := index_of_le word (by omega) hle
    simp only [Fits, touched, View.slice]
    omega

/-- The stream of a status message whose offset is the last one at which this field is in its place,
and the receiver of the same frame, which is found at the front of the view. -/
theorem access_bounds_edge :
    let f : Frame := ⟨⟨0, 16, 32⟩, 0xFFFFFFFFFFFFFFF0⟩
    let stream : FrameKind.status.Member := ⟨.streamId, FrameKind.int32 12, by decide⟩
    let receiver : FrameKind.status.Member := ⟨.receiverId, FrameKind.int64 28, by decide⟩
    f.offset < 0x10000000000000000 ∧
      (∀ m, f.get stream.field m = .error (.outOfBounds 0xFFFFFFFFFFFFFFFC 4 32)) ∧
      ∀ m, ∃ value, f.get receiver.field m = .ok value := by
  intro f stream receiver
  have word : f.offset < 0x10000000000000000 := by decide
  obtain ⟨hstream, -, -⟩ := access_bounds word stream
  obtain ⟨hreceiver, -, hwraps⟩ := access_bounds word receiver
  have hfits : f.Fits receiver.field := (hwraps (by decide)).1.2 (by decide)
  exact ⟨word, fun m => (hstream.refused (by decide) m).1, fun m => (hreceiver.answers m).2 hfits⟩

/-- With an offset near the end of the words a field that should lie behind the view is read and set
at its front, before the frame. -/
theorem access_before_frame :
    let f : Frame := ⟨⟨0, 0, 32⟩, 0xFFFFFFFFFFFFFFF8⟩
    let session : FrameKind.nak.Member := ⟨.sessionId, FrameKind.int32 8, by decide⟩
    f.offset < 0x10000000000000000 ∧
      ¬ f.offset + session.field.offset + session.field.size ≤ f.view.capacity ∧
      f.get session.field .zero = .ok 0 ∧
      ((f.set session.field 7).run .zero).2 = .ok () ∧
      ((f.set session.field 7).run .zero).1.byte 0 0 = 7 ∧
      f.touched session.field = ⟨0, 0, 4⟩ := by
  intro f session
  have hfits : f.Fits session.field := by decide
  have htouched : f.touched session.field = ⟨0, 0, 4⟩ := by decide
  have hwrite : f.view.writeAt (f.index session.field) (Word.encode session.field.size 7) =
      ⟨0, 0, [7, 0, 0, 0]⟩ := by decide
  have hdecode : session.field.decode (List.replicate 4 0) = 0 := by decide
  refine ⟨by decide, by decide, ?_, ?_, ?_, htouched⟩
  · rw [get_of_fits _ hfits, View.bytes_zero, htouched, hdecode]
  · rw [run_set_of_fits _ hfits]
  · rw [run_set_of_fits _ hfits, hwrite]
    rfl

end Telemetry.Frame
