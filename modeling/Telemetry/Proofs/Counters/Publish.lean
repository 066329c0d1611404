import Telemetry.Proofs.Counters.Effect
import Telemetry.Proofs.Memory.Locality

namespace Telemetry.Counters

theorem Charset.encode_take (c : Charset) (t : Text) (n : Nat) :
    c.encode (t.take n) = (c.encode t).take n := by
  cases c
  · exact List.map_take
  · rfl

def Source.cut (s : Source) (limit : Nat) : List Byte :=
  (s.bytes.drop s.offset).take (min s.length limit)

namespace Request

def type : Request → Int
  | labelled type _ | keyed type _ _ | copied type _ _ => type

def storedLabel (c : Charset) : Request → Text
  | labelled _ label | keyed _ label _ => (c.encode label).take Record.maxLabelLength
  | copied _ _ label => label.cut Record.maxLabelLength

/-- What a request writes into a window of zeros that is to hold its key. -/
def storedKey (v : View) : Request → List Byte
  | labelled _ _ | copied _ none _ => List.replicate Record.keyLength 0
  | keyed _ _ key => v.bytes ((key.run v).run Memory.zero).1
  | copied _ (some s) _ =>
    let bs := s.cut Record.keyLength
    bs ++ List.replicate (Record.keyLength - bs.length) 0

end Request

namespace Monitor

/-- The label of an id is a text that fits into the record. -/
structure LabelIs (w : Monitor) (id : Int) (t : Text) (m : Memory) : Prop where
  fits : t.length ≤ Record.maxLabelLength
  length : w.labelLengthOf id m = t.length
  text : (w.metadata.slice (Record.offset id + Record.labelTextOffset) t.length).bytes m = t

variable {w : Monitor} {id : Int} {m m' : Memory} {t : Text}

theorem LabelIs.labelFits (h : w.LabelIs id t m) : w.LabelFits id m := by
  rw [LabelFits, h.length]
  exact ⟨Int.natCast_nonneg _, Int.ofNat_le.2 h.fits⟩

theorem LabelIs.labelOf_eq (h : w.LabelIs id t m) : w.labelOf id m = t := by
  rw [labelOf, h.length, Int.toNat_natCast]
  exact h.text

theorem labelIs_of_store (hfits : t.length ≤ Record.maxLabelLength)
    (htext : (w.metadata.slice (Record.offset id + Record.labelTextOffset) t.length).bytes m' = t)
    (hlength : w.labelLengthOf id m' = Word.wrap 4 t.length) : w.LabelIs id t m' := by
  have hmax : Record.maxLabelLength = 380 := rfl
  refine ⟨hfits, ?_, htext⟩
  rw [hlength, Word.wrap_natCast (by omega)]

/-- The record of an id holds what a request asks for, its state apart. -/
structure Filled (w : Monitor) (id : Int) (q : Request) (m : Memory) : Prop where
  type : w.typeOf id m = Word.wrap 4 q.type
  deadline : w.deadlineOf id m = Record.neverReusable
  key : (w.keyOf id).bytes m = q.storedKey (w.keyOf id)
  label : w.LabelIs id (q.storedLabel w.charset) m

end Monitor

namespace Registry

open Telemetry.Action Monitor View

variable {r : Registry} {m m' : Memory} {id : Int}

section Fields

variable (h : r.monitor.Paired) (hid : r.monitor.HasId id)
include h hid

theorem typeOf_of_putType {x : Int}
    (hrun : (r.putType (Record.offset id) x).run m = (m', .ok ())) :
    r.monitor.typeOf id m' = Word.wrap 4 x := by
  rw [run_putType (hid.record_le h)] at hrun
  obtain ⟨rfl, _⟩ := Prod.mk.inj hrun
  exact recordWordOf_store_self x

theorem deadlineOf_of_putDeadline {x : Int}
    (hrun : (r.putDeadline (Record.offset id) x).run m = (m', .ok ())) :
    r.monitor.deadlineOf id m' = Word.wrap 8 x := by
  rw [run_putDeadline (hid.record_le h)] at hrun
  obtain ⟨rfl, _⟩ := Prod.mk.inj hrun
  exact recordWordOf_store_self x

theorem labelIs_of_putLabel {t : Text}
    (hrun : (r.putLabel (Record.offset id) t).run m = (m', .ok ())) :
    r.monitor.LabelIs id ((r.monitor.charset.encode t).take Record.maxLabelLength) m' := by
  rw [run_putLabel (hid.record_le h)] at hrun
  obtain ⟨rfl, _⟩ := Prod.mk.inj hrun
  rw [← Charset.encode_take]
  change r.monitor.LabelIs id (r.labelBytes t) _
  apply labelIs_of_store
  · exact Int.ofNat_le.1 (r.length_labelBytes_le t)
  · refine (bytes_slice_store_of_apart (.inl ?_)).trans (bytes_slice_store_self ..)
    rw [Word.length_encode]
    exact Nat.le_refl _
  · exact recordWordOf_store_self _

theorem labelIs_of_copyLabel {s : Source} (hrun : (do
      r.monitor.metadata.put 4 (Record.offset id + Record.labelOffset)
        (min s.length Record.maxLabelLength)
      r.copySource (Record.offset id + Record.labelTextOffset) Record.maxLabelLength s).run m =
      (m', .ok ())) : r.monitor.LabelIs id (s.cut Record.maxLabelLength) m' := by
  obtain ⟨_, m₁, hlength, hcopy⟩ := run_bind_eq_ok hrun
  rw [run_put (Record.field_le (by decide) (hid.record_le h))] at hlength
  obtain ⟨rfl, _⟩ := Prod.mk.inj hlength
  obtain ⟨hsource, rfl⟩ := run_copyBytes_eq_ok hcopy
  have hlen : (s.cut Record.maxLabelLength).length = min s.length Record.maxLabelLength := by
    rw [Source.cut, List.length_take, List.length_drop]
    omega
  apply labelIs_of_store
  · rw [hlen]
    exact Nat.min_le_right ..
  · exact bytes_slice_store_self ..
  · have hbefore : Record.labelOffset + 4 ≤ Record.labelTextOffset := Nat.le_refl _
    rw [labelLengthOf, recordWordOf_store_of_apart rfl (.inr hbefore), recordWordOf_store_self,
      hlen]
    congr 1
    omega

variable (hkey : (r.monitor.keyOf id).bytes m = List.replicate Record.keyLength 0)
include hkey

/-- A script finds a window of zeros, so it writes what it would write into zeroed memory. -/
theorem keyOf_of_runKey {k : Script}
    (hrun : (r.runKey (Record.offset id) k).run m = (m', .ok ())) :
    (r.monitor.keyOf id).bytes m' =
      (r.monitor.keyOf id).bytes ((k.run (r.monitor.keyOf id)).run Memory.zero).1 := by
  unfold runKey at hrun
  rw [sub_of_le (Record.field_le (by decide) (hid.record_le h))] at hrun
  have hzero : (r.monitor.keyOf id).bytes m = (r.monitor.keyOf id).bytes Memory.zero :=
    hkey.trans (bytes_zero (r.monitor.keyOf id)).symm
  have hsame := (k.run_sees (r.monitor.keyOf id)).bytes_run hzero
  have hm : ((k.run (r.monitor.keyOf id)).run m).1 = m' := (Prod.mk.inj hrun).1
  rwa [hm] at hsame

omit h hid in
theorem keyOf_of_copyKey {key : Option Source} {type : Int} {label : Source}
    (hrun : (r.copyKey (Record.offset id) key).run m = (m', .ok ())) :
    (r.monitor.keyOf id).bytes m' =
      (Request.copied type key label).storedKey (r.monitor.keyOf id) := by
  cases key with
  | none =>
    obtain ⟨rfl, _⟩ := Prod.mk.inj hrun
    exact hkey
  | some s =>
    obtain ⟨hsource, rfl⟩ := run_copyBytes_eq_ok hrun
    have hlen : (s.cut Record.keyLength).length ≤ Record.keyLength := by
      rw [Source.cut, List.length_take]
      omega
    have hinside : (r.monitor.metadata.slice
        (Record.offset id + Record.keyOffset + (s.cut Record.keyLength).length)
        (Record.keyLength - (s.cut Record.keyLength).length)).Inside (r.monitor.keyOf id) :=
      slice_inside_slice (Nat.le_add_right ..) (by omega)
    have hrest := bytes_of_zero hkey hinside
    exact (bytes_slice_store_front hlen).trans (congrArg _ hrest)

omit h hid hkey in
theorem filled_of_label {q : Request} (htype : r.monitor.typeOf id m = Word.wrap 4 q.type)
    (hdeadline : r.monitor.deadlineOf id m = Record.neverReusable)
    (hk : (r.monitor.keyOf id).bytes m = q.storedKey (r.monitor.keyOf id))
    (hc : (r.labelPart (Record.offset id)).Confines m m')
    (hlabel : r.monitor.LabelIs id (q.storedLabel r.monitor.charset) m') :
    r.monitor.Filled id q m' :=
  ⟨(recordWordOf_of_apart hc (by decide)).trans htype,
    (recordWordOf_of_apart hc (by decide)).trans hdeadline,
    (keyOf_of_apart hc (by decide)).trans hk, hlabel⟩

theorem filled_of_describe {q : Request}
    (hrun : (r.describe (Record.offset id) q).run m = (m', .ok ())) :
    r.monitor.Filled id q m' := by
  -- No two parts share a byte, so what was written is left alone by all that follows.
  cases q with
  | labelled type label =>
    obtain ⟨_, m₁, htype, hrun⟩ := run_bind_eq_ok hrun
    obtain ⟨_, m₂, hdeadline, hlabel⟩ := run_bind_eq_ok hrun
    have c₁ := (put_within _ _ _ _).confines_of_run htype
    have c₂ := (put_within _ _ _ _).confines_of_run hdeadline
    have c₃ := (putLabel_within _ _).confines_of_run hlabel
    refine filled_of_label ?type ?deadline ?key c₃ (labelIs_of_putLabel h hid hlabel)
    case type => exact (recordWordOf_of_apart c₂ (by decide)).trans (typeOf_of_putType h hid htype)
    case deadline => exact deadlineOf_of_putDeadline h hid hdeadline
    case key =>
      calc (r.monitor.keyOf id).bytes m₂ = (r.monitor.keyOf id).bytes m₁ :=
          keyOf_of_apart c₂ (by decide)
        _ = (r.monitor.keyOf id).bytes m := keyOf_of_apart c₁ (by decide)
        _ = List.replicate Record.keyLength 0 := hkey
  | keyed type label key =>
    obtain ⟨_, m₁, htype, hrun⟩ := run_bind_eq_ok hrun
    obtain ⟨_, m₂, hscript, hrun⟩ := run_bind_eq_ok hrun
    obtain ⟨_, m₃, hdeadline, hlabel⟩ := run_bind_eq_ok hrun
    have c₁ := (put_within _ _ _ _).confines_of_run htype
    have c₂ := (runKey_within _ _).confines_of_run hscript
    have c₃ := (put_within _ _ _ _).confines_of_run hdeadline
    have c₄ := (putLabel_within _ _).confines_of_run hlabel
    have hzero : (r.monitor.keyOf id).bytes m₁ = List.replicate Record.keyLength 0 :=
      (keyOf_of_apart c₁ (by decide)).trans hkey
    refine filled_of_label ?type ?deadline ?key c₄ (labelIs_of_putLabel h hid hlabel)
    case type =>
      calc r.monitor.typeOf id m₃ = r.monitor.typeOf id m₂ := recordWordOf_of_apart c₃ (by decide)
        _ = r.monitor.typeOf id m₁ := recordWordOf_of_apart c₂ (by decide)
        _ = Word.wrap 4 type := typeOf_of_putType h hid htype
    case deadline => exact deadlineOf_of_putDeadline h hid hdeadline
    case key => exact (keyOf_of_apart c₃ (by decide)).trans (keyOf_of_runKey h hid hzero hscript)
  | copied type key label =>
    obtain ⟨_, m₁, htype, hrun⟩ := run_bind_eq_ok hrun
    obtain ⟨_, m₂, hdeadline, hrun⟩ := run_bind_eq_ok hrun
    obtain ⟨_, m₃, hcopy, hlabel⟩ := run_bind_eq_ok hrun
    have c₁ := (put_within _ _ _ _).confines_of_run htype
    have c₂ := (put_within _ _ _ _).confines_of_run hdeadline
    have c₃ := (copyKey_within _ _).confines_of_run hcopy
    have c₄ := (copyLabel_within _ _).confines_of_run hlabel
    have hzero : (r.monitor.keyOf id).bytes m₂ = List.replicate Record.keyLength 0 :=
      (keyOf_of_apart c₂ (by decide)).trans ((keyOf_of_apart c₁ (by decide)).trans hkey)
    refine filled_of_label ?type ?deadline ?key c₄ (labelIs_of_copyLabel h hid hlabel)
    case type =>
      calc r.monitor.typeOf id m₃ = r.monitor.typeOf id m₂ := recordWordOf_of_apart c₃ (by decide)
        _ = r.monitor.typeOf id m₁ := recordWordOf_of_apart c₂ (by decide)
        _ = Word.wrap 4 type := typeOf_of_putType h hid htype
    case deadline =>
      exact (recordWordOf_of_apart c₃ (by decide)).trans (deadlineOf_of_putDeadline h hid hdeadline)
    case key => exact keyOf_of_copyKey hzero hcopy

theorem filled_of_publish {q : Request}
    (hrun : (r.publish (Record.offset id) q).run m = (m', .ok ())) :
    r.monitor.Filled id q m' ∧ r.monitor.stateOf id m' = Record.allocated := by
  have hstate := stateOf_of_publish h hid hrun
  rw [publish_eq] at hrun
  obtain ⟨_, m₁, hdescribe, hput⟩ := run_bind_eq_ok hrun
  obtain ⟨htype, hdeadline, hk, hlabel⟩ := filled_of_describe h hid hkey hdescribe
  have hc : (r.monitor.metadata.slice (Record.offset id + 0) 4).Confines m₁ m' :=
    (putState_within _ _).confines_of_run hput
  refine ⟨⟨?type, ?deadline, ?key, ⟨hlabel.fits, ?length, ?text⟩⟩, hstate⟩
  case type => exact (recordWordOf_of_apart hc (by decide)).trans htype
  case deadline => exact (recordWordOf_of_apart hc (by decide)).trans hdeadline
  case key => exact (keyOf_of_apart hc (by decide)).trans hk
  case length => exact (recordWordOf_of_apart hc (by decide)).trans hlabel.length
  case text => exact (hc _ (apart_field (.inl (by decide)))).trans hlabel.text

end Fields

end Registry

end Telemetry.Counters
