import Telemetry.Frame
import Telemetry.Proofs.Memory.Footprint

namespace Telemetry

theorem Query.mapM_ok {α β : Type} {q : α → Query β} {answer : α → β} {m : Memory}
    (h : ∀ a, q a m = .ok (answer a)) (xs : List α) : xs.mapM q m = .ok (xs.map answer) := by
  induction xs with
  | nil => rfl
  | cons a rest ih =>
    rw [List.mapM_cons]
    refine (Query.bind_ok _ (h a)).trans ?_
    exact Query.bind_ok _ ih

namespace View

variable {u v : View} {m m' : Memory}

theorem eq_of_single_bytes (h : ∀ u : View, u.capacity = 1 → u.bytes m = u.bytes m') : m = m' := by
  obtain ⟨byte⟩ := m
  obtain ⟨byte'⟩ := m'
  congr
  funext r i
  exact byte_eq_of_bytes_eq (h ⟨r, i, 1⟩ rfl) Nat.zero_lt_one

theorem byte_of_zero {i : Nat} (h : u.bytes m = List.replicate u.capacity 0)
    (hi : i < u.capacity) : m.byte u.region (u.base + i) = 0 :=
  byte_eq_of_bytes_eq (h.trans (bytes_zero u).symm) hi

theorem inside_of_not_apart (hu : u.capacity = 1) (h : ¬ v.Apart u) : u.Inside v := by
  simp only [Apart, not_or, Decidable.not_not] at h
  obtain ⟨hregion, hbefore, hbehind⟩ := h
  exact ⟨hregion.symm, by omega, by omega⟩

end View

namespace FrameKind

structure Member (k : FrameKind) where
  name : FieldName
  field : Field
  listed : (name, field) ∈ k.fields

def members (k : FrameKind) : List k.Member :=
  k.fields.attach.map fun x => ⟨x.val.1, x.val.2, x.property⟩

/-- The bytes of the fixed part that belong to no field: a NAK is padded at its end. -/
def reserved : FrameKind → List Nat
  | nak => [28, 29, 30, 31]
  | _ => []

variable {k : FrameKind}

theorem Member.inside (x : k.Member) : x.field.offset + x.field.size ≤ k.headerLength := by
  have hall : ∀ y ∈ k.fields, y.2.offset + y.2.size ≤ k.headerLength := by
    cases k <;> decide
  exact hall _ x.listed

theorem Member.apart (x y : k.Member) (h : x.name ≠ y.name) :
    x.field.offset + x.field.size ≤ y.field.offset ∨
      y.field.offset + y.field.size ≤ x.field.offset := by
  have hall : ∀ x ∈ k.fields, ∀ y ∈ k.fields, x.1 ≠ y.1 →
      x.2.offset + x.2.size ≤ y.2.offset ∨ y.2.offset + y.2.size ≤ x.2.offset := by
    cases k <;> decide
  exact hall _ x.listed _ y.listed h

theorem Member.field_eq (x y : k.Member) (h : x.name = y.name) : x.field = y.field := by
  have hall : ∀ x ∈ k.fields, ∀ y ∈ k.fields, x.1 = y.1 → x.2 = y.2 := by
    cases k <;> decide
  exact hall _ x.listed _ y.listed h

theorem Member.ext_name {x y : k.Member} (h : x.name = y.name) : x = y := by
  have hfield := x.field_eq y h
  cases x
  cases y
  cases h
  cases hfield
  rfl

theorem mem_members (x : k.Member) : x ∈ k.members := by
  simp only [members, List.mem_map]
  exact ⟨⟨(x.name, x.field), x.listed⟩, List.mem_attach .., rfl⟩

theorem exists_member_of_not_reserved {i : Nat} (h : i < k.headerLength) (hi : i ∉ k.reserved) :
    ∃ x : k.Member, x.field.offset ≤ i ∧ i < x.field.offset + x.field.size := by
  have hall : ∀ i < k.headerLength, i ∉ k.reserved →
      ∃ x ∈ k.fields, x.2.offset ≤ i ∧ i < x.2.offset + x.2.size := by
    cases k <;> decide
  obtain ⟨x, hx, hin⟩ := hall i h hi
  exact ⟨⟨x.1, x.2, hx⟩, hin⟩

theorem Member.not_reserved (x : k.Member) {i : Nat} (hi : i ∈ k.reserved) :
    i < x.field.offset ∨ x.field.offset + x.field.size ≤ i := by
  have hall : ∀ y ∈ k.fields, ∀ i ∈ k.reserved, i < y.2.offset ∨ y.2.offset + y.2.size ≤ i := by
    cases k <;> decide
  exact hall _ x.listed i hi

end FrameKind

namespace Field

def decode (x : Field) (bs : List Byte) : Int :=
  if x.isSigned then Word.signed bs else Word.unsigned bs

def cut (x : Field) (value : Int) : Int :=
  if x.isSigned then Word.wrap x.size value else value % (Word.modulus x.size : Int)

def Represents (x : Field) (value : Int) : Prop :=
  if x.isSigned then -(Word.modulus x.size : Int) ≤ value * 2 ∧ value * 2 < Word.modulus x.size
  else 0 ≤ value ∧ value < Word.modulus x.size

instance (x : Field) (value : Int) : Decidable (x.Represents value) :=
  inferInstanceAs (Decidable (if x.isSigned then _ else _))

theorem decode_encode (x : Field) (value : Int) :
    x.decode (Word.encode x.size value) = x.cut value := by
  unfold decode cut
  split
  · exact Word.signed_encode x.size value
  · exact Word.unsigned_encode x.size value

theorem cut_of_represents {x : Field} {value : Int} (h : x.Represents value) :
    x.cut value = value := by
  unfold Represents at h
  unfold cut
  split
  · next hsigned =>
    rw [if_pos hsigned] at h
    exact Int.bmod_eq_of_le_mul_two h.1 h.2
  · next hunsigned =>
    rw [if_neg hunsigned] at h
    exact Int.emod_eq_of_lt h.1 h.2

theorem encode_decode {x : Field} {bs : List Byte} (h : bs.length = x.size) :
    Word.encode x.size (x.decode bs) = bs := by
  rw [← h]
  unfold decode
  split
  · exact Word.encode_signed bs
  · exact Word.encode_unsigned bs

end Field

namespace Frame

variable {k : FrameKind} {f g : Frame} {m m' : Memory}

def place (f : Frame) (x : Field) : View := f.view.slice (f.offset + x.offset) x.size

def fixedPart (f : Frame) (k : FrameKind) : View := f.view.slice f.offset k.headerLength

/-- The whole fixed part lies inside the view, whose capacity is an unsigned word of eight bytes. -/
structure HasRoom (f : Frame) (k : FrameKind) : Prop where
  room : f.offset + k.headerLength ≤ f.view.capacity
  word : f.view.capacity < 0x10000000000000000

/-- Two frames start at the same byte, whatever views they are in. -/
def SamePlace (f g : Frame) : Prop :=
  f.view.region = g.view.region ∧ f.view.base + f.offset = g.view.base + g.offset

theorem place_eq_of_samePlace (h : g.SamePlace f) (x : Field) : g.place x = f.place x := by
  obtain ⟨hregion, hbase⟩ := h
  simp only [place, View.slice, hregion]
  congr 1
  omega

theorem place_apart (f : Frame) {x y : k.Member} (h : x.name ≠ y.name) :
    (f.place x.field).Apart (f.place y.field) := by
  have hapart := x.apart y h
  apply View.apart_slice
  omega

section Access

variable (h : f.HasRoom k) (x : k.Member)
include h

theorem HasRoom.index_eq : f.index x.field = f.offset + x.field.offset := by
  have hinside := x.inside
  have hroom := h.room
  have hword := h.word
  simp only [index, Word.offset]
  omega

theorem HasRoom.get_eq (m : Memory) :
    f.get x.field m = .ok (x.field.decode ((f.place x.field).bytes m)) := by
  have hinside := x.inside
  have hroom := h.room
  have hload : f.view.load (f.index x.field) x.field.size m =
      .ok ((f.place x.field).bytes m) := by
    rw [h.index_eq]
    exact View.load_of_le (by omega) m
  unfold get
  exact Query.bind_ok _ hload

theorem HasRoom.run_set (value : Int) (m : Memory) :
    (f.set x.field value).run m =
      (m.store (f.view.writeAt (f.offset + x.field.offset) (Word.encode x.field.size value)),
        .ok ()) := by
  have hinside := x.inside
  have hroom := h.room
  rw [set, h.index_eq]
  apply View.run_store
  rw [Word.length_encode]
  omega

end Access

def setAll (f : Frame) : List (k.Member × Int) → Action Unit
  | [] => return ()
  | (x, value) :: rest => do
    f.set x.field value
    f.setAll rest

/-- The value that a field was given last. -/
def lastValue (name : FieldName) : List (k.Member × Int) → Option Int
  | [] => none
  | (x, value) :: rest => (lastValue name rest).or (if x.name = name then some value else none)

def readAll (f : Frame) (k : FrameKind) : Query (List (k.Member × Int)) :=
  k.members.mapM fun x => do return (x, ← f.get x.field)

theorem lastValue_cons_self {x : k.Member} {value : Int} {rest : List (k.Member × Int)}
    (h : lastValue x.name rest = none) : lastValue x.name ((x, value) :: rest) = some value := by
  rw [lastValue, h, if_pos rfl]
  rfl

theorem lastValue_cons_of_ne {name : FieldName} {x : k.Member} {value : Int}
    {rest : List (k.Member × Int)} (h : x.name ≠ name) :
    lastValue name ((x, value) :: rest) = lastValue name rest := by
  rw [lastValue, if_neg h, Option.or_none]

theorem lastValue_cons_of_some {name : FieldName} {x : k.Member} {value last : Int}
    {rest : List (k.Member × Int)} (h : lastValue name rest = some last) :
    lastValue name ((x, value) :: rest) = some last := by
  rw [lastValue, h]
  rfl

/-- A memory after settings: every field that was set has its last value, and all else is as it was
before. -/
structure Written (f : Frame) (settings : List (k.Member × Int)) (m m' : Memory) : Prop where
  set : ∀ (x : k.Member) (value : Int), lastValue x.name settings = some value →
    (f.place x.field).bytes m' = Word.encode x.field.size value
  kept : ∀ u : View, (∀ x : k.Member, lastValue x.name settings ≠ none →
    (f.place x.field).Apart u) → u.bytes m' = u.bytes m

/-- A first setting shows where no later one gives its field another value. -/
theorem Written.cons {x : k.Member} {value : Int} {rest : List (k.Member × Int)}
    (h : f.Written rest
      (m.store (f.view.writeAt (f.offset + x.field.offset) (Word.encode x.field.size value))) m') :
    f.Written ((x, value) :: rest) m m' := by
  have hself : (f.place x.field).bytes
      (m.store (f.view.writeAt (f.offset + x.field.offset) (Word.encode x.field.size value))) =
        Word.encode x.field.size value := by
    have hstored := View.bytes_slice_store_self f.view (f.offset + x.field.offset)
      (Word.encode x.field.size value) m
    rwa [Word.length_encode] at hstored
  have hother (u : View) (hu : (f.place x.field).Apart u) : u.bytes
      (m.store (f.view.writeAt (f.offset + x.field.offset) (Word.encode x.field.size value))) =
        u.bytes m := by
    apply View.bytes_store View.covers_writeAt
    rwa [Word.length_encode]
  constructor
  · intro y last hlast
    cases hrest : lastValue y.name rest with
    | some later =>
      rw [lastValue_cons_of_some hrest] at hlast
      rw [h.set y later hrest, Option.some.inj hlast]
    | none =>
      by_cases hname : x.name = y.name
      · -- no later setting touches the field
        cases FrameKind.Member.ext_name hname
        rw [lastValue_cons_self hrest] at hlast
        rw [← Option.some.inj hlast, h.kept, hself]
        intro z hz
        apply f.place_apart
        intro hzx
        rw [hzx] at hz
        exact hz hrest
      · rw [lastValue_cons_of_ne hname, hrest] at hlast
        nomatch hlast
  · intro u hu
    rw [h.kept u, hother u]
    · apply hu
      simp [lastValue]
    · intro z hz
      apply hu
      simp [lastValue, hz]

theorem Written.unique {settings others : List (k.Member × Int)} {m₁ m₂ : Memory}
    (h₁ : f.Written settings m m₁) (h₂ : f.Written others m m₂)
    (hlast : ∀ x : k.Member, lastValue x.name others = lastValue x.name settings) : m₁ = m₂ := by
  apply View.eq_of_single_bytes
  intro u hu
  -- a byte lies in a field that was set, or in none of them
  by_cases hset : ∃ x : k.Member, lastValue x.name settings ≠ none ∧ ¬ (f.place x.field).Apart u
  · obtain ⟨x, hx, hnot⟩ := hset
    obtain ⟨value, hvalue⟩ := Option.ne_none_iff_exists'.1 hx
    apply View.bytes_mono (View.inside_of_not_apart hu hnot)
    rw [h₁.set x value hvalue, h₂.set x value ((hlast x).trans hvalue)]
  · have hapart (x : k.Member) (hx : lastValue x.name settings ≠ none) :
        (f.place x.field).Apart u := Decidable.not_not.1 fun hnot => hset ⟨x, hx, hnot⟩
    rw [h₁.kept u hapart, h₂.kept u]
    intro x hx
    exact hapart x (hlast x ▸ hx)

theorem HasRoom.run_setAll (h : f.HasRoom k) (settings : List (k.Member × Int)) (m : Memory) :
    ∃ m', (f.setAll settings).run m = (m', .ok ()) ∧ f.Written settings m m' := by
  induction settings generalizing m with
  | nil => exact ⟨m, rfl, fun _ _ hlast => (nomatch hlast), fun _ _ => rfl⟩
  | cons setting rest ih =>
    obtain ⟨x, value⟩ := setting
    obtain ⟨m', hrun, hwritten⟩ := ih
      (m.store (f.view.writeAt (f.offset + x.field.offset) (Word.encode x.field.size value)))
    exact ⟨m', (Action.run_bind_ok _ (h.run_set x value m)).trans hrun, hwritten.cons⟩

/-- Who reads at the same place finds the last value, or what was there before the settings. -/
theorem Written.get {settings : List (k.Member × Int)} (h : f.Written settings m m')
    (hroom : g.HasRoom k) (hplace : g.SamePlace f) (x : k.Member) :
    g.get x.field m' =
      .ok ((lastValue x.name settings).elim (x.field.decode ((f.place x.field).bytes m))
        x.field.cut) := by
  rw [hroom.get_eq, place_eq_of_samePlace hplace]
  cases hlast : lastValue x.name settings with
  | none =>
    rw [h.kept, Option.elim_none]
    intro y hy
    apply f.place_apart
    intro hname
    exact hy (hname ▸ hlast)
  | some value => rw [h.set x value hlast, Field.decode_encode, Option.elim_some]

theorem HasRoom.readAll_eq (h : g.HasRoom k) (m : Memory) :
    g.readAll k m =
      .ok (k.members.map fun x => (x, x.field.decode ((g.place x.field).bytes m))) := by
  apply Query.mapM_ok
  intro x
  exact Query.bind_ok _ (h.get_eq x m)

theorem lastValue_eq_none {name : FieldName} {settings : List (k.Member × Int)}
    (h : ∀ setting ∈ settings, setting.1.name ≠ name) : lastValue name settings = none := by
  induction settings with
  | nil => rfl
  | cons setting rest ih =>
    rw [lastValue_cons_of_ne (h setting List.mem_cons_self)]
    exact ih fun later hlater => h later (List.mem_cons_of_mem _ hlater)

theorem lastValue_map (value : k.Member → Int) {xs : List k.Member} {x : k.Member} (hx : x ∈ xs) :
    lastValue x.name (xs.map fun y => (y, value y)) = some (value x) := by
  induction xs with
  | nil => nomatch hx
  | cons y rest ih =>
    by_cases hrest : x ∈ rest
    · exact lastValue_cons_of_some (ih hrest)
    · have hxy : x = y := (List.mem_cons.1 hx).resolve_right hrest
      subst hxy
      apply lastValue_cons_self
      apply lastValue_eq_none
      intro setting hsetting hname
      obtain ⟨z, hz, rfl⟩ := List.mem_map.1 hsetting
      exact hrest (FrameKind.Member.ext_name hname ▸ hz)

theorem Written.bytes_of_readings {source : Memory} {readings : List (k.Member × Int)}
    (h : f.Written readings m m') (hroom : g.HasRoom k)
    (hread : g.readAll k source = .ok readings) (x : k.Member) :
    (f.place x.field).bytes m' = (g.place x.field).bytes source := by
  rw [hroom.readAll_eq] at hread
  cases hread
  rw [h.set x _ (lastValue_map _ (FrameKind.mem_members x))]
  exact Field.encode_decode (View.length_bytes ..)

theorem byte_eq_of_place {source : Memory} {x : k.Member} {i : Nat}
    (h : (f.place x.field).bytes m = (g.place x.field).bytes source)
    (hlow : x.field.offset ≤ i) (hhigh : i < x.field.offset + x.field.size) :
    m.byte f.view.region (f.view.base + f.offset + i) =
      source.byte g.view.region (g.view.base + g.offset + i) := by
  have hget := congrArg (fun bs => bs[i - x.field.offset]?) h
  have hin : i - x.field.offset < x.field.size := by omega
  have hplace (frame : Frame) :
      frame.view.base + (frame.offset + x.field.offset) + (i - x.field.offset) =
        frame.view.base + frame.offset + i := by
    omega
  simpa [View.bytes, Memory.load, place, View.slice, hin, hplace] using hget

/-- Settings leave the last value of each field they set and nothing else, so only the last values
count; who reads at the same place finds them, exactly where the field can hold them. What is read
of a whole frame, set on a zeroed one, gives the same frame with its reserved bytes zeroed. -/
theorem setAll_codec (h : f.HasRoom k) (m : Memory) :
    (∀ settings : List (k.Member × Int), ∃ m', (f.setAll settings).run m = (m', .ok ()) ∧
      f.Written settings m m' ∧
      (∀ others : List (k.Member × Int),
        (∀ x : k.Member, lastValue x.name others = lastValue x.name settings) →
          (f.setAll others).run m = (m', .ok ())) ∧
      ∀ g : Frame, g.HasRoom k → g.SamePlace f → ∀ x : k.Member,
        (lastValue x.name settings = none → g.get x.field m' = g.get x.field m) ∧
        ∀ value, lastValue x.name settings = some value →
          g.get x.field m' = .ok (x.field.cut value) ∧
          (x.field.Represents value → g.get x.field m' = .ok value)) ∧
    ((f.fixedPart k).bytes m = List.replicate k.headerLength 0 →
      ∀ (g : Frame) (source : Memory), g.HasRoom k →
        ∃ readings m', g.readAll k source = .ok readings ∧
          (f.setAll readings).run m = (m', .ok ()) ∧
          ∀ i < k.headerLength, m'.byte f.view.region (f.view.base + f.offset + i) =
            if i ∈ k.reserved then 0
            else source.byte g.view.region (g.view.base + g.offset + i)) := by
  refine ⟨fun settings => ?_, fun hzero g source hg => ?_⟩
  · obtain ⟨m', hrun, hwritten⟩ := h.run_setAll settings m
    refine ⟨m', hrun, hwritten, fun others hlast => ?_, fun g hg hplace x => ⟨?_, ?_⟩⟩
    · obtain ⟨m'', hrun', hwritten'⟩ := h.run_setAll others m
      rw [hrun', hwritten.unique hwritten' hlast]
    · intro hnone
      rw [hwritten.get hg hplace, hnone, Option.elim_none, hg.get_eq, place_eq_of_samePlace hplace]
    · intro value hvalue
      have hget := hwritten.get hg hplace x
      rw [hvalue, Option.elim_some] at hget
      refine ⟨hget, fun hrepresents => ?_⟩
      rw [hget, Field.cut_of_represents hrepresents]
  · have hreadings := hg.readAll_eq source
    obtain ⟨m', hrun, hwritten⟩ := h.run_setAll _ m
    refine ⟨_, m', hreadings, hrun, fun i hi => ?_⟩
    split
    · next hreserved =>
      -- no field has a reserved byte
      have hkept : (f.view.slice (f.offset + i) 1).bytes m' =
          (f.view.slice (f.offset + i) 1).bytes m := by
        apply hwritten.kept
        intro x _
        have hnot := x.not_reserved hreserved
        apply View.apart_slice
        omega
      calc m'.byte f.view.region (f.view.base + f.offset + i)
          = m.byte f.view.region (f.view.base + f.offset + i) := by
            have hbyte := View.byte_eq_of_bytes_eq (v := f.view.slice (f.offset + i) 1) hkept
              Nat.zero_lt_one
            simpa only [View.slice, Nat.add_zero, Nat.add_assoc] using hbyte
        _ = 0 := View.byte_of_zero hzero hi
    · next hreserved =>
      obtain ⟨x, hlow, hhigh⟩ := FrameKind.exists_member_of_not_reserved hi hreserved
      exact byte_eq_of_place (hwritten.bytes_of_readings hg hreadings x) hlow hhigh

theorem setAll_codec_nak :
    let f : Frame := ⟨⟨0, 3, 40⟩, 5⟩
    let termId : FrameKind.nak.Member := ⟨.termId, FrameKind.int32 16, by decide⟩
    let type : FrameKind.nak.Member := ⟨.type, ⟨6, 2, false⟩, by decide⟩
    let length : FrameKind.nak.Member := ⟨.length, FrameKind.int32 24, by decide⟩
    f.HasRoom .nak ∧ ∃ m', (f.setAll [(termId, 7), (type, 0xFFFF), (termId, -2)]).run .zero =
        (m', .ok ()) ∧
      f.get termId.field m' = .ok (-2) ∧ f.get type.field m' = .ok 0xFFFF ∧
      f.get length.field m' = .ok 0 := by
  intro f termId type length
  have hroom : f.HasRoom .nak := ⟨by decide, by decide⟩
  obtain ⟨m', hrun, -, -, hget⟩ :=
    (setAll_codec hroom .zero).1 [(termId, 7), (type, 0xFFFF), (termId, -2)]
  have hread := hget f hroom ⟨rfl, rfl⟩
  refine ⟨hroom, m', hrun, ?_, ?_, ?_⟩
  · exact ((hread termId).2 (-2) rfl).2 (by decide)
  · exact ((hread type).2 0xFFFF rfl).2 (by decide)
  · have hdecode : (FrameKind.int32 24).decode (List.replicate 4 0) = 0 := by decide
    rw [(hread length).1 rfl, hroom.get_eq, View.bytes_zero]
    exact congrArg Except.ok hdecode

end Frame

end Telemetry
