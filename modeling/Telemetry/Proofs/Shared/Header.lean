import Telemetry.Proofs.Bits
import Telemetry.Proofs.Counters.Session
import Telemetry.Shared.Board

namespace Telemetry

theorem View.requireAligned_of_mod {v : View} (h : v.base % 8 = 0) : v.requireAligned = .ok () := by
  have haligned : Bits.isAligned (UInt64.ofNat v.base) (Int64.ofNat View.alignment) = .ok true :=
    Bits.isAligned_eight h
  rw [View.requireAligned, haligned]
  rfl

namespace Shared.Board

open Counters

def headerOf (whole : View) : View := whole.slice 0 headerLength

def recordsOf (whole : View) (metadataLength : Nat) : View :=
  whole.slice headerLength metadataLength

def slotsOf (whole : View) (metadataLength valuesLength : Nat) : View :=
  whole.slice (headerLength + metadataLength) valuesLength

/-- A segment has room for the three parts and for nothing else. -/
structure Fits (whole : View) (metadataLength valuesLength : Nat) : Prop where
  capacity : whole.capacity = headerLength + metadataLength + valuesLength
  small : whole.capacity < 0x8000000000000000

/-- A header says what follows it. -/
structure Stamped (whole : View) (metadataLength valuesLength : Nat) (m : Memory) : Prop where
  magic : (headerOf whole).word 4 magicOffset m = magic
  version : (headerOf whole).word 4 versionOffset m = layoutVersion
  metadataLength : (headerOf whole).word 8 metadataLengthOffset m = metadataLength
  valuesLength : (headerOf whole).word 8 valuesLengthOffset m = valuesLength

variable {whole : View} {metadataLength valuesLength : Nat} {m m' : Memory} {field : Nat}

namespace Fits

variable (h : Fits whole metadataLength valuesLength)
include h

theorem segmentLength_eq : segmentLength metadataLength valuesLength = whole.capacity := by
  have hcapacity := h.capacity
  have hsmall := h.small
  simp only [segmentLength, Word.offset, headerLength] at hcapacity ⊢
  omega

theorem sub_header : whole.sub 0 headerLength = .ok (headerOf whole) := by
  have hcapacity := h.capacity
  exact View.sub_of_le (by omega)

theorem sections_eq : sections whole metadataLength valuesLength =
    .ok (recordsOf whole metadataLength, slotsOf whole metadataLength valuesLength) := by
  have hcapacity := h.capacity
  have hsmall := h.small
  have hoffset : Word.offset (headerLength + metadataLength) = headerLength + metadataLength := by
    simp only [Word.offset, headerLength] at hcapacity ⊢
    omega
  rw [sections, View.sub_of_le (by omega), hoffset, View.sub_of_le (by omega)]
  rfl

end Fits

theorem Stamped.congr (h : Stamped whole metadataLength valuesLength m)
    (hbytes : (headerOf whole).bytes m' = (headerOf whole).bytes m) :
    Stamped whole metadataLength valuesLength m' := by
  have hword {n i : Nat} (hi : i + n ≤ 128) :
      (headerOf whole).word n i m' = (headerOf whole).word n i m :=
    View.word_congr hbytes (View.slice_inside hi)
  exact ⟨(hword (by decide)).trans h.magic, (hword (by decide)).trans h.version,
    (hword (by decide)).trans h.metadataLength, (hword (by decide)).trans h.valuesLength⟩

theorem inspect_of_room (h : headerLength ≤ whole.capacity) (name : Text) (m : Memory) :
    inspect name whole m =
      let word := fun n i => (headerOf whole).word n i m
      let records := word 8 metadataLengthOffset
      let slots := word 8 valuesLengthOffset
      if word 4 magicOffset ≠ magic then .error (.boardForeign name (word 4 magicOffset))
      else if word 4 versionOffset ≠ layoutVersion then
        .error (.boardLayout name (word 4 versionOffset) layoutVersion)
      else if records < 0 ∨ slots < 0
          ∨ whole.capacity < segmentLength records.toNat slots.toNat then
        .error (.boardLengths name records slots whole.capacity)
      else sections whole records.toNat slots.toNat := by
  have hget {n i : Nat} (hi : i + n ≤ 128) :
      (headerOf whole).get n i m = .ok ((headerOf whole).word n i m) := View.get_of_le hi m
  have hheader : whole.sub 0 headerLength = .ok (headerOf whole) := View.sub_of_le (by omega)
  unfold inspect
  rw [if_neg (Nat.not_lt.2 h), hheader]
  refine (Query.bind_ok (a := headerOf whole) _ rfl).trans ?_
  refine (Query.bind_ok _ (hget (i := magicOffset) (n := 4) (by decide))).trans ?_
  dsimp only
  by_cases hmagic : (headerOf whole).word 4 magicOffset m ≠ magic
  · rw [if_pos hmagic, if_pos hmagic]
    rfl
  · rw [if_neg hmagic, if_neg hmagic]
    refine (Query.bind_ok _ (hget (i := versionOffset) (n := 4) (by decide))).trans ?_
    by_cases hversion : (headerOf whole).word 4 versionOffset m ≠ layoutVersion
    · rw [if_pos hversion, if_pos hversion]
      rfl
    · rw [if_neg hversion, if_neg hversion]
      refine (Query.bind_ok _ (hget (i := metadataLengthOffset) (n := 8) (by decide))).trans ?_
      refine (Query.bind_ok _ (hget (i := valuesLengthOffset) (n := 8) (by decide))).trans ?_
      split <;> rfl

theorem Stamped.inspect_eq (h : Stamped whole metadataLength valuesLength m)
    (hfits : Fits whole metadataLength valuesLength) (name : Text) :
    inspect name whole m =
      .ok (recordsOf whole metadataLength, slotsOf whole metadataLength valuesLength) := by
  have hcapacity := hfits.capacity
  have hroom : headerLength ≤ whole.capacity := by omega
  have hlength := hfits.segmentLength_eq
  rw [inspect_of_room hroom]
  simp only [h.magic, h.version, h.metadataLength, h.valuesLength, Int.toNat_natCast, hlength]
  rw [if_neg (fun hne => hne rfl), if_neg (fun hne => hne rfl), if_neg (by omega)]
  exact hfits.sections_eq

def described (whole : View) (host : Host) (metadataLength valuesLength : Nat) (start : Int)
    (m : Memory) : Memory :=
  m.storeAll [(headerOf whole).writeAt versionOffset (Word.encode 4 layoutVersion),
    (headerOf whole).writeAt metadataLengthOffset (Word.encode 8 metadataLength),
    (headerOf whole).writeAt valuesLengthOffset (Word.encode 8 valuesLength),
    (headerOf whole).writeAt processOffset (Word.encode 8 host.process),
    (headerOf whole).writeAt startOffset (Word.encode 8 start)]

def publish (whole : View) (r : Registry) : Action Registry := do
  (headerOf whole).put 4 magicOffset magic
  return r

theorem stamped_of_described (hfits : Fits whole metadataLength valuesLength) (host : Host)
    (start : Int) (m : Memory) :
    Stamped whole metadataLength valuesLength
      ((described whole host metadataLength valuesLength start m).store
        ((headerOf whole).writeAt magicOffset (Word.encode 4 magic))) := by
  have hcapacity := hfits.capacity
  have hsmall := hfits.small
  have hmodulus : (Word.modulus 8 : Int) = 0x10000000000000000 := rfl
  have hwrap {n : Nat} (hn : n ≤ whole.capacity) : Word.wrap 8 n = n :=
    Word.wrap_of_fits (by omega) (by omega)
  have hother {n i k j : Nat} (x : Int) (m : Memory) (h : j + k ≤ i ∨ i + n ≤ j) :
      (headerOf whole).word n i (m.store ((headerOf whole).writeAt j (Word.encode k x))) =
        (headerOf whole).word n i m :=
    View.word_store_of_apart (by rwa [Word.length_encode])
  simp only [described, Memory.storeAll, List.foldl_cons, List.foldl_nil]
  -- every field is read off its own write, past the writes that came later
  constructor
  · exact View.word_store_self ..
  · rw [hother _ _ (by decide), hother _ _ (by decide), hother _ _ (by decide),
      hother _ _ (by decide), hother _ _ (by decide), View.word_store_self]
    rfl
  · rw [hother _ _ (by decide), hother _ _ (by decide), hother _ _ (by decide),
      hother _ _ (by decide), View.word_store_self, hwrap (by omega)]
  · rw [hother _ _ (by decide), hother _ _ (by decide), hother _ _ (by decide),
      View.word_store_self, hwrap (by omega)]

/-- Where there is room for a header it is written before anything behind it is looked at. -/
theorem run_initialise_of_room (hroom : headerLength ≤ whole.capacity) (host : Host)
    (charset : Charset) (clock : Option Clock) (timeout : Int) (m : Memory) :
    (initialise whole host metadataLength valuesLength charset clock timeout).run m =
      ((liftM (sections whole metadataLength valuesLength) : Action (View × View)) >>= fun views =>
        (liftM (Registry.create ⟨views.1, views.2, charset⟩ clock.isSome timeout) :
          Action Registry) >>= publish whole).run
        (described whole host metadataLength valuesLength
          ((clock.getD .wall).read host.wallTime) m) := by
  have hput {n i : Nat} (hi : i + n ≤ 128) (x : Int) (m : Memory) :
      ((headerOf whole).put n i x).run m =
        (m.store ((headerOf whole).writeAt i (Word.encode n x)), .ok ()) := View.run_put hi x m
  have hheader : whole.sub 0 headerLength = .ok (headerOf whole) := View.sub_of_le (by omega)
  unfold initialise
  rw [hheader]
  refine (Action.run_bind_ok _ (Action.run_ofExcept (.ok (headerOf whole)) m)).trans ?_
  refine (Action.run_bind_ok _ (hput (i := versionOffset) (by decide) _ _)).trans ?_
  refine (Action.run_bind_ok _ (hput (i := metadataLengthOffset) (by decide) _ _)).trans ?_
  refine (Action.run_bind_ok _ (hput (i := valuesLengthOffset) (by decide) _ _)).trans ?_
  refine (Action.run_bind_ok _ (hput (i := processOffset) (by decide) _ _)).trans ?_
  refine (Action.run_bind_ok _ (hput (i := startOffset) (by decide) _ _)).trans ?_
  simp only [described, Memory.storeAll, List.foldl_cons, List.foldl_nil]
  rfl

section Initialise

variable (hfits : Fits whole metadataLength valuesLength) (host : Host) (charset : Charset)
  (clock : Option Clock) (timeout : Int) (m : Memory)
include hfits

/-- The header is written, then the registry is made, and only then the segment becomes a board. -/
theorem run_initialise :
    (initialise whole host metadataLength valuesLength charset clock timeout).run m =
      ((liftM (Registry.create ⟨recordsOf whole metadataLength,
          slotsOf whole metadataLength valuesLength, charset⟩ clock.isSome timeout) :
        Action Registry) >>= publish whole).run
        (described whole host metadataLength valuesLength
          ((clock.getD .wall).read host.wallTime) m) := by
  have hcapacity := hfits.capacity
  have hroom : headerLength ≤ whole.capacity := by omega
  rw [run_initialise_of_room hroom, hfits.sections_eq]
  have hviews := Action.run_ofExcept (.ok (recordsOf whole metadataLength,
    slotsOf whole metadataLength valuesLength))
    (described whole host metadataLength valuesLength ((clock.getD .wall).read host.wallTime) m)
  rw [Action.run_bind_ok _ hviews]

theorem initialise_ok {r : Registry}
    (hr : Registry.create ⟨recordsOf whole metadataLength,
      slotsOf whole metadataLength valuesLength, charset⟩ clock.isSome timeout = .ok r) :
    ∃ m', (initialise whole host metadataLength valuesLength charset clock timeout).run m =
        (m', .ok r) ∧ Stamped whole metadataLength valuesLength m' := by
  rw [run_initialise hfits, hr]
  refine ⟨_, ?_, stamped_of_described hfits host ((clock.getD .wall).read host.wallTime) m⟩
  refine (Action.run_bind_ok _ (Action.run_ofExcept (.ok r) _)).trans ?_
  have hroom : magicOffset + 4 ≤ headerLength := by decide
  exact Action.run_bind_ok _ (View.run_put (v := headerOf whole) hroom magic _)

theorem initialise_error {e : Fault}
    (hr : Registry.create ⟨recordsOf whole metadataLength,
      slotsOf whole metadataLength valuesLength, charset⟩ clock.isSome timeout = .error e) :
    ((initialise whole host metadataLength valuesLength charset clock timeout).run m).2 =
      .error e := by
  rw [run_initialise hfits, hr]
  exact congrArg Prod.snd (Action.run_bind_error _ (Action.run_ofExcept (.error e) _))

end Initialise

end Shared.Board

end Telemetry
