import Telemetry.Proofs.Counters.History
import Telemetry.Proofs.Counters.Publish

namespace Telemetry.Counters

/-- Writing with care: to the key of a counter in use, and to the slot of an id that was taken. -/
def Deed.Careful (h : List Event) (r : Registry) (m : Memory) : Deed → Prop
  | key id => r.monitor.HasId id → r.monitor.stateOf id m = Record.allocated
  | value id => r.monitor.HasSlot id → .taken id ∈ h
  | _ => True

instance (h : List Event) (r : Registry) (m : Memory) : DecidablePred (Deed.Careful h r m)
  | .key _ | .value _ => inferInstanceAs (Decidable (_ → _))
  | .nothing | .label _ | .free _ | .allocate _ => .isTrue trivial

namespace Monitor

variable {w : Monitor} {id j : Int} {m m' : Memory}

theorem SlotBlank.congr (hb : w.SlotBlank id m) (h : (w.slot id).bytes m' = (w.slot id).bytes m) :
    w.SlotBlank id m' :=
  ⟨(slotWordOf_congr (by decide) h).trans hb.value,
    (slotWordOf_congr (by decide) h).trans hb.registration,
    (slotWordOf_congr (by decide) h).trans hb.owner⟩

def KeyReady (w : Monitor) (id : Int) (m : Memory) : Prop :=
  w.stateOf id m ≠ Record.allocated → (w.keyOf id).bytes m = List.replicate Record.keyLength 0

theorem KeyReady.congr (hk : w.KeyReady id m)
    (h : (w.record id).bytes m' = (w.record id).bytes m) : w.KeyReady id m' := by
  intro hs
  rw [stateOf, recordWordOf_congr (by decide) h] at hs
  exact (View.bytes_mono keyOf_inside h).trans (hk hs)

end Monitor

namespace Registry

open Monitor

variable {r r' : Registry} {m m₁ m' : Memory} {h : List Event} {id now : Int}

/-- Nothing is left where a new counter will not write. -/
structure Clean (r : Registry) (m : Memory) : Prop where
  keys : ∀ id, r.monitor.HasId id → r.monitor.KeyReady id m
  slots : ∀ id : Int, r.issued ≤ id → id < r.monitor.slots → r.monitor.SlotBlank id m

theorem Starts.clean (start : r.Starts m) : r.Clean m := by
  refine ⟨fun id hid _ => start.keyOf_eq hid, fun id h₀ h₁ => ?_⟩
  have hid : r.monitor.HasId id := ⟨by omega, h₁⟩
  have hslot := hid.hasSlot start.paired
  exact ⟨start.slotWordOf_eq hslot (by decide), start.slotWordOf_eq hslot (by decide),
    start.slotWordOf_eq hslot (by decide)⟩

namespace Clean

theorem write (hcl : r.Clean m) (hp : r.monitor.Paired) (hid : r.monitor.HasId id)
    (hc : (r.monitor.record id).Confines m m') (hk : r.monitor.KeyReady id m') : r.Clean m' := by
  refine ⟨fun j hj => ?_, fun j h₀ h₁ => ?_⟩
  · by_cases hne : id = j
    · exact hne ▸ hk
    · exact (hcl.keys j hj).congr (record_of_record hp hid hj hne hc)
  · have hj : r.monitor.HasId j := ⟨by omega, h₁⟩
    exact (hcl.slots j h₀ h₁).congr (slot_of_record hp hid (hj.hasSlot hp) hc)

/-- What is written to the slot of an id that was issued is blanked before it is used again. -/
theorem writeSlot (hcl : r.Clean m) (hp : r.monitor.Paired) (hid : r.monitor.HasId id)
    (hissued : id < r.issued) (hc : (r.monitor.slot id).Confines m m') : r.Clean m' := by
  refine ⟨fun j hj => ?_, fun j h₀ h₁ => ?_⟩
  · exact (hcl.keys j hj).congr (record_of_slot hp (hid.hasSlot hp) hj hc)
  · have hj : r.monitor.HasId j := ⟨by omega, h₁⟩
    exact (hcl.slots j h₀ h₁).congr (hc _ (slot_apart hp hid hj (by omega)))

theorem take (hcl : r.Clean m) (hp : r.monitor.Paired) (hco : r.Coherent m)
    (ht : Taken r now m r' id m₁) : r'.Clean m₁ ∧ r.monitor.SlotBlank id m₁ ∧
      (r.monitor.keyOf id).bytes m₁ = List.replicate Record.keyLength 0 := by
  have hid := ht.hasId hco.hasId
  have hkey := hcl.keys id hid (hco.not_inUse_of_taken ht)
  -- A slot is blanked when its id is taken again; a new id was never written to.
  cases ht with
  | reused freed ready others slot blank =>
    have hfreed : id ∈ r.freed := by rw [freed]; simp
    obtain ⟨hkeys, hslots⟩ := hcl.writeSlot hp hid (hco.freed id hfreed).2 slot
    have hrecord := record_of_slot hp (hid.hasSlot hp) hid slot
    exact ⟨⟨hkeys, hslots⟩, blank, (View.bytes_mono keyOf_inside hrecord).trans hkey⟩
  | fresh others room =>
    refine ⟨⟨hcl.keys, fun j h₀ h₁ => hcl.slots j ?_ h₁⟩, ?_, hkey⟩
    · simp only [Int.natCast_add, Int.natCast_one] at h₀
      omega
    · exact hcl.slots _ (Int.le_refl _) (Int.ofNat_lt.2 room)

end Clean

theorem Change.clean {d : Deed} {es : List Event} (hchange : r.Change now m d es r' m')
    (hp : r.monitor.Paired) (hco : r.Coherent m) (hrec : r.Recorded h) (hcareful : d.Careful h r m)
    (hcl : r.Clean m) : r'.Clean m' := by
  cases hchange with
  | quiet written =>
    cases written with
    | refused => exact hcl
    | value hasSlot slot =>
      -- A handle may be stale, but its id was taken once, so its slot is blanked before reuse.
      obtain ⟨h₀, h₁⟩ := (hrec _).1 (hcareful hasSlot)
      have hle := hco.issued_le
      exact hcl.writeSlot hp ⟨h₀, by omega⟩ h₁ slot
    | @label id _ hasId label =>
      refine hcl.write hp hasId (label.mono (labelPart_inside.trans body_inside)) fun hs => ?_
      rw [stateOf, recordWordOf_of_apart label (by decide)] at hs
      exact (keyOf_of_apart label (by decide)).trans (hcl.keys id hasId hs)
    | @key id _ hasId key =>
      refine hcl.write hp hasId (key.mono (keyPart_inside.trans body_inside)) fun hs => ?_
      rw [stateOf, recordWordOf_of_apart key (by decide)] at hs
      exact absurd (hcareful hasId) hs
  | freed hasId inUse record released =>
    obtain ⟨hkeys, hslots⟩ := hcl.write hp hasId record fun _ => released.key
    exact ⟨hkeys, hslots⟩
  | published taken record inUse =>
    have hmon := taken.monitor_eq
    have hid := taken.hasId hco.hasId
    exact (hcl.take hp hco taken).1.write (hmon ▸ hp) (hmon ▸ hid) (hmon ▸ record) fun hs =>
      absurd inUse (hmon ▸ hs)
  | withdrawn taken record released =>
    have hmon := taken.monitor_eq
    have hid := taken.hasId hco.hasId
    obtain ⟨hkeys, hslots⟩ := (hcl.take hp hco taken).1.write (hmon ▸ hp) (hmon ▸ hid)
      (hmon ▸ record) fun _ => hmon ▸ released.key
    exact ⟨hkeys, hslots⟩

end Registry

structure Monitor.Renewed (w : Monitor) (id : Int) (q : Request) (m : Memory) : Prop where
  state : w.state id m = .ok Record.allocated
  type : w.type id m = .ok (Word.wrap 4 q.type)
  deadline : w.deadline id m = .ok Record.neverReusable
  value : w.value id m = .ok 0
  registration : w.registration id m = .ok 0
  owner : w.owner id m = .ok 0
  key : w.key id m = .ok (q.storedKey (w.keyOf id))
  label : w.label id m = .ok (q.storedLabel w.charset)

namespace Registry

open Monitor

variable {r : Registry} {m : Memory} {id now : Int}

/-- Whatever an id was used for before, an allocation that answers it leaves it as requested. -/
theorem Clean.renewed (hcl : r.Clean m) (hp : r.monitor.Paired) (hco : r.Coherent m) {q : Request}
    (hok : (r.allocate now q m).result = .ok id) :
    r.monitor.Renewed id q ((r.allocate now q m).memory m) := by
  obtain ⟨r', m₁, ht, _, hpublish⟩ := allocate_eq_ok hp hco.hasId hok
  have hmon := ht.monitor_eq
  have hid := ht.hasId hco.hasId
  obtain ⟨_, hblank, hkey⟩ := hcl.take hp hco ht
  have hrecord : (r.monitor.record id).Confines m₁ ((r.allocate now q m).memory m) :=
    hmon ▸ (publish_within (r := r') _ q).confines_of_run hpublish
  have hslot := hblank.congr (slot_of_record hp hid (hid.hasSlot hp) hrecord)
  obtain ⟨⟨htype, hdeadline, hk, hlabel⟩, hstate⟩ :=
    filled_of_publish (hmon ▸ hp) (hmon ▸ hid) (hmon ▸ hkey) hpublish
  rw [hmon] at htype hdeadline hk hlabel hstate
  refine ⟨?state, ?type, ?deadline, ?value, ?registration, ?owner, ?key, ?label⟩
  case state => rw [state_eq hp hid, hstate]
  case type => exact (recordWord_eq hp hid (by decide) _).trans (congrArg _ htype)
  case deadline => exact (recordWord_eq hp hid (by decide) _).trans (congrArg _ hdeadline)
  case value => exact (slotWord_eq hp hid (by decide) _).trans (congrArg _ hslot.value)
  case registration =>
    exact (slotWord_eq hp hid (by decide) _).trans (congrArg _ hslot.registration)
  case owner => exact (slotWord_eq hp hid (by decide) _).trans (congrArg _ hslot.owner)
  case key => rw [key_eq hp hid, hk]
  case label => rw [label_eq hp hid hlabel.labelFits, hlabel.labelOf_eq]

end Registry

namespace Session

open Registry

variable {r₀ : Registry} {m₀ : Memory}

/-- After every careful run a counter that is allocated carries nothing of its past. -/
theorem run_renewed (start : r₀.Starts m₀) (clock : Clock) (wallTime : Int) (calls : List Call)
    (regular : ∀ c ∈ calls, c.Regular)
    (careful : Permits Deed.Careful wallTime (create r₀.monitor (some r₀) clock) m₀ [] calls) :
    ∃ s r m, (create r₀.monitor (some r₀) clock).run wallTime m₀ calls = (s, m) ∧
      s.registry = some r ∧ ∀ now q id, (r.allocate now q m).result = .ok id →
        r.monitor.Renewed id q ((r.allocate now q m).memory m) := by
  obtain ⟨r, hon, hmon, _, hco, _, hcl⟩ := run_invariant_of_permits
    (P := fun h r m => r.Coherent m ∧ r.Recorded h ∧ r.Clean m)
    (fun _ _ _ h => h.1.hasId)
    (fun _ _ _ _ _ _ _ _ hp ⟨hco, hrec, hcl⟩ hcareful hchange =>
      ⟨hchange.coherent hp hco, hchange.recorded hco hrec, hchange.clean hp hco hrec hcareful hcl⟩)
    wallTime calls regular (start.on clock) start.paired
    ⟨start.coherent, start.recorded, start.clean⟩ careful
  exact ⟨_, r, _, rfl, hon.registry, fun _ _ _ hok => hcl.renewed (hmon ▸ start.paired) hco hok⟩

theorem run_renewed_small : small.Starts Memory.zero ∧ (∀ c ∈ mixed, c.Regular) ∧
    Permits Deed.Careful 0 (create small.monitor (some small) (.manual 0)) Memory.zero [] mixed ∧
    ∃ s r m, (create small.monitor (some small) (.manual 0)).run 0 Memory.zero mixed = (s, m) ∧
      s.registry = some r ∧ ∀ now q id, (r.allocate now q m).result = .ok id →
        r.monitor.Renewed id q ((r.allocate now q m).memory m) :=
  ⟨small_starts, by decide, by decide +kernel,
    run_renewed small_starts (.manual 0) 0 mixed (by decide) (by decide +kernel)⟩

end Session

end Telemetry.Counters
