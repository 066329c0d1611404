import Telemetry.Shared.Buffer

namespace Telemetry.Shared

namespace Namespace

variable {s s' : Namespace} {name n : Text} {size region : Nat} {p : Mapping}

theorem find?_forget (s : Namespace) (n : Text) : (s.forget n).find? n = none := by
  unfold find? forget
  rw [List.lookup_eq_none_iff]
  intro x hx
  have hne : x.1 ≠ n := by simpa using (List.mem_filter.1 hx).2
  simpa using hne.symm

variable [Platform]

theorem attach_of_find? (hname : segmentName name = .ok n) (hfind : s.find? n = some region)
    (hsize : s.size region = size) (hpos : 0 < size) : s.attach name = .ok ⟨region, size⟩ := by
  have hne : size ≠ 0 := Nat.ne_of_gt hpos
  simp only [attach, hname, bind, Except.bind, hfind, hsize, if_neg hne]
  rfl

/-- All that giving a segment a size can come to. Only that segment is cut off, and not if it grows. -/
inductive Resizes (s : Namespace) (n : Text) (region size : Nat) : Grant → Prop
  | tooLarge (hlimit : sizeLimit ≤ size) :
      Resizes s n region size ⟨s.forget n, [], .error .invalid⟩
  | unmapped {cuts : List Cut} {e : OsError} (hmap : mapRefusal? size = some e)
      (hcuts : ∀ c ∈ cuts, c.region = region ∧ size ≤ s.size region) :
      Resizes s n region size
        ⟨{ s with sizes := s.sizes.set region size }.forget n, cuts, .error e⟩
  | mapped {cuts : List Cut} (hmap : mapRefusal? size = none)
      (hcuts : ∀ c ∈ cuts, c.region = region ∧ size ≤ s.size region) :
      Resizes s n region size
        ⟨{ s with sizes := s.sizes.set region size }, cuts, .ok ⟨region, size⟩⟩

theorem resize_cases (s : Namespace) (n : Text) (region size : Nat) :
    Resizes s n region size (s.resize n region size) := by
  have hcuts : ∀ c ∈ (if size ≤ s.size region then [⟨region, size⟩] else [] : List Cut),
      c.region = region ∧ size ≤ s.size region := by
    intro c hc
    split at hc
    · next hsize =>
      rw [List.mem_singleton.1 hc]
      exact ⟨rfl, hsize⟩
    · cases hc
  unfold resize
  by_cases hlimit : sizeLimit ≤ size
  · rw [if_pos hlimit]
    exact .tooLarge hlimit
  · rw [if_neg hlimit]
    dsimp only
    cases hmap : mapRefusal? size with
    | some e => exact .unmapped hmap hcuts
    | none => exact .mapped hmap hcuts

theorem resize_eq_ok (h : (s.resize n region size).result = .ok p) :
    mapRefusal? size = none ∧ p = ⟨region, size⟩ ∧
      (s.resize n region size).space = { s with sizes := s.sizes.set region size } := by
  have hcases := s.resize_cases n region size
  generalize s.resize n region size = g at hcases h ⊢
  cases hcases with
  | tooLarge _ | unmapped _ _ => cases h
  | mapped hmap _ =>
    cases h
    exact ⟨hmap, rfl, rfl⟩

/-- Where a creation looks its name up: on demand the name is removed first. -/
def cleared (s : Namespace) (n : Text) (unlinkFirst : Bool) : Namespace :=
  if unlinkFirst then s.forget n else s

/-- A namespace with a name that leads to one more segment, which is still empty. -/
def withNew (s : Namespace) (n : Text) : Namespace :=
  ⟨(n, s.sizes.length) :: s.names, s.sizes ++ [0]⟩

inductive Creates (s : Namespace) (name : Text) (size : Nat) (exclusive unlinkFirst : Bool) :
    Grant → Prop
  | void {e : OsError} (invalid : size = 0 ∨ ∃ e', segmentName name = .error e') :
      Creates s name size exclusive unlinkFirst ⟨s, [], .error e⟩
  | inUse {n : Text} {region : Nat} (hname : segmentName name = .ok n)
      (hfind : (s.cleared n unlinkFirst).find? n = some region) (hexclusive : exclusive = true) :
      Creates s name size exclusive unlinkFirst ⟨s.cleared n unlinkFirst, [], .error .exists⟩
  | opened {n : Text} {region : Nat} (hpos : 0 < size) (hname : segmentName name = .ok n)
      (hfind : (s.cleared n unlinkFirst).find? n = some region) (hexclusive : exclusive = false) :
      Creates s name size exclusive unlinkFirst ((s.cleared n unlinkFirst).resize n region size)
  | fresh {n : Text} (hpos : 0 < size) (hname : segmentName name = .ok n)
      (hfind : (s.cleared n unlinkFirst).find? n = none) :
      Creates s name size exclusive unlinkFirst
        (((s.cleared n unlinkFirst).withNew n).resize n (s.cleared n unlinkFirst).sizes.length size)

theorem create_cases (s : Namespace) (name : Text) (size : Nat) (exclusive unlinkFirst : Bool) :
    Creates s name size exclusive unlinkFirst (s.create name size exclusive unlinkFirst) := by
  unfold create
  by_cases hsize : size = 0
  · rw [if_pos hsize]
    exact .void (.inl hsize)
  · rw [if_neg hsize]
    have hpos := Nat.pos_of_ne_zero hsize
    cases hname : segmentName name with
    | error e => exact .void (.inr ⟨e, hname⟩)
    | ok n =>
      dsimp only
      cases hfind : (if unlinkFirst then s.forget n else s).find? n with
      | none => exact .fresh hpos hname hfind
      | some region =>
        cases exclusive with
        | true => exact .inUse hname hfind rfl
        | false => exact .opened hpos hname hfind rfl

theorem takeover_cases (s : Namespace) (name : Text) (size : Nat) :
    (∃ e, s.create name size false true = ⟨s, [], .error e⟩) ∨
      ∃ n, 0 < size ∧ segmentName name = .ok n ∧
        s.create name size false true =
          ((s.forget n).withNew n).resize n s.sizes.length size := by
  have hcases := s.create_cases name size false true
  generalize s.create name size false true = g at hcases ⊢
  cases hcases with
  | void _ => exact .inl ⟨_, rfl⟩
  | inUse _ _ hexclusive => nomatch hexclusive
  | opened _ _ hfind _ => cases (find?_forget s _).symm.trans hfind
  | fresh hpos hname _ => exact .inr ⟨_, hpos, hname, rfl⟩

theorem create_eq_ok (h : (s.create name size false true).result = .ok p) :
    0 < size ∧ mapRefusal? size = none ∧ p = ⟨s.sizes.length, size⟩ ∧
      (s.create name size false true).space.attach name = .ok p := by
  rcases s.takeover_cases name size with ⟨e, hcreate⟩ | ⟨n, hpos, hname, hcreate⟩
  · rw [hcreate] at h
    nomatch h
  · rw [hcreate] at h ⊢
    obtain ⟨hmap, rfl, hspace⟩ := resize_eq_ok h
    refine ⟨hpos, hmap, rfl, ?_⟩
    rw [hspace]
    refine attach_of_find? hname List.lookup_cons_self ?_ hpos
    -- the region of the new segment is the last one that there is
    simp [Namespace.size, withNew, forget]

end Namespace

namespace Buffer

variable [Platform] {s : Namespace} {name : Text} {length : Nat} {b : Buffer}

theorem create_eq_ok (h : (create s name length).2 = .ok b) :
    0 < length ∧ length < 0x2000000000000000 ∧
      b = ⟨name, some ⟨s.sizes.length, length⟩, true⟩ ∧
      (create s name length).1.attach name = .ok ⟨s.sizes.length, length⟩ := by
  unfold create at h ⊢
  dsimp only at h ⊢
  cases hresult : (s.create name length false true).result with
  | error e =>
    rw [hresult] at h
    nomatch h
  | ok p =>
    rw [hresult] at h
    obtain ⟨hpos, hmap, rfl, hattach⟩ := Namespace.create_eq_ok hresult
    cases h
    exact ⟨hpos, Platform.size_lt length hmap, rfl, hattach⟩

theorem attach_of_namespace {p : Mapping} (h : s.attach name = .ok p) :
    attach s name = .ok ⟨name, some p, false⟩ := by
  unfold attach
  rw [h]

end Buffer

end Telemetry.Shared
