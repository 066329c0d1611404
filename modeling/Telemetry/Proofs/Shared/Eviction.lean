import Telemetry.Proofs.Memory.Footprint
import Telemetry.Proofs.Shared.Succession

namespace Telemetry

theorem View.bytes_clearFrom_of_ne {v : View} {region : Nat} (h : v.region ≠ region) (m : Memory)
    (offset : Nat) : v.bytes (m.clearFrom region offset) = v.bytes m := by
  have hother (j : Nat) : ¬ (v.region = region ∧ offset ≤ j) := fun hj => h hj.1
  simp only [View.bytes, Memory.load, Memory.clearFrom, hother, if_false]

namespace Shared

namespace Namespace

variable {s s' : Namespace} {name other n k : Text} {size region r : Nat} {exclusive : Bool}
  {e : OsError} {p : Mapping}

/-- A creation takes nothing away but the name of one segment, if any, and adds no name. -/
structure Keeps (s : Namespace) (evicted : Option Nat) (s' : Namespace) (cuts : List Cut) : Prop where
  known : ∀ k r, s'.find? k = some r → s.find? k = some r
  kept : ∀ k r, s.find? k = some r → evicted ≠ some r → s'.find? k = some r
  size_eq : ∀ r < s.sizes.length, evicted ≠ some r → s'.size r = s.size r
  cut : ∀ c ∈ cuts, evicted = some c.region

theorem Keeps.refl (s : Namespace) (evicted : Option Nat) : s.Keeps evicted s [] :=
  ⟨fun _ _ h => h, fun _ _ h _ => h, fun _ _ _ => rfl, fun _ h => nomatch h⟩

theorem Keeps.bytes {evicted : Option Nat} {cuts : List Cut} (h : s.Keeps evicted s' cuts)
    {v : View} (hne : evicted ≠ some v.region) (m : Memory) :
    v.bytes (cuts.foldl (fun m c => m.clearFrom c.region c.offset) m) = v.bytes m := by
  have hcuts : ∀ c ∈ cuts, v.region ≠ c.region := fun c hc heq => hne (heq ▸ h.cut c hc)
  clear h
  induction cuts generalizing m with
  | nil => rfl
  | cons c rest ih =>
    refine (ih _ fun c hc => hcuts c (List.mem_cons_of_mem _ hc)).trans ?_
    exact View.bytes_clearFrom_of_ne (hcuts c List.mem_cons_self) m c.offset

variable [Platform]

def region? (s : Namespace) (name : Text) : Option Nat := (segmentName name).toOption.bind s.find?

/-- The segment that loses its name when a segment of some size is created, where no name is removed
on demand: the one that the creation opens and cannot map with that size. -/
def evicted? (s : Namespace) (name : Text) (size : Nat) (exclusive : Bool) : Option Nat :=
  if size = 0 ∨ exclusive ∨ mapRefusal? size = none then none else s.region? name

theorem mapRefusal?_of_sizeLimit (h : sizeLimit ≤ size) : mapRefusal? size ≠ none := by
  intro hnone
  have hlt := Platform.size_lt size hnone
  simp only [sizeLimit] at h
  omega

/-- Only what cannot be mapped is refused a segment that was opened; its name is gone then. -/
theorem resize_eq_error (h : (s.resize n region size).result = .error e) :
    mapRefusal? size ≠ none ∧ (s.resize n region size).space.find? n = none := by
  have hcases := s.resize_cases n region size
  generalize s.resize n region size = g at hcases h ⊢
  cases hcases with
  | tooLarge hlimit => exact ⟨mapRefusal?_of_sizeLimit hlimit, find?_forget _ n⟩
  | unmapped hmap _ => exact ⟨hmap ▸ Option.some_ne_none _, find?_forget _ n⟩
  | mapped _ _ => cases h

theorem size_resize_of_ne (h : r ≠ region) :
    (s.resize n region size).space.size r = s.size r := by
  rcases sizes_resize s n region size with hsizes | hsizes
  · rw [Namespace.size, hsizes]
    rfl
  · rw [Namespace.size, Namespace.size, hsizes, List.getD_eq_getElem?_getD,
      List.getElem?_set_ne h.symm, List.getD_eq_getElem?_getD]

theorem of_mem_cuts {c : Cut} (h : c ∈ (s.resize n region size).cuts) :
    c.region = region ∧ size ≤ s.size region := by
  have hcases := s.resize_cases n region size
  generalize s.resize n region size = g at hcases h
  cases hcases with
  | tooLarge _ => cases h
  | unmapped _ hcuts | mapped _ hcuts => exact hcuts c h

/-- Only the name and the size of a segment that cannot be mapped are lost. -/
theorem keeps_of_resize {base : Namespace} {evicted : Option Nat}
    (h : (base.resize n region size).result = .error e)
    (hsame : ∀ k, k ≠ n → base.find? k = s.find? k)
    (hlost : ∀ r, s.find? n = some r → evicted = some r)
    (hsizes : ∀ r < s.sizes.length, evicted ≠ some r → r ≠ region ∧ base.size r = s.size r)
    (hcuts : ∀ c ∈ (base.resize n region size).cuts, evicted = some c.region) :
    s.Keeps evicted (base.resize n region size).space (base.resize n region size).cuts := by
  have hother (k : Text) (hk : k ≠ n) : (base.resize n region size).space.find? k = s.find? k :=
    (find?_resize_of_ne hk).trans (hsame k hk)
  constructor
  · intro k r hk
    by_cases hkn : k = n
    · subst hkn
      rw [(resize_eq_error h).2] at hk
      nomatch hk
    · rwa [hother k hkn] at hk
  · intro k r hk hne
    have hkn : k ≠ n := by
      rintro rfl
      exact hne (hlost r hk)
    rwa [hother k hkn]
  · intro r hr hne
    obtain ⟨hregion, hsize⟩ := hsizes r hr hne
    exact (size_resize_of_ne hregion).trans hsize
  · exact hcuts

theorem keeps_of_new (hfind : s.find? n = none) (hpos : 0 < size)
    (h : ((s.withNew n).resize n s.sizes.length size).result = .error e) (evicted : Option Nat) :
    s.Keeps evicted ((s.withNew n).resize n s.sizes.length size).space
      ((s.withNew n).resize n s.sizes.length size).cuts := by
  have hextends : s.Extends (s.withNew n) := .of_append rfl
  -- the new segment is empty before it is given its size
  have hempty : (s.withNew n).size s.sizes.length < size := by
    simpa [Namespace.size, withNew] using hpos
  apply keeps_of_resize h
  · exact fun k hk => find?_withNew_of_ne hk
  · intro r hr
    cases hfind.symm.trans hr
  · exact fun r hr _ => ⟨Nat.ne_of_lt hr, hextends.size_eq r hr⟩
  · exact fun c hc => absurd (of_mem_cuts hc).2 (Nat.not_le_of_lt hempty)

theorem keeps_of_found (hfind : s.find? n = some region)
    (h : (s.resize n region size).result = .error e) :
    s.Keeps (some region) (s.resize n region size).space (s.resize n region size).cuts := by
  apply keeps_of_resize h
  · exact fun k _ => rfl
  · exact fun r hr => hfind.symm.trans hr
  · exact fun r _ hne => ⟨fun hr => hne (congrArg some hr.symm), rfl⟩
  · exact fun c hc => congrArg some (of_mem_cuts hc).1.symm

theorem evicted?_of_found (hpos : 0 < size) (hname : segmentName name = .ok n) (hfind : s.find? n = some region)
    (hsize : mapRefusal? size ≠ none) : s.evicted? name size false = some region := by
  have hopen : ¬ (size = 0 ∨ false = true ∨ mapRefusal? size = none) :=
    not_or.2 ⟨Nat.ne_of_gt hpos, not_or.2 ⟨Bool.false_ne_true, hsize⟩⟩
  rw [evicted?, if_neg hopen, region?, hname]
  exact hfind

theorem create_refused (h : (s.create name size exclusive false).result = .error e) :
    s.Keeps (s.evicted? name size exclusive) (s.create name size exclusive false).space
      (s.create name size exclusive false).cuts := by
  have hcases := s.create_cases name size exclusive false
  generalize s.create name size exclusive false = g at hcases h ⊢
  cases hcases with
  | void _ | inUse _ _ _ => exact .refl s _
  | opened hpos hname hfind hexclusive =>
    subst hexclusive
    have hevicted : s.evicted? name size false = some _ :=
      evicted?_of_found hpos hname hfind (resize_eq_error h).1
    rw [hevicted]
    exact keeps_of_found hfind h
  | fresh hpos hname hfind => exact keeps_of_new hfind hpos h _

theorem of_evicted?_eq_some (h : s.evicted? name size exclusive = some region) :
    0 < size ∧ exclusive = false ∧ ∃ n, segmentName name = .ok n ∧
      s.find? n = some region := by
  unfold evicted? at h
  split at h
  · nomatch h
  · next hopen =>
    obtain ⟨hsize, hrest⟩ := not_or.1 hopen
    refine ⟨Nat.pos_of_ne_zero hsize, eq_false_of_ne_true (not_or.1 hrest).1, ?_⟩
    cases hname : segmentName name with
    | error e =>
      rw [region?, hname] at h
      nomatch h
    | ok n =>
      rw [region?, hname] at h
      exact ⟨n, rfl, h⟩

theorem create_evicts (h : (s.create name size exclusive false).result = .error e)
    (hevicted : s.evicted? name size exclusive = some region) :
    (s.create name size exclusive false).space.attach name = .error .noEntry := by
  obtain ⟨hpos, hopen, n, hname, hfind⟩ := of_evicted?_eq_some hevicted
  have hcases := s.create_cases name size exclusive false
  generalize s.create name size exclusive false = g at hcases h ⊢
  cases hcases with
  | void invalid =>
    rcases invalid with rfl | ⟨e', hinvalid⟩
    · exact absurd hpos (Nat.lt_irrefl _)
    · cases hname.symm.trans hinvalid
  | inUse _ _ hexclusive => cases hopen.symm.trans hexclusive
  | opened _ hname _ _ => exact attach_of_find?_none hname (resize_eq_error h).2
  | fresh _ hname' hnone =>
    cases hname.symm.trans hname'
    cases hfind.symm.trans hnone

theorem Keeps.attach {evicted : Option Nat} {cuts : List Cut} (h : s.Keeps evicted s' cuts)
    (hp : s.attach other = .ok p) (hne : evicted ≠ some p.region) : s'.attach other = .ok p := by
  obtain ⟨n, hname, hfind, hsize, hpos⟩ := attach_eq_ok hp
  have hlt := region_lt_of_attach hp
  exact attach_of_find? hname (h.kept n _ hfind hne) ((h.size_eq _ hlt hne).trans hsize) hpos

end Namespace

namespace World

section Refused

variable [Platform]

/-- A creation, without the name being removed first, that gives nothing: no name is new. Every
segment is still attached by its name, with its size and its bytes, except the one, if any, that was
opened and cannot be mapped with the size that was asked for; that one has lost its name. -/
theorem step_create_refused (w : World) (host : Host) (m : Memory) (h : Nat) (name : Option Text)
    (size : Nat) (exclusive : Bool)
    (hnone : (w.step host m (.create h name size exclusive false)).answer = .ok (.mapping none)) :
    let e := w.step host m (.create h name size exclusive false)
    let evicted := name.bind fun name => w.space.evicted? name size exclusive
    (∀ k r, e.world.space.find? k = some r → w.space.find? k = some r) ∧
    (∀ other p, w.space.attach other = .ok p → evicted ≠ some p.region →
      e.world.space.attach other = .ok p ∧
        p.view.bytes (e.memory m) = p.view.bytes m) ∧
    (∀ r, evicted = some r →
      ∃ t, name = some t ∧ e.world.space.attach t = .error .noEntry) := by
  intro e evicted
  cases name with
  | none => exact ⟨fun _ _ hk => hk, fun _ _ hp _ => ⟨hp, rfl⟩, fun _ hr => nomatch hr⟩
  | some t =>
    obtain ⟨reason, hrefused⟩ :
        ∃ reason, (w.space.create t size exclusive false).result = .error reason := by
      cases hresult : (w.space.create t size exclusive false).result with
      | error reason => exact ⟨reason, rfl⟩
      | ok p =>
        simp only [step, hresult] at hnone
        nomatch hnone
    have hkeeps := Namespace.create_refused hrefused
    refine ⟨hkeeps.known, fun other p hp hne => ⟨hkeeps.attach hp hne, ?_⟩, fun r hr => ?_⟩
    · exact hkeeps.bytes (v := p.view) hne m
    · exact ⟨t, rfl, Namespace.create_evicts hrefused hr⟩

end Refused

open scoped Platform

/-- Two segments; one is asked for again with more than can be mapped, the other one stays. -/
theorem step_create_refused_beside :
    let w : World := { empty with space := ⟨[([97], 0), ([98], 1)], [64, 32]⟩ }
    let e := w.step ⟨1, 0, fun _ => true⟩ .zero (.create 0 (some [97]) 0x600000000000 false false)
    e.answer = .ok (.mapping none) ∧ e.world.space.attach [98] = .ok ⟨1, 32⟩ ∧
      (∃ t, some [97] = some t ∧ e.world.space.attach t = .error .noEntry) := by
  have h := step_create_refused { empty with space := ⟨[([97], 0), ([98], 1)], [64, 32]⟩ }
    ⟨1, 0, fun _ => true⟩ .zero 0 (some [97]) 0x600000000000 false rfl
  obtain ⟨-, hkept, hlost⟩ := h
  exact ⟨rfl, (hkept [98] ⟨1, 32⟩ rfl (by decide)).1, hlost 0 (by decide)⟩

/-- A segment that was there before and is not there after a creation that gave nothing. -/
theorem step_create_takes :
    ∃ w m, empty.run ⟨1, 0, fun _ => true⟩ .zero [.create 0 (some [97]) 64 false false] = (w, m) ∧
      w.space.attach [97] = .ok ⟨0, 64⟩ ∧
      let e := w.step ⟨1, 0, fun _ => true⟩ m
        (.create 1 (some [97]) Namespace.sizeLimit false false)
      e.answer = .ok (.mapping none) ∧ e.world.space.attach [97] = .error .noEntry :=
  ⟨_, _, rfl, rfl, rfl, rfl⟩

end World

end Shared

end Telemetry
