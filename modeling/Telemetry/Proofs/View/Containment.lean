import Telemetry.Proofs.View.Range
import Telemetry.View.Family

namespace Telemetry

namespace View

/-- How a view was made: from which view, as that was then, and where in it. -/
structure Origin where
  parent : View
  offset : Nat

/-- A view with the origins that led to it, the last one first. -/
structure Descendant where
  view : View
  line : List Origin

namespace Descendant

def root (v : View) : Descendant := ⟨v, []⟩

def part (x : Descendant) (offset n : Nat) : Descendant :=
  ⟨x.view.slice offset n, ⟨x.view, offset⟩ :: x.line⟩

/-- Every cut along the line of a view was in range. -/
inductive Checked : Descendant → Prop
  | root (v : View) : Checked (root v)
  | part {x : Descendant} {offset n : Nat} (h : Checked x) (hroom : offset + n ≤ x.view.capacity) :
      Checked (x.part offset n)

variable {x : Descendant}

theorem Checked.inside (h : x.Checked) : ∀ origin ∈ x.line, x.view.Inside origin.parent := by
  induction h with
  | root v => nofun
  | part h hroom ih =>
    intro origin horigin
    have hfirst := slice_inside hroom
    rcases List.mem_cons.1 horigin with rfl | hrest
    · exact hfirst
    · exact hfirst.trans (ih origin hrest)

theorem Checked.eq_slice (h : x.Checked) {origin : Origin} {rest : List Origin}
    (hline : x.line = origin :: rest) :
    x.view = origin.parent.slice origin.offset x.view.capacity ∧
      origin.offset + x.view.capacity ≤ origin.parent.capacity := by
  cases h with
  | root v => nomatch hline
  | part h hroom =>
    cases hline
    exact ⟨rfl, hroom⟩

end Descendant

end View

namespace Family

open View

variable {s s' : Family} {m m' : Memory} {c : Command}

theorem perform_of_ok {r : Reply} (h : (s.step c).run m = (m', .ok (s', r))) :
    s.perform m c = (s', m', .ok r) := by rw [perform, h]

theorem perform_of_error {e : Fault} (h : (s.step c).run m = (m', .error e)) :
    s.perform m c = (s, m', .error e) := by rw [perform, h]

section Making

variable {parent : Nat} {offset length : UInt64}

theorem perform_cut_of_le (h : offset.toNat + length.toNat ≤ (s.viewAt parent).capacity)
    (m : Memory) :
    s.perform m (.cut parent offset length) =
      ((s.add ((s.viewAt parent).slice offset.toNat length.toNat)).1, m,
        .ok (.number s.views.length)) := by
  apply perform_of_ok
  rw [step, sub_of_le h]
  rfl

theorem perform_cut_of_lt (h : (s.viewAt parent).capacity < offset.toNat + length.toNat)
    (m : Memory) :
    s.perform m (.cut parent offset length) =
      (s, m, .error (.outOfBounds offset.toNat length.toNat (s.viewAt parent).capacity)) := by
  apply perform_of_error
  rw [step, sub_of_lt h]
  rfl

theorem perform_wrap_of_le (h : offset.toNat + length.toNat ≤ (s.viewAt parent).capacity)
    (b : Nat) (m : Memory) :
    s.perform m (.wrap b parent offset length) =
      ((s.set b ((s.viewAt parent).slice offset.toNat length.toNat)).1, m, .ok .unit) := by
  apply perform_of_ok
  rw [step, sub_of_le h]
  rfl

theorem perform_wrap_of_lt (h : (s.viewAt parent).capacity < offset.toNat + length.toNat)
    (b : Nat) (m : Memory) :
    s.perform m (.wrap b parent offset length) =
      (s, m, .error (.outOfBounds offset.toNat length.toNat (s.viewAt parent).capacity)) := by
  apply perform_of_error
  rw [step, sub_of_lt h]
  rfl

end Making

theorem perform_access (s : Family) (m : Memory) (b : Nat) (a : Access) :
    s.perform m (.access b a) = (s, (a.run (s.viewAt b)).run m) := by
  rcases h : (a.run (s.viewAt b)).run m with ⟨m', e | r⟩
  · exact perform_of_error (Action.run_bind_error _ h)
  · exact perform_of_ok (Action.run_bind_ok _ h)

section Copying

variable {b source : Nat} {i j n : UInt64}

theorem perform_copy_of_le (h : i.toNat + n.toNat ≤ (s.viewAt b).capacity)
    (h' : j.toNat + n.toNat ≤ (s.viewAt source).capacity) (m : Memory) :
    s.perform m (.copy b i source j n) =
      (s, m.store ((s.viewAt b).writeAt i.toNat
        (((s.viewAt source).slice j.toNat n.toNat).bytes m)), .ok .unit) := by
  apply perform_of_ok
  rw [Action.run, step, Action.bind_plan _ (copy_plan h h' m)]
  rfl

theorem perform_copy_of_lt (h : (s.viewAt b).capacity < i.toNat + n.toNat) (source : Nat)
    (j : UInt64) (m : Memory) :
    s.perform m (.copy b i source j n) =
      (s, m, .error (.outOfBounds i.toNat n.toNat (s.viewAt b).capacity)) := by
  apply perform_of_error
  rw [Action.run, step, Action.bind_refused _ (copy_refused h _ _ m)]
  rfl

theorem perform_copy_of_source_lt (h : i.toNat + n.toNat ≤ (s.viewAt b).capacity)
    (h' : (s.viewAt source).capacity < j.toNat + n.toNat) (m : Memory) :
    s.perform m (.copy b i source j n) =
      (s, m, .error (.outOfBounds j.toNat n.toNat (s.viewAt source).capacity)) := by
  apply perform_of_error
  rw [Action.run, step, Action.bind_refused _ (copy_refused_source h h' m)]
  rfl

end Copying

/-- A command that makes no view, or makes it from a range of another one that it checks. -/
def Command.Checked : Command → Prop
  | cut .. | wrap .. | copy .. | access .. => True
  | heap _ | empty | span .. | rebind .. => False

/-- A family with the memory below it and the lines of its views. -/
structure Tree where
  family : Family
  memory : Memory
  members : List Descendant

namespace Tree

def ofHeap (size : UInt64) (m : Memory) : Tree :=
  ⟨Family.ofHeap size, m, [Descendant.root ⟨0, 0, size.toNat⟩]⟩

def memberAt (t : Tree) (b : Nat) : Descendant := t.members.getD b (Descendant.root View.empty)

/-- A range of a view, if that has it. -/
def part? (t : Tree) (parent offset n : Nat) : Option Descendant :=
  if offset + n ≤ (t.memberAt parent).view.capacity then some ((t.memberAt parent).part offset n)
  else none

def descend (t : Tree) : Command → List Descendant
  | .heap size => t.members ++ [Descendant.root ⟨t.family.heaps, 0, size.toNat⟩]
  | .empty => t.members ++ [Descendant.root View.empty]
  | .span offset length => t.members ++ [Descendant.root ⟨0, offset.toNat, length.toNat⟩]
  | .cut parent offset length =>
    t.members ++ (t.part? parent offset.toNat length.toNat).toList
  | .wrap b parent offset length =>
    (t.part? parent offset.toNat length.toNat).elim t.members (t.members.set b)
  | .rebind b offset length => t.members.set b (Descendant.root ⟨0, offset.toNat, length.toNat⟩)
  | .copy .. | .access .. => t.members

def step (t : Tree) (c : Command) : Tree :=
  let (family, memory, _) := t.family.perform t.memory c
  ⟨family, memory, t.descend c⟩

def run (t : Tree) (cs : List Command) : Tree := cs.foldl step t

/-- The lines are those of the views, every cut was in range, and capacities are words. -/
structure Sound (t : Tree) : Prop where
  views : t.family.views = t.members.map Descendant.view
  checked : ∀ x ∈ t.members, x.Checked
  words : ∀ x ∈ t.members, x.view.capacity < 0x10000000000000000

variable {t : Tree}

theorem sound_ofHeap (size : UInt64) (m : Memory) : (ofHeap size m).Sound where
  views := rfl
  checked x hx := by
    rw [List.mem_singleton.1 hx]
    exact .root _
  words x hx := by
    rw [List.mem_singleton.1 hx]
    exact size.toNat_lt

theorem Sound.viewAt_eq (h : t.Sound) (b : Nat) : t.family.viewAt b = (t.memberAt b).view := by
  simp only [viewAt, memberAt, h.views, List.getD_eq_getElem?_getD, List.getElem?_map]
  cases t.members[b]? with
  | none => rfl
  | some x => rfl

theorem memberAt_of_forall {P : Descendant → Prop} (hroot : P (Descendant.root View.empty))
    (h : ∀ x ∈ t.members, P x) (b : Nat) : P (t.memberAt b) := by
  rw [memberAt, List.getD_eq_getElem?_getD]
  cases hb : t.members[b]? with
  | none => exact hroot
  | some x => exact h x (List.mem_of_getElem? hb)

theorem Sound.checkedAt (h : t.Sound) (b : Nat) : (t.memberAt b).Checked :=
  memberAt_of_forall (.root _) h.checked b

theorem Sound.wordAt (h : t.Sound) (b : Nat) :
    (t.memberAt b).view.capacity < 0x10000000000000000 :=
  memberAt_of_forall (by decide) h.words b

/-- A view that a command makes. A command that is checked makes it inside one that was there. -/
structure Gains (t : Tree) (c : Command) (x : Descendant) : Prop where
  checked : x.Checked
  word : x.view.capacity < 0x10000000000000000
  inside : c.Checked → ∃ b, x.view.Inside (t.memberAt b).view

theorem Sound.gains_part (h : t.Sound) {parent offset n : Nat} {x : Descendant}
    (hx : x ∈ t.part? parent offset n) (c : Command) : t.Gains c x := by
  rw [part?] at hx
  split at hx
  · next hroom =>
    cases hx
    refine ⟨.part (h.checkedAt parent) hroom, ?_, fun _ => ⟨parent, slice_inside hroom⟩⟩
    have hword := h.wordAt parent
    change n < _
    omega
  · nomatch hx

theorem Sound.mem_descend (h : t.Sound) {c : Command} {x : Descendant} (hx : x ∈ t.descend c) :
    x ∈ t.members ∨ t.Gains c x := by
  cases c with
  | heap size =>
    refine (List.mem_append.1 hx).imp_right fun hx => ?_
    rw [List.mem_singleton.1 hx]
    exact ⟨.root _, size.toNat_lt, nofun⟩
  | empty =>
    refine (List.mem_append.1 hx).imp_right fun hx => ?_
    rw [List.mem_singleton.1 hx]
    exact ⟨.root _, by decide, nofun⟩
  | span offset length =>
    refine (List.mem_append.1 hx).imp_right fun hx => ?_
    rw [List.mem_singleton.1 hx]
    exact ⟨.root _, length.toNat_lt, nofun⟩
  | rebind b offset length =>
    refine (List.mem_or_eq_of_mem_set hx).imp_right fun hx => ?_
    rw [hx]
    exact ⟨.root _, length.toNat_lt, nofun⟩
  | cut parent offset length =>
    refine (List.mem_append.1 hx).imp_right fun hx => ?_
    exact h.gains_part (Option.mem_toList.1 hx) _
  | wrap b parent offset length =>
    cases hpart : t.part? parent offset.toNat length.toNat with
    | none =>
      rw [descend, hpart] at hx
      exact .inl hx
    | some y =>
      rw [descend, hpart] at hx
      refine (List.mem_or_eq_of_mem_set hx).imp_right fun hx => ?_
      rw [hx]
      exact h.gains_part hpart _
  | copy b i source j n => exact .inl hx
  | access b a => exact .inl hx

theorem Sound.views_step (h : t.Sound) (c : Command) :
    (t.step c).family.views = (t.descend c).map Descendant.view := by
  change (t.family.perform t.memory c).1.views = _
  cases c with
  | heap size =>
    rw [descend, List.map_append, ← h.views]
    rfl
  | empty =>
    rw [descend, List.map_append, ← h.views]
    rfl
  | span offset length =>
    rw [descend, List.map_append, ← h.views]
    rfl
  | rebind b offset length =>
    rw [descend, List.map_set, ← h.views]
    rfl
  | access b a =>
    rw [perform_access]
    exact h.views
  | copy b i source j n =>
    by_cases hto : i.toNat + n.toNat ≤ (t.family.viewAt b).capacity
    · by_cases hfrom : j.toNat + n.toNat ≤ (t.family.viewAt source).capacity
      · rw [perform_copy_of_le hto hfrom]
        exact h.views
      · rw [perform_copy_of_source_lt hto (Nat.lt_of_not_le hfrom)]
        exact h.views
    · rw [perform_copy_of_lt (Nat.lt_of_not_le hto)]
      exact h.views
  | cut parent offset length =>
    rw [descend, part?, ← h.viewAt_eq]
    split
    · next hroom =>
      rw [perform_cut_of_le hroom, Option.toList_some, List.map_append, ← h.views, h.viewAt_eq]
      rfl
    · next hroom =>
      rw [perform_cut_of_lt (Nat.lt_of_not_le hroom), Option.toList_none, List.append_nil]
      exact h.views
  | wrap b parent offset length =>
    rw [descend, part?, ← h.viewAt_eq]
    split
    · next hroom =>
      rw [perform_wrap_of_le hroom, Option.elim_some, List.map_set, ← h.views, h.viewAt_eq]
      rfl
    · next hroom =>
      rw [perform_wrap_of_lt (Nat.lt_of_not_le hroom)]
      exact h.views

theorem Sound.step (h : t.Sound) (c : Command) : (t.step c).Sound where
  views := h.views_step c
  checked x hx := (h.mem_descend hx).elim (h.checked x) Gains.checked
  words x hx := (h.mem_descend hx).elim (h.words x) Gains.word

theorem Sound.run (h : t.Sound) (cs : List Command) : (t.run cs).Sound := by
  induction cs generalizing t with
  | nil => exact h
  | cons c rest ih => exact ih (h.step c)

theorem Sound.inside_run (h : t.Sound) {size : Nat}
    (hinside : ∀ x ∈ t.members, x.view.Inside ⟨0, 0, size⟩) {cs : List Command}
    (hcs : ∀ c ∈ cs, c.Checked) : ∀ x ∈ (t.run cs).members, x.view.Inside ⟨0, 0, size⟩ := by
  induction cs generalizing t with
  | nil => exact hinside
  | cons c rest ih =>
    refine ih (h.step c) ?_ fun c hc => hcs c (List.mem_cons_of_mem _ hc)
    intro x hx
    rcases h.mem_descend hx with hx | hx
    · exact hinside x hx
    · obtain ⟨b, hb⟩ := hx.inside (hcs c List.mem_cons_self)
      exact hb.trans (memberAt_of_forall ⟨rfl, Nat.le_refl _, Nat.zero_le _⟩ hinside b)

/-- What holds of the views of a tree, of the accesses to them, of the copies between them and of
the views that are made from them. -/
structure Contained (t : Tree) : Prop where
  /-- The test of unsigned words is that of their sum, even where the sum would wrap. -/
  tested : ∀ (b : Nat) (i n : UInt64), ∃ c : UInt64, (t.family.viewAt b).capacity = c.toNat ∧
    (t.family.viewAt b).check i.toNat n.toNat =
      if c < i ∨ c - i < n then .error (.outOfBounds i.toNat n.toNat c.toNat) else .ok ()
  /-- A range of a view is the range further on of the view that it was cut from. -/
  denoted : ∀ (b i n : Nat) (origin : Origin) (rest : List Origin),
    (t.memberAt b).line = origin :: rest → i + n ≤ (t.family.viewAt b).capacity →
      (t.family.viewAt b).slice i n = origin.parent.slice (origin.offset + i) n ∧
      ∀ a : Access, a.range? = some (i, n) →
        a.run (t.family.viewAt b) = (a.shift origin.offset).run origin.parent
  /-- A range of a view lies inside all views that the view was cut from. -/
  nested : ∀ (b i n : Nat), i + n ≤ (t.family.viewAt b).capacity →
    ∀ origin ∈ (t.memberAt b).line, ((t.family.viewAt b).slice i n).Inside origin.parent
  /-- An access in range succeeds; it writes that range only and depends on no other bytes. -/
  accessed : ∀ (b : Nat) (a : Access) (i n : Nat), a.range? = some (i, n) →
    i + n ≤ (t.family.viewAt b).capacity →
      (∃ m r, t.family.perform t.memory (.access b a) = (t.family, m, .ok r)) ∧
      (a.run (t.family.viewAt b)).Within ((t.family.viewAt b).slice i n) ∧
      (a.run (t.family.viewAt b)).Sees ((t.family.viewAt b).slice i n)
  refused : ∀ (b : Nat) (a : Access) (i n : Nat), a.range? = some (i, n) →
    (t.family.viewAt b).capacity < i + n →
      t.family.perform t.memory (.access b a) =
        (t.family, t.memory, .error (.outOfBounds i n (t.family.viewAt b).capacity))
  /-- An access that names no range leaves memory alone. -/
  answered : ∀ (b : Nat) (a : Access), a.range? = none →
    ∃ answer, t.family.perform t.memory (.access b a) = (t.family, t.memory, answer)
  cut : ∀ (parent : Nat) (offset length : UInt64),
    t.family.perform t.memory (.cut parent offset length) =
      if offset.toNat + length.toNat ≤ (t.family.viewAt parent).capacity then
        ((t.family.add ((t.family.viewAt parent).slice offset.toNat length.toNat)).1, t.memory,
          .ok (.number t.family.views.length))
      else
        (t.family, t.memory,
          .error (.outOfBounds offset.toNat length.toNat (t.family.viewAt parent).capacity))
  wrapped : ∀ (b parent : Nat) (offset length : UInt64),
    t.family.perform t.memory (.wrap b parent offset length) =
      if offset.toNat + length.toNat ≤ (t.family.viewAt parent).capacity then
        ((t.family.set b ((t.family.viewAt parent).slice offset.toNat length.toNat)).1, t.memory,
          .ok .unit)
      else
        (t.family, t.memory,
          .error (.outOfBounds offset.toNat length.toNat (t.family.viewAt parent).capacity))
  /-- A copy puts what its source held before and changes nothing else, however the two overlap. -/
  copied : ∀ (b source : Nat) (i j n : UInt64),
    i.toNat + n.toNat ≤ (t.family.viewAt b).capacity →
    j.toNat + n.toNat ≤ (t.family.viewAt source).capacity →
      ∃ m, t.family.perform t.memory (.copy b i source j n) = (t.family, m, .ok .unit) ∧
        ((t.family.viewAt b).slice i.toNat n.toNat).bytes m =
          ((t.family.viewAt source).slice j.toNat n.toNat).bytes t.memory ∧
        ((t.family.viewAt b).slice i.toNat n.toNat).Confines t.memory m
  copyRefused : ∀ (b source : Nat) (i j n : UInt64),
    (t.family.viewAt b).capacity < i.toNat + n.toNat ∨
      (t.family.viewAt source).capacity < j.toNat + n.toNat →
      ∃ e, e.kind = .outOfRange ∧
        t.family.perform t.memory (.copy b i source j n) = (t.family, t.memory, .error e)

theorem Sound.contained (h : t.Sound) : t.Contained where
  tested b i n := by
    have hcapacity : (t.family.viewAt b).capacity =
        (UInt64.ofNat (t.family.viewAt b).capacity).toNat := by
      rw [UInt64.toNat_ofNat', Nat.mod_eq_of_lt]
      rw [h.viewAt_eq]
      exact h.wordAt b
    exact ⟨_, hcapacity, by rw [check_words hcapacity, ← hcapacity]⟩
  denoted b i n origin rest hline hroom := by
    obtain ⟨hslice, hfits⟩ := (h.checkedAt b).eq_slice hline
    rw [h.viewAt_eq] at hroom ⊢
    rw [hslice]
    exact ⟨slice_slice .., fun a ha => Access.run_slice ha hroom hfits⟩
  nested b i n hroom origin horigin := by
    rw [h.viewAt_eq] at hroom ⊢
    exact (slice_inside hroom).trans ((h.checkedAt b).inside origin horigin)
  accessed b a i n ha hroom := by
    refine ⟨?_, Access.run_within_range ha _, Access.run_sees_range ha _⟩
    rw [perform_access, Action.run, Access.run_of_le ha hroom]
    exact ⟨_, _, rfl⟩
  refused b a i n ha hlong := by
    rw [perform_access, Action.run, Access.run_of_lt ha hlong]
    rfl
  answered b a ha := by
    obtain ⟨answer, hrun⟩ := Access.run_of_none ha (t.family.viewAt b)
    rw [perform_access, Action.run, hrun]
    exact ⟨answer, rfl⟩
  cut parent offset length := by
    split
    · next hroom => exact perform_cut_of_le hroom _
    · next hroom => exact perform_cut_of_lt (Nat.lt_of_not_le hroom) _
  wrapped b parent offset length := by
    split
    · next hroom => exact perform_wrap_of_le hroom b _
    · next hroom => exact perform_wrap_of_lt (Nat.lt_of_not_le hroom) b _
  copied b source i j n hto hfrom := by
    have hlen : (((t.family.viewAt source).slice j.toNat n.toNat).bytes t.memory).length =
        n.toNat := length_bytes ..
    refine ⟨_, perform_copy_of_le hto hfrom _, ?_, fun u hu => ?_⟩
    · have hstored := bytes_slice_store_self (t.family.viewAt b) i.toNat
        (((t.family.viewAt source).slice j.toNat n.toNat).bytes t.memory) t.memory
      rwa [hlen] at hstored
    · refine bytes_store covers_writeAt ?_
      rwa [hlen]
  copyRefused b source i j n hlong := by
    by_cases hto : i.toNat + n.toNat ≤ (t.family.viewAt b).capacity
    · have hfrom := hlong.resolve_left (Nat.not_lt.2 hto)
      exact ⟨_, rfl, perform_copy_of_source_lt hto hfrom _⟩
    · exact ⟨_, rfl, perform_copy_of_lt (Nat.lt_of_not_le hto) source j _⟩

/-- From one heap on, whatever is cut, pointed elsewhere, copied and accessed, every view stays
inside the views that it was cut from, and inside the heap if all was done with checks. -/
theorem run_contained (size : UInt64) (m : Memory) (cs : List Command) :
    ((ofHeap size m).run cs).Contained ∧
      ((∀ c ∈ cs, c.Checked) →
        ∀ b, (((ofHeap size m).run cs).family.viewAt b).Inside ⟨0, 0, size.toNat⟩) := by
  have hsound := (sound_ofHeap size m).run cs
  refine ⟨hsound.contained, fun hcs b => ?_⟩
  have hheap : ∀ x ∈ (ofHeap size m).members, x.view.Inside ⟨0, 0, size.toNat⟩ := by
    intro x hx
    rw [List.mem_singleton.1 hx]
    exact Inside.refl _
  rw [hsound.viewAt_eq]
  exact memberAt_of_forall ⟨rfl, Nat.le_refl _, Nat.zero_le _⟩
    ((sound_ofHeap size m).inside_run hheap hcs) b

/-- A view that is pointed to a part of itself keeps the view that it was as its origin. -/
example : (((ofHeap 64 .zero).run [.cut 0 8 32, .wrap 1 1 4 8]).memberAt 1) =
    ⟨⟨0, 12, 8⟩, [⟨⟨0, 8, 32⟩, 4⟩, ⟨⟨0, 0, 64⟩, 8⟩]⟩ := rfl

end Tree

end Family

end Telemetry
