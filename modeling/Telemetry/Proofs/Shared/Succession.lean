import Telemetry.Proofs.Shared.Segment
import Telemetry.Shared.World

namespace Telemetry.Shared

theorem lookup_filter_of_ne {α β : Type} [BEq α] [LawfulBEq α] {k j : α} (h : j ≠ k)
    (xs : List (α × β)) : (xs.filter fun x => x.1 != k).lookup j = xs.lookup j := by
  induction xs with
  | nil => rfl
  | cons x rest ih =>
    obtain ⟨i, b⟩ := x
    by_cases hi : i = k
    · subst hi
      simp [List.lookup_cons, beq_eq_false_iff_ne.2 h, ih]
    · simp [List.lookup_cons, hi, ih]

namespace Namespace

variable {s : Namespace} {name n n' : Text} {region r size : Nat}

theorem find?_forget_of_ne (h : n ≠ n') : (s.forget n').find? n = s.find? n :=
  lookup_filter_of_ne h s.names

theorem lt_of_size_pos (h : 0 < s.size r) : r < s.sizes.length := by
  apply Nat.lt_of_not_le
  intro hle
  rw [Namespace.size, List.getD_eq_getElem?_getD, List.getElem?_eq_none hle] at h
  exact Nat.lt_irrefl 0 h

theorem find?_withNew_of_ne (h : n ≠ n') : (s.withNew n').find? n = s.find? n := by
  have hbeq : (n == n') = false := by simpa using h
  simp only [find?, withNew, List.lookup_cons, hbeq]

/-- A namespace in which the segments of another one have the same sizes. -/
structure Extends (s s' : Namespace) : Prop where
  count : s.sizes.length ≤ s'.sizes.length
  size_eq : ∀ r < s.sizes.length, s'.size r = s.size r

theorem Extends.refl (s : Namespace) : s.Extends s := ⟨Nat.le_refl _, fun _ _ => rfl⟩

theorem Extends.of_append {s' : Namespace} {size : Nat} (h : s'.sizes = s.sizes ++ [size]) :
    s.Extends s' := by
  refine ⟨?_, fun r hr => ?_⟩
  · rw [h, List.length_append]
    exact Nat.le_add_right ..
  · rw [Namespace.size, Namespace.size, h, List.getD_eq_getElem?_getD, List.getD_eq_getElem?_getD,
      List.getElem?_append_left hr]

variable [Platform]

theorem find?_unlink_self (h : segmentName name = .ok n) : (s.unlink name).find? n = none := by
  rw [unlink, h]
  exact find?_forget s n

theorem find?_unlink_of_ne (h : segmentName name ≠ .ok n) : (s.unlink name).find? n = s.find? n := by
  unfold unlink
  split
  · next n' hname =>
    apply find?_forget_of_ne
    intro heq
    exact h (heq ▸ hname)
  · rfl

theorem sizes_unlink (s : Namespace) (name : Text) : (s.unlink name).sizes = s.sizes := by
  unfold unlink
  split <;> rfl

theorem attach_eq_ok {p : Mapping} (h : s.attach name = .ok p) : ∃ n, segmentName name = .ok n ∧
    s.find? n = some p.region ∧ s.size p.region = p.size ∧ 0 < p.size := by
  unfold attach at h
  cases hname : segmentName name with
  | error e =>
    rw [hname] at h
    nomatch h
  | ok n =>
    simp only [hname, bind, Except.bind] at h
    cases hfind : s.find? n with
    | none =>
      rw [hfind] at h
      nomatch h
    | some region =>
      simp only [hfind] at h
      split at h
      · nomatch h
      · next hsize =>
        cases h
        exact ⟨n, rfl, hfind, rfl, Nat.pos_of_ne_zero hsize⟩

theorem attach_of_find?_none (hname : segmentName name = .ok n) (hfind : s.find? n = none) :
    s.attach name = .error .noEntry := by
  simp only [attach, hname, bind, Except.bind, hfind]
  rfl

theorem find?_resize_of_ne (h : n ≠ n') :
    (s.resize n' region size).space.find? n = s.find? n := by
  have hcases := s.resize_cases n' region size
  generalize s.resize n' region size = g at hcases ⊢
  cases hcases with
  | tooLarge _ | unmapped _ _ => exact find?_forget_of_ne h
  | mapped _ _ => rfl

theorem sizes_resize (s : Namespace) (n : Text) (region size : Nat) :
    (s.resize n region size).space.sizes = s.sizes ∨
      (s.resize n region size).space.sizes = s.sizes.set region size := by
  have hcases := s.resize_cases n region size
  generalize s.resize n region size = g at hcases ⊢
  cases hcases with
  | tooLarge _ => exact .inl rfl
  | unmapped _ _ | mapped _ _ => exact .inr rfl

theorem find?_create_of_ne (h : segmentName name ≠ .ok n) :
    (s.create name size false true).space.find? n = s.find? n := by
  rcases s.takeover_cases name size with ⟨e, hcreate⟩ | ⟨n', -, hname, hcreate⟩
  · rw [hcreate]
  · have hne : n ≠ n' := fun heq => h (heq ▸ hname)
    rw [hcreate, find?_resize_of_ne hne, find?_withNew_of_ne hne, find?_forget_of_ne hne]

theorem create_extends (s : Namespace) (name : Text) (size : Nat) :
    s.Extends (s.create name size false true).space := by
  rcases s.takeover_cases name size with ⟨e, hcreate⟩ | ⟨n, -, -, hcreate⟩
  · rw [hcreate]
    exact .refl s
  · rw [hcreate]
    rcases sizes_resize ((s.forget n).withNew n) n s.sizes.length size with hsizes | hsizes
    · exact .of_append hsizes
    · have hset : (s.sizes ++ [0]).set s.sizes.length size = s.sizes ++ [size] := by simp
      exact .of_append (hsizes.trans hset)

theorem region_lt_of_attach {p : Mapping} (h : s.attach name = .ok p) :
    p.region < s.sizes.length := by
  obtain ⟨n, -, -, hsize, hpos⟩ := attach_eq_ok h
  exact lt_of_size_pos (hsize ▸ hpos)

end Namespace

namespace Buffer

def held (b : Buffer) : List Buffer := if b.owner then [b] else []

variable {b x : Buffer} {s s' : Namespace} {name n : Text} {owners later made ended : List Buffer}

theorem held_of_owner (h : b.owner = true) : b.held = [b] := if_pos h

theorem held_of_not_owner (h : b.owner = false) : b.held = [] := if_neg (by rw [h]; decide)

variable [Platform]

/-- A buffer was created by a name, or by another that means the same. -/
def Bears (b : Buffer) (n : Text) : Prop := segmentName b.name = .ok n

def endAll (ended : List Buffer) (s : Namespace) : Namespace :=
  ended.foldl (fun s b => b.release s) s

/-- Owners, each over a segment of its own. -/
structure Apart (owners : List Buffer) (s : Namespace) : Prop where
  nodup : owners.Nodup
  owner : ∀ b ∈ owners, b.owner = true
  placed : ∀ b ∈ owners, ∃ p, b.mapping = some p ∧ p.region < s.sizes.length

theorem release_eq_endAll (b : Buffer) (s : Namespace) : b.release s = endAll b.held s := by
  unfold release held
  split
  · next h =>
    change _ = b.release s
    rw [release, if_pos h]
  · rfl

theorem sizes_endAll (ended : List Buffer) (s : Namespace) : (endAll ended s).sizes = s.sizes := by
  induction ended generalizing s with
  | nil => rfl
  | cons b rest ih =>
    refine (ih (b.release s)).trans ?_
    unfold release
    split
    · exact Namespace.sizes_unlink s b.name
    · rfl

theorem find?_endAll_of_forall (h : ∀ b ∈ ended, ¬ b.Bears n) (s : Namespace) :
    (endAll ended s).find? n = s.find? n := by
  induction ended generalizing s with
  | nil => rfl
  | cons b rest ih =>
    refine (ih (fun b hb => h b (List.mem_cons_of_mem _ hb)) (b.release s)).trans ?_
    unfold release
    split
    · exact Namespace.find?_unlink_of_ne (h b List.mem_cons_self)
    · rfl

theorem find?_release_of_none (h : s.find? n = none) (b : Buffer) : (b.release s).find? n = none := by
  unfold release
  split
  · by_cases hb : b.Bears n
    · exact Namespace.find?_unlink_self hb
    · exact (Namespace.find?_unlink_of_ne hb).trans h
  · exact h

theorem find?_endAll_of_none (h : s.find? n = none) (ended : List Buffer) :
    (endAll ended s).find? n = none := by
  induction ended generalizing s with
  | nil => exact h
  | cons b rest ih => exact ih (find?_release_of_none h b)

theorem find?_endAll_of_mem (hb : b ∈ ended) (howner : b.owner = true) (hbears : b.Bears n)
    (s : Namespace) : (endAll ended s).find? n = none := by
  induction ended generalizing s with
  | nil => nomatch hb
  | cons c rest ih =>
    rcases List.mem_cons.1 hb with rfl | hrest
    · change (Buffer.endAll rest (b.release s)).find? n = none
      apply find?_endAll_of_none
      rw [release, if_pos howner]
      exact Namespace.find?_unlink_self hbears
    · exact ih hrest (c.release s)

theorem Apart.endAll (h : Apart owners s) (hperm : (ended ++ later).Perm owners) :
    Apart later (endAll ended s) := by
  have hlater : ∀ b ∈ later, b ∈ owners := fun b hb => hperm.subset (List.mem_append_right _ hb)
  refine ⟨?_, fun b hb => h.owner b (hlater b hb), fun b hb => ?_⟩
  · exact (List.nodup_append.1 (hperm.nodup_iff.2 h.nodup)).2.1
  · rw [sizes_endAll]
    exact h.placed b (hlater b hb)

/-- Where a name leads that some buffers bear, of which the last one created maps `p`: there, as
long as all of them are owners, and nowhere from when one of them ended. -/
structure Leads (bearer : Buffer → Prop) (n : Text) (p : Mapping) (owners : List Buffer)
    (s : Namespace) : Prop where
  known : ∀ b ∈ owners, b.Bears n → bearer b
  bears : ∀ b, bearer b → b.Bears n
  reached : (∀ b, bearer b → b ∈ owners) → s.find? n = some p.region
  lost : ∀ b, bearer b → b ∉ owners → s.find? n = none
  size_eq : s.size p.region = p.size
  size_pos : 0 < p.size

variable {bearer : Buffer → Prop} {p : Mapping}

theorem Leads.endAll (h : Leads bearer n p owners s) (hapart : Apart owners s)
    (hperm : (ended ++ later).Perm owners) : Leads bearer n p later (endAll ended s) := by
  have hlater : ∀ b ∈ later, b ∈ owners := fun b hb => hperm.subset (List.mem_append_right _ hb)
  have hended : ∀ b ∈ ended, b ∈ owners := fun b hb => hperm.subset (List.mem_append_left _ hb)
  have hsplit : ∀ b ∈ owners, b ∈ ended ∨ b ∈ later := fun b hb =>
    List.mem_append.1 (hperm.symm.subset hb)
  have hdisjoint := (List.nodup_append.1 (hperm.nodup_iff.2 hapart.nodup)).2.2
  constructor
  · exact fun b hb => h.known b (hlater b hb)
  · exact h.bears
  · intro hall
    rw [find?_endAll_of_forall]
    · exact h.reached fun b hb => hlater b (hall b hb)
    · intro b hb hbears
      have hbearer := h.known b (hended b hb) hbears
      exact hdisjoint b hb b (hall b hbearer) rfl
  · intro b hb hnot
    by_cases howns : b ∈ owners
    · have hmem := (hsplit b howns).resolve_right hnot
      exact find?_endAll_of_mem hmem (hapart.owner b howns) (h.bears b hb) s
    · exact find?_endAll_of_none (h.lost b hb howns) ended
  · rw [Namespace.size, sizes_endAll]
    exact h.size_eq
  · exact h.size_pos

theorem Leads.attach_eq (h : Leads bearer n p owners s) (hname : segmentName name = .ok n)
    (hall : ∀ b, bearer b → b ∈ owners) : s.attach name = .ok p :=
  Namespace.attach_of_find? hname (h.reached hall) h.size_eq h.size_pos

theorem Leads.attach_lost (h : Leads bearer n p owners s)
    (hname : segmentName name = .ok n) (hb : bearer b) (hnot : b ∉ owners) :
    s.attach name = .error .noEntry :=
  Namespace.attach_of_find?_none hname (h.lost b hb hnot)

end Buffer

def Command.creates? : Command → Option Text
  | .createBuffer _ name _ | .createBoard _ name .. => some name
  | .configureBoard _ d => (Settings.ofDocument d).toOption.map Settings.name
  | .create _ name .. => name
  | _ => none

/-- A command that creates, attaches, moves or ends buffers and boards, or asks for their state. -/
def Command.Lifecycle : Command → Prop
  | .createBuffer .. | .attachBuffer .. | .moveBuffer .. | .assignBuffer .. | .dropBuffer _
  | .bufferState _ | .createBoard .. | .configureBoard .. | .attachBoard .. | .moveBoard ..
  | .dropBoard _ | .boardCapacity _ | .boardState _ => True
  | .create .. | .attach .. | .close _ | .unlink _ | .access .. | .accessBuffer .. | .call .. => False

variable [Platform]

/-- What a command does before anything ends: it may create a segment and own it. -/
inductive Command.Begins (c : Command) (s : Namespace) : Namespace → List Buffer → Prop
  | nothing : Begins c s s []
  | refused {name : Text} {length : Nat} {s' : Namespace} {e : Fault}
      (hname : c.creates? = some name) (h : Buffer.create s name length = (s', .error e)) :
      Begins c s s' []
  | made {name : Text} {length : Nat} {s' : Namespace} {x : Buffer}
      (hname : c.creates? = some name) (h : Buffer.create s name length = (s', .ok x)) :
      Begins c s s' [x]

section Beginning

open Buffer

variable {c : Command} {s s' : Namespace} {name n : Text} {length : Nat} {x : Buffer}
  {owners made : List Buffer} {bearer : Buffer → Prop} {p : Mapping}

theorem Buffer.create_owner (h : create s name length = (s', .ok x)) :
    x = ⟨name, some ⟨s.sizes.length, length⟩, true⟩ ∧ s'.attach name = .ok ⟨s.sizes.length, length⟩ := by
  obtain ⟨-, -, hx, hattach⟩ := create_eq_ok (congrArg Prod.snd h)
  have hspace : (create s name length).1 = s' := congrArg Prod.fst h
  exact ⟨hx, hspace ▸ hattach⟩

theorem Buffer.create_extends {y : Except Fault Buffer} (h : create s name length = (s', y)) :
    s.Extends s' := by
  have hspace : (create s name length).1 = s' := congrArg Prod.fst h
  rw [← hspace]
  exact s.create_extends name length

theorem Buffer.find?_create_of_ne {y : Except Fault Buffer}
    (h : create s name length = (s', y)) (hn : segmentName name ≠ .ok n) :
    s'.find? n = s.find? n := by
  have hspace : (create s name length).1 = s' := congrArg Prod.fst h
  rw [← hspace]
  exact Namespace.find?_create_of_ne hn

theorem Command.Begins.extends (h : c.Begins s s' made) : s.Extends s' := by
  cases h with
  | nothing => exact .refl s
  | refused hname h => exact create_extends h
  | made hname h => exact create_extends h

theorem Command.Begins.apart (h : c.Begins s s' made) (hapart : Apart owners s) :
    Apart (made ++ owners) s' := by
  have hextends := h.extends
  have hplaced : ∀ b ∈ owners, ∃ p, b.mapping = some p ∧ p.region < s'.sizes.length := by
    intro b hb
    obtain ⟨p, hp, hlt⟩ := hapart.placed b hb
    exact ⟨p, hp, Nat.lt_of_lt_of_le hlt hextends.count⟩
  cases h with
  | nothing => exact ⟨hapart.nodup, hapart.owner, hplaced⟩
  | refused hname h => exact ⟨hapart.nodup, hapart.owner, hplaced⟩
  | made hname h =>
    obtain ⟨rfl, hattach⟩ := create_owner h
    refine ⟨List.nodup_cons.2 ⟨fun hmem => ?_, hapart.nodup⟩, fun b hb => ?_, fun b hb => ?_⟩
    · -- the new segment is behind all others
      obtain ⟨p, hp, hlt⟩ := hapart.placed _ hmem
      cases hp
      exact Nat.lt_irrefl _ hlt
    · rcases List.mem_cons.1 hb with rfl | hb
      · rfl
      · exact hapart.owner b hb
    · rcases List.mem_cons.1 hb with rfl | hb
      · exact ⟨_, rfl, Namespace.region_lt_of_attach hattach⟩
      · exact hplaced b hb

theorem Command.Begins.leads (h : c.Begins s s' made) (hleads : Leads bearer n p owners s)
    (hother : ∀ name, c.creates? = some name → segmentName name ≠ .ok n) :
    Leads bearer n p (made ++ owners) s' := by
  have hsize : s'.size p.region = p.size := by
    rw [h.extends.size_eq, hleads.size_eq]
    exact Namespace.lt_of_size_pos (hleads.size_eq ▸ hleads.size_pos)
  cases h with
  | nothing => exact hleads
  | refused hname h =>
    have hfind := find?_create_of_ne h (hother _ hname)
    exact ⟨hleads.known, hleads.bears, fun hall => hfind.trans (hleads.reached hall),
      fun b hb hnot => hfind.trans (hleads.lost b hb hnot), hsize, hleads.size_pos⟩
  | @made name length _ x hname h =>
    have hfind := find?_create_of_ne h (hother _ hname)
    obtain ⟨hx, -⟩ := create_owner h
    have hnot : ¬ x.Bears n := by
      rw [hx]
      exact hother name hname
    refine ⟨fun b hb hbears => ?_, hleads.bears, fun hall => ?_, fun b hb hgone => ?_, hsize,
      hleads.size_pos⟩
    · rcases List.mem_cons.1 hb with rfl | hb
      · exact absurd hbears hnot
      · exact hleads.known b hb hbears
    · refine hfind.trans (hleads.reached fun b hb => ?_)
      refine (List.mem_cons.1 (hall b hb)).resolve_left fun hbx => ?_
      exact hnot (hbx ▸ hleads.bears b hb)
    · exact hfind.trans (hleads.lost b hb fun hmem => hgone (List.mem_cons_of_mem _ hmem))

end Beginning

end Telemetry.Shared
