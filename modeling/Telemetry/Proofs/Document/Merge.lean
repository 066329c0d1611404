import Telemetry.Proofs.Document.Keys

namespace Telemetry.Document

def at? (d : Document) : List Text → Option Document
  | [] => some d
  | key :: rest => (d.get? key).bind fun v => at? v rest

/-- A path that leads to a value that is no object. -/
structure Leaf (d : Document) (path : List Text) (v : Document) : Prop where
  found : d.at? path = some v
  plain : v.isObject = false

/-- Nothing of a document stands in the way of a path: it holds nothing there, and no leaf where the
path passes through. -/
structure Passes (d : Document) (path : List Text) : Prop where
  absent : d.at? path = none
  noLeaf : ∀ front, front <+: path → front ≠ path → ∀ v, ¬ d.Leaf front v

section Paths

variable {d v w : Document} {key : Text} {rest : List Text}

theorem at?_cons_of_some (h : d.get? key = some v) : d.at? (key :: rest) = v.at? rest := by
  rw [at?, h, Option.bind_some]

theorem at?_cons_of_none (h : d.get? key = none) : d.at? (key :: rest) = none := by
  rw [at?, h, Option.bind_none]

theorem leaf_nil_iff : d.Leaf [] v ↔ d = v ∧ v.isObject = false :=
  ⟨fun h => ⟨Option.some.inj h.found, h.plain⟩, fun ⟨hd, hv⟩ => ⟨congrArg some hd, hv⟩⟩

theorem leaf_cons_of_some (h : d.get? key = some w) : d.Leaf (key :: rest) v ↔ w.Leaf rest v := by
  constructor
  · rintro ⟨hfound, hplain⟩
    exact ⟨at?_cons_of_some h ▸ hfound, hplain⟩
  · rintro ⟨hfound, hplain⟩
    exact ⟨(at?_cons_of_some h).trans hfound, hplain⟩

theorem not_leaf_cons_of_none (h : d.get? key = none) : ¬ d.Leaf (key :: rest) v := by
  intro hleaf
  have hfound := hleaf.found
  rw [at?_cons_of_none h] at hfound
  cases hfound

theorem not_leaf_nil (h : d.isObject) : ¬ d.Leaf [] v := by
  intro hleaf
  obtain ⟨rfl, hplain⟩ := leaf_nil_iff.1 hleaf
  rw [h] at hplain
  cases hplain

theorem passes_cons_of_none (hd : d.isObject) (h : d.get? key = none) : d.Passes (key :: rest) := by
  refine ⟨at?_cons_of_none h, fun front hfront _ v => ?_⟩
  cases front with
  | nil => exact not_leaf_nil hd
  | cons k front =>
    obtain ⟨rfl, -⟩ := List.cons_prefix_cons.1 hfront
    exact not_leaf_cons_of_none h

theorem passes_cons_of_some (hd : d.isObject) (h : d.get? key = some v) :
    d.Passes (key :: rest) ↔ v.Passes rest := by
  constructor
  · rintro ⟨habsent, hnoLeaf⟩
    refine ⟨at?_cons_of_some h ▸ habsent, fun front hfront hne w hleaf => ?_⟩
    refine hnoLeaf (key :: front) (List.cons_prefix_cons.2 ⟨rfl, hfront⟩) ?_ w ?_
    · exact fun heq => hne (List.cons.inj heq).2
    · exact (leaf_cons_of_some h).2 hleaf
  · rintro ⟨habsent, hnoLeaf⟩
    refine ⟨(at?_cons_of_some h).trans habsent, fun front hfront hne w hleaf => ?_⟩
    cases front with
    | nil => exact not_leaf_nil hd hleaf
    | cons k front =>
      obtain ⟨rfl, hrest⟩ := List.cons_prefix_cons.1 hfront
      refine hnoLeaf front hrest ?_ w ((leaf_cons_of_some h).1 hleaf)
      exact fun heq => hne (congrArg (k :: ·) heq)

theorem not_passes_nil : ¬ d.Passes [] := by
  intro hpasses
  cases hpasses.absent

/-- Of two values under one key that are not both objects, the upper one stands in the way of every
leaf of the lower one. -/
theorem not_passes_of_leaf (h : ¬ (d.isObject ∧ w.isObject)) (hleaf : w.Leaf rest v) :
    ¬ d.Passes rest := by
  intro hpasses
  cases rest with
  | nil => exact not_passes_nil hpasses
  | cons key rest =>
    have hw : w.isObject := by
      cases hget : w.get? key with
      | none => exact absurd hleaf (not_leaf_cons_of_none hget)
      | some _ => exact isObject_of_get? hget
    have hd : d.isObject = false := Bool.eq_false_iff.2 fun hd => h ⟨hd, hw⟩
    exact hpasses.noLeaf [] List.nil_prefix (List.cons_ne_nil key rest).symm d ⟨rfl, hd⟩

end Paths

section Merging

variable {base upper below value : Document}

theorem layOver_none (value : Document) : layOver none value = value := by
  simp [layOver]

theorem layOver_of_not_both (h : ¬ (value.isObject ∧ below.isObject)) :
    layOver (some below) value = value := by
  apply layOver_of_not_object
  rwa [← Bool.and_eq_true, Bool.not_eq_true, Bool.and_eq_false_iff] at h

theorem isObject_merge (hbase : base.isObject) : (base.merge upper).isObject := by
  cases upper with
  | object _ => rfl
  | _ => exact hbase

theorem merge_of_not_object (h : upper.isObject = false) : base.merge upper = base := by
  cases upper with
  | object _ => cases h
  | _ => rfl

/-- A path is a leaf of what is laid over something exactly if it is one of the upper value, or one
of the lower value that the upper one does not stand in the way of. -/
theorem leaf_merge (hbase : base.isObject) (hupper : upper.isObject) (tidy : upper.Tidy)
    (path : List Text) (v : Document) :
    (base.merge upper).Leaf path v ↔ upper.Leaf path v ∨ base.Leaf path v ∧ upper.Passes path := by
  induction path generalizing base upper with
  | nil =>
    refine iff_of_false (not_leaf_nil (isObject_merge hbase)) ?_
    rintro (hleaf | ⟨hleaf, -⟩)
    · exact not_leaf_nil hupper hleaf
    · exact not_leaf_nil hbase hleaf
  | cons key rest ih =>
    have hmerged := get?_merge tidy base key
    cases hu : upper.get? key with
    | none =>
      rw [hu] at hmerged
      have hpasses : upper.Passes (key :: rest) := passes_cons_of_none hupper hu
      rw [iff_false_intro (not_leaf_cons_of_none hu), false_or, and_iff_left hpasses]
      cases hb : base.get? key with
      | none =>
        exact iff_of_false (not_leaf_cons_of_none (hmerged.trans hb)) (not_leaf_cons_of_none hb)
      | some b => rw [leaf_cons_of_some (hmerged.trans hb), leaf_cons_of_some hb]
    | some u =>
      rw [hu] at hmerged
      rw [leaf_cons_of_some hmerged, leaf_cons_of_some hu, passes_cons_of_some hupper hu]
      cases hb : base.get? key with
      | none =>
        rw [iff_false_intro (not_leaf_cons_of_none hb), false_and, or_false, layOver_none]
      | some b =>
        rw [leaf_cons_of_some hb]
        by_cases hobjects : u.isObject ∧ b.isObject
        · obtain ⟨huo, hbo⟩ := hobjects
          rw [layOver_of_objects hbo huo]
          exact ih hbo huo (tidy.get? hu)
        · -- the upper value replaces the lower one with all its leaves
          have hnot : ¬ (b.Leaf rest v ∧ u.Passes rest) := fun ⟨hleaf, hpasses⟩ =>
            not_passes_of_leaf hobjects hleaf hpasses
          rw [layOver_of_not_both hobjects, iff_false_intro hnot, or_false]

theorem setField_of_lookup {fs : List (Text × Document)} {key : Text}
    (h : fs.lookup key = some value) : setField fs key value = fs := by
  induction fs with
  | nil => cases h
  | cons f rest ih =>
    obtain ⟨k, v⟩ := f
    by_cases hk : k = key
    · rw [hk, List.lookup_cons_self, Option.some.injEq] at h
      rw [setField, if_pos hk, h]
    · rw [List.lookup_cons, beq_false_of_ne (Ne.symm hk)] at h
      rw [setField, if_neg hk, ih h]

theorem mergeFields_of_settled {fs overrides : List (Text × Document)}
    (h : ∀ f ∈ overrides, ∃ v, fs.lookup f.1 = some v ∧ layOver (some v) f.2 = v) :
    mergeFields fs overrides = fs := by
  induction overrides with
  | nil => rfl
  | cons f rest ih =>
    obtain ⟨key, value⟩ := f
    obtain ⟨⟨v, hlookup, hlaid⟩, hrest⟩ := List.forall_mem_cons.1 h
    have hset : setField fs key (layOver (fs.lookup key) value) = fs := by
      rw [hlookup, hlaid]
      exact setField_of_lookup hlookup
    calc mergeFields fs ((key, value) :: rest)
        = mergeFields (setField fs key (layOver (fs.lookup key) value)) rest := rfl
      _ = mergeFields fs rest := by rw [hset]
      _ = fs := ih hrest

theorem lookup_of_mem {fs : List (Text × Document)} {f : Text × Document}
    (keys : (fs.map Prod.fst).Nodup) (h : f ∈ fs) : fs.lookup f.1 = some f.2 := by
  induction fs with
  | nil => cases h
  | cons g rest ih =>
    obtain ⟨k, v⟩ := g
    obtain ⟨habsent, hrest⟩ := List.nodup_cons.1 keys
    rcases List.mem_cons.1 h with rfl | hf
    · exact List.lookup_cons_self
    · have hne : f.1 ≠ k := by
        rintro rfl
        exact habsent (List.mem_map.2 ⟨f, hf, rfl⟩)
      rw [List.lookup_cons, beq_false_of_ne hne]
      exact ih hrest hf

theorem merge_self (tidy : upper.Tidy) : upper.merge upper = upper := by
  induction tidy with
  | @object fs keys each ih =>
    have hsettled : mergeFields fs fs = fs := by
      apply mergeFields_of_settled
      intro f hf
      refine ⟨f.2, lookup_of_mem keys hf, ?_⟩
      by_cases hobject : f.2.isObject
      · rw [layOver_of_objects hobject hobject, ih f hf]
      · exact layOver_of_not_both fun h => hobject h.1
    exact congrArg object hsettled
  | _ => rfl

theorem merge_merge (tidy : upper.Tidy) (base : Document) :
    (base.merge upper).merge upper = base.merge upper := by
  induction tidy generalizing base with
  | @object fs keys each ih =>
    have hsettled : mergeFields (mergeFields base.fields fs) fs = mergeFields base.fields fs := by
      apply mergeFields_of_settled
      intro f hf
      have hlookup := lookup_mergeFields keys base.fields f.1
      rw [lookup_of_mem keys hf] at hlookup
      refine ⟨_, hlookup, ?_⟩
      by_cases hobject : f.2.isObject
      · cases hb : base.fields.lookup f.1 with
        | none => rw [layOver_none, layOver_of_objects hobject hobject, merge_self (each f hf)]
        | some b =>
          by_cases hbo : b.isObject
          · rw [layOver_of_objects hbo hobject, layOver_of_objects (isObject_merge hbo) hobject,
              ih f hf]
          · rw [layOver_of_not_both (fun h => hbo h.2), layOver_of_objects hobject hobject,
              merge_self (each f hf)]
      · have hreplaced (below : Option Document) : layOver below f.2 = f.2 := by
          cases below with
          | none => exact layOver_none f.2
          | some b => exact layOver_of_not_both fun h => hobject h.1
        rw [hreplaced, hreplaced]
    exact congrArg object hsettled
  | _ => rfl

theorem tidy_object_iff {fs : List (Text × Document)} :
    (object fs).Tidy ↔ (fs.map Prod.fst).Nodup ∧ ∀ f ∈ fs, f.2.Tidy := by
  constructor
  · intro h
    cases h with
    | object keys each => exact ⟨keys, each⟩
  · rintro ⟨keys, each⟩
    exact .object keys each

theorem tidy_fields (tidy : base.Tidy) : (object base.fields).Tidy := by
  cases tidy with
  | object keys each => exact .object keys each
  | _ => exact .object List.nodup_nil fun _ h => nomatch h

theorem tidy_mergeFields {fs overrides : List (Text × Document)} (tidy : (object fs).Tidy)
    (h : ∀ f ∈ overrides, ∀ below : Option Document, (∀ b, below = some b → b.Tidy) →
      (layOver below f.2).Tidy) : (object (mergeFields fs overrides)).Tidy := by
  induction overrides generalizing fs with
  | nil => exact tidy
  | cons f rest ih =>
    obtain ⟨hf, hrest⟩ := List.forall_mem_cons.1 h
    refine ih (tidy.setField f.1 (hf (fs.lookup f.1) fun b hb => ?_)) hrest
    exact tidy.get? hb

theorem tidy_merge (tidyBase : base.Tidy) (tidy : upper.Tidy) : (base.merge upper).Tidy := by
  induction tidy generalizing base with
  | @object fs keys each ih =>
    refine tidy_mergeFields (tidy_fields tidyBase) fun f hf below hbelow => ?_
    cases below with
    | none =>
      rw [layOver_none]
      exact each f hf
    | some b =>
      by_cases hobjects : f.2.isObject ∧ b.isObject
      · rw [layOver_of_objects hobjects.2 hobjects.1]
        exact ih f hf (hbelow b rfl)
      · rw [layOver_of_not_both hobjects]
        exact each f hf
  | _ => exact tidyBase

/-- One object laid over another is an object whose leaves are those of the upper one and those of
the lower one that the upper one does not stand in the way of. To lay it over a second time changes
nothing, and what is no object changes nothing. -/
theorem merge_leaves (tidyBase : base.Tidy) (tidy : upper.Tidy) :
    (base.isObject → upper.isObject → (base.merge upper).isObject ∧ (base.merge upper).Tidy ∧
      ∀ path v, (base.merge upper).Leaf path v ↔
        upper.Leaf path v ∨ base.Leaf path v ∧ upper.Passes path) ∧
    (base.merge upper).merge upper = base.merge upper ∧
    (upper.isObject = false → base.merge upper = base) :=
  ⟨fun hbase hupper => ⟨isObject_merge hbase, tidy_merge tidyBase tidy,
    leaf_merge hbase hupper tidy⟩, merge_merge tidy base, merge_of_not_object⟩

/-- Objects and values under the same keys: an object below an object, below a number and below
nothing, a number below an object, and an object without a key. -/
def plain : Document :=
  object [([97], object [([120], int 1), ([121], object [])]), ([98], int 5),
    ([99], object [([122], int 2)]), ([100], object [([120], int 3)])]

def overlay : Document :=
  object [([97], object [([121], int 6)]), ([98], object [([119], int 4)]), ([99], object []),
    ([100], null)]

theorem merge_leaves_overlay : plain.Tidy ∧ overlay.Tidy ∧
    (∀ path v, (plain.merge overlay).Leaf path v ↔
      overlay.Leaf path v ∨ plain.Leaf path v ∧ overlay.Passes path) ∧
    (plain.merge overlay).Leaf [[97], [120]] (int 1) ∧
    (∀ v, ¬ (plain.merge overlay).Leaf [[98]] v) ∧
    (plain.merge overlay).Leaf [[98], [119]] (int 4) ∧
    (plain.merge overlay).Leaf [[99], [122]] (int 2) ∧
    (plain.merge overlay).Leaf [[100]] null ∧
    (plain.merge overlay).merge overlay = plain.merge overlay := by
  have tidyPlain : plain.Tidy := by
    simp [plain, tidy_object_iff, Tidy.int]
  have tidyOverlay : overlay.Tidy := by
    simp [overlay, tidy_object_iff, Tidy.int, Tidy.null]
  obtain ⟨hobjects, hagain, -⟩ := merge_leaves tidyPlain tidyOverlay
  obtain ⟨-, -, hleaves⟩ := hobjects rfl rfl
  refine ⟨tidyPlain, tidyOverlay, hleaves, ⟨rfl, rfl⟩, fun v hleaf => ?_, ?_, ⟨rfl, rfl⟩, ?_,
    hagain⟩
  · cases hleaf.found
    cases hleaf.plain
  · exact (hleaves _ _).2 (.inl ⟨rfl, rfl⟩)
  · exact (hleaves _ _).2 (.inl ⟨rfl, rfl⟩)

end Merging

end Telemetry.Document
