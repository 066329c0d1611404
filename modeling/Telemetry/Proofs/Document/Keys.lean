import Telemetry.Document.Parse

namespace Telemetry.Document

/-- A document in which no object has a key twice. -/
inductive Tidy : Document → Prop
  | null : Tidy null
  | bool (b : Bool) : Tidy (bool b)
  | int (n : Int) : Tidy (int n)
  | decimal (mantissa exponent : Int) : Tidy (decimal mantissa exponent)
  | text (t : Text) : Tidy (text t)
  | array {items : List Document} (each : ∀ d ∈ items, Tidy d) : Tidy (array items)
  | object {fs : List (Text × Document)} (keys : (fs.map Prod.fst).Nodup)
      (each : ∀ f ∈ fs, Tidy f.2) : Tidy (object fs)

/-- Assumption of readers: one value is kept for each key of an object. -/
def Parser.Tidies (parser : Parser) : Prop := ∀ t d, parser t = .ok d → d.Tidy

section Fields

variable {fs : List (Text × Document)} {key other : Text} {value : Document}

@[simp]
theorem lookup_setField_self : (setField fs key value).lookup key = some value := by
  induction fs with
  | nil => simp [setField]
  | cons f rest ih =>
    obtain ⟨k, v⟩ := f
    by_cases hk : k = key
    · simp [setField, hk]
    · simp [setField, hk, List.lookup_cons, beq_false_of_ne (Ne.symm hk), ih]

theorem lookup_setField_of_ne (h : other ≠ key) :
    (setField fs key value).lookup other = fs.lookup other := by
  induction fs with
  | nil => simp [setField, List.lookup_cons, beq_false_of_ne h]
  | cons f rest ih =>
    obtain ⟨k, v⟩ := f
    by_cases hk : k = key
    · simp [setField, hk, List.lookup_cons, beq_false_of_ne h]
    · simp [setField, hk, List.lookup_cons, ih]

theorem mem_setField {f : Text × Document} (h : f ∈ setField fs key value) :
    f ∈ fs ∨ f = (key, value) := by
  induction fs with
  | nil => exact .inr (List.mem_singleton.1 h)
  | cons f' rest ih =>
    obtain ⟨k, v⟩ := f'
    by_cases hk : k = key
    · rw [setField, if_pos hk, List.mem_cons, hk] at h
      exact h.symm.imp (List.mem_cons_of_mem _) id
    · rw [setField, if_neg hk, List.mem_cons] at h
      rcases h with rfl | h
      · exact .inl List.mem_cons_self
      · exact (ih h).imp (List.mem_cons_of_mem _) id

theorem nodup_setField (h : (fs.map Prod.fst).Nodup) :
    ((setField fs key value).map Prod.fst).Nodup := by
  induction fs with
  | nil => simp [setField]
  | cons f rest ih =>
    obtain ⟨k, v⟩ := f
    obtain ⟨habsent, hrest⟩ := List.nodup_cons.1 h
    by_cases hk : k = key
    · simpa only [setField, if_pos hk, List.map_cons] using h
    · rw [setField, if_neg hk, List.map_cons]
      refine List.nodup_cons.2 ⟨fun hin => ?_, ih hrest⟩
      obtain ⟨f, hf, hfk⟩ := List.mem_map.1 hin
      rcases mem_setField hf with hf | rfl
      · exact habsent (List.mem_map.2 ⟨f, hf, hfk⟩)
      · exact hk hfk.symm

theorem mem_of_lookup (h : fs.lookup key = some value) : (key, value) ∈ fs := by
  obtain ⟨front, back, rfl, -⟩ := List.lookup_eq_some_iff.1 h
  exact List.mem_append_right _ List.mem_cons_self

theorem lookup_eq_none (h : key ∉ fs.map Prod.fst) : fs.lookup key = none := by
  refine List.lookup_eq_none_iff.2 fun f hf => bne_iff_ne.2 fun hk => ?_
  exact h (List.mem_map.2 ⟨f, hf, hk.symm⟩)

end Fields

/-- What comes to stand under a key that is written over what stands there. -/
def layOver (below : Option Document) (value : Document) : Document :=
  if value.isObject && below.elim false isObject then merge (below.getD null) value else value

theorem layOver_of_objects {below value : Document} (hbelow : below.isObject)
    (hvalue : value.isObject) : layOver (some below) value = below.merge value := by
  rw [layOver, Option.elim_some, hbelow, hvalue]
  rfl

theorem layOver_of_not_object {below value : Document}
    (h : value.isObject = false ∨ below.isObject = false) : layOver (some below) value = value := by
  rw [layOver, Option.elim_some, if_neg]
  rcases h with h | h <;> simp [h]

theorem isObject_of_get? {d v : Document} {key : Text} (h : d.get? key = some v) :
    d.isObject := by
  cases d with
  | object _ => rfl
  | _ => nomatch h

theorem lookup_mergeFields {overrides : List (Text × Document)}
    (h : (overrides.map Prod.fst).Nodup) (base : List (Text × Document)) (key : Text) :
    (mergeFields base overrides).lookup key =
      match overrides.lookup key with
      | none => base.lookup key
      | some v => some (layOver (base.lookup key) v) := by
  induction overrides generalizing base with
  | nil => simp [mergeFields]
  | cons f rest ih =>
    obtain ⟨k, v⟩ := f
    obtain ⟨habsent, hrest⟩ := List.nodup_cons.1 h
    rw [mergeFields, ih hrest]
    by_cases hk : key = k
    · subst hk
      rw [lookup_eq_none habsent, lookup_setField_self, List.lookup_cons_self]
      rfl
    · rw [lookup_setField_of_ne hk, List.lookup_cons, beq_false_of_ne hk]

theorem get?_merge {upper : Document} (h : upper.Tidy) (base : Document) (key : Text) :
    (base.merge upper).get? key =
      match upper.get? key with
      | none => base.get? key
      | some v => some (layOver (base.get? key) v) := by
  cases h with
  | object keys each => exact lookup_mergeFields keys base.fields key
  | _ => rfl

theorem Tidy.get? {d v : Document} {key : Text} (h : d.Tidy) (hv : d.get? key = some v) :
    v.Tidy := by
  cases h with
  | object keys each => exact each _ (mem_of_lookup hv)
  | _ => nomatch hv

theorem Tidy.setField {fs : List (Text × Document)} (h : Tidy (Document.object fs))
    (key : Text) {value : Document} (hv : value.Tidy) :
    Tidy (Document.object (setField fs key value)) := by
  cases h with
  | object keys each =>
    refine .object (nodup_setField keys) fun f hf => ?_
    rcases mem_setField hf with hf | rfl
    · exact each f hf
    · exact hv

def Reads {α : Type} (P : α → Prop) (r : Except Flaw (α × Text)) : Prop :=
  ∀ a left, r = .ok (a, left) → P a

section Reads

variable {α β : Type} {P : α → Prop} {Q : β → Prop} {t : Text}

theorem reads_any (r : Except Flaw (α × Text)) : Reads (fun _ => True) r := fun _ _ _ => trivial

theorem reads_error {flaw : Flaw} : Reads P (.error flaw : Except Flaw (α × Text)) :=
  fun _ _ h => nomatch h

theorem reads_ok {a : α} (h : P a) : Reads P (.ok (a, t) : Except Flaw (α × Text)) := by
  intro a' left heq
  cases heq
  exact h

theorem reads_word {r : Except Flaw Text} {a : α} (h : P a) :
    Reads P (r.map fun left => (a, left)) := by
  intro a' left heq
  cases r with
  | error flaw => nomatch heq
  | ok left' =>
    cases heq
    exact h

theorem Reads.map {r : Except Flaw (α × Text)} (h : Reads P r) {f : α → β}
    (hf : ∀ a, P a → Q (f a)) : Reads Q (r.map fun (a, left) => (f a, left)) := by
  intro b left heq
  cases r with
  | error flaw => nomatch heq
  | ok r =>
    cases heq
    exact hf _ (h _ _ rfl)

theorem Reads.bind {r : Except Flaw (α × Text)} (h : Reads P r)
    {f : α × Text → Except Flaw (β × Text)} (hf : ∀ a left, P a → Reads Q (f (a, left))) :
    Reads Q (r >>= f) := by
  cases r with
  | error flaw => exact reads_error
  | ok r => exact hf r.1 r.2 (h _ _ rfl)

theorem reads_match {f : Byte → Text → Except Flaw (α × Text)}
    (h : ∀ b rest, Reads P (f b rest)) :
    Reads P (match skipSpace t with | [] => .error .malformed | b :: rest => f b rest) := by
  cases skipSpace t with
  | nil => exact reads_error
  | cons b rest => exact h b rest

theorem reads_ite {c : Prop} [Decidable c] {r s : Except Flaw (α × Text)} (hr : Reads P r)
    (hs : Reads P s) : Reads P (if c then r else s) := by
  split
  · exact hr
  · exact hs

end Reads

theorem reads_number (t : Text) : Reads Tidy (readNumber t) := by
  refine (reads_any _).bind fun whole _ _ => (reads_any _).bind fun fraction _ _ => ?_
  refine (reads_any _).bind fun exponent _ _ => reads_ite (reads_ok (.int _)) ?_
  exact reads_ite reads_error (reads_ok (.decimal _ _))

/-- Three readers call each other: they give tidy documents, and fields that were tidy before are
tidy with what is set in them. -/
theorem reads_tidy (n : Nat) :
    (∀ t, Reads Tidy (readValue n t)) ∧ (∀ t, Reads (∀ d ∈ ·, Tidy d) (readItems n t)) ∧
      (∀ before t, Tidy (object before) → Reads Tidy (readFields n before t)) := by
  induction n with
  | zero => exact ⟨fun _ => reads_error, fun _ => reads_error, fun _ _ _ => reads_error⟩
  | succ n ih =>
    obtain ⟨hvalue, hitems, hfields⟩ := ih
    have hempty : Tidy (object []) := .object List.nodup_nil (fun _ h => nomatch h)
    refine ⟨fun t => ?_, fun t => ?_, fun before t hbefore => ?_⟩
    · rw [readValue]
      refine reads_match fun b rest => reads_ite (reads_match fun c left => ?_) <|
        reads_ite (reads_match fun c left => ?_) <| reads_ite ?_ <| reads_ite ?_ ?_
      · exact reads_ite (reads_ok hempty) (hfields _ _ hempty)
      · exact reads_ite (reads_ok (.array fun _ h => nomatch h))
          ((hitems _).map fun _ => .array)
      · exact (reads_any _).map fun s _ => .text s
      · exact reads_number _
      · exact reads_ite (reads_word .null) <| reads_ite (reads_word (.bool true)) <|
          reads_ite (reads_word (.bool false)) reads_error
    · rw [readItems]
      refine (hvalue t).bind fun v rest hv => reads_match fun c left => reads_ite ?_ ?_
      · refine (hitems left).bind fun vs left hvs => reads_ok ?_
        exact List.forall_mem_cons.2 ⟨hv, hvs⟩
      · exact reads_ite (reads_ok (List.forall_mem_singleton.2 hv)) reads_error
    · rw [readFields]
      refine reads_match fun q afterQuote => reads_ite ?_ reads_error
      refine (reads_any _).bind fun key afterKey _ => reads_match fun colon afterColon => ?_
      refine reads_ite ((hvalue _).bind fun v rest hv => ?_) reads_error
      have hset := hbefore.setField key hv
      refine reads_match fun c left => reads_ite (hfields _ _ hset) ?_
      exact reads_ite (reads_ok hset) reads_error

theorem parse_tidies : Parser.Tidies parse := by
  intro t d h
  cases hread : readValue (t.length + 1) (skipMark t) with
  | error flaw => rw [parse, hread] at h; nomatch h
  | ok r =>
    rw [parse, hread] at h
    cases h
    exact (reads_tidy _).1 _ _ _ hread

end Telemetry.Document
