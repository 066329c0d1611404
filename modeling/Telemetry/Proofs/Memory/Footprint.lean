import Telemetry.View.Access

namespace Telemetry

variable {α β : Type} {m m' : Memory}

theorem Query.bind_ok {q : Query α} {a : α} (f : α → Query β) (h : q m = .ok a) :
    (q >>= f) m = f a m := by
  change (q m >>= fun a => f a m) = _
  rw [h]
  rfl

namespace Action

theorem run_pure (a : α) (m : Memory) : (pure a : Action α).run m = (m, .ok a) := rfl

theorem run_ofQuery (q : Query α) (m : Memory) : (liftM q : Action α).run m = (m, q m) := rfl

theorem run_ofExcept (x : Except Fault α) (m : Memory) :
    (liftM x : Action α).run m = (m, x) := rfl

theorem run_refuse (e : Fault) (m : Memory) :
    (refuse e : Action α).run m = (m, .error e) := rfl

theorem run_fst (x : Action α) (m : Memory) : (x.run m).1 = m.storeAll (x m).writes := rfl

theorem run_bind_ok {x : Action α} {a : α} (f : α → Action β) (h : x.run m = (m', .ok a)) :
    (x >>= f).run m = (f a).run m' := by
  obtain ⟨hm, hr⟩ := Prod.mk.inj h
  change (Action.bind x f).run m = _
  cases hx : x m with
  | mk ws r =>
    simp only [hx] at hm hr
    subst hr hm
    simp only [run, Action.bind, hx, Memory.storeAll_append]

theorem run_bind_error {x : Action α} {e : Fault} (f : α → Action β)
    (h : x.run m = (m', .error e)) : (x >>= f).run m = (m', .error e) := by
  obtain ⟨hm, hr⟩ := Prod.mk.inj h
  change (Action.bind x f).run m = _
  cases hx : x m with
  | mk ws r =>
    simp only [hx] at hm hr
    subst hr hm
    simp only [run, Action.bind, hx]

theorem run_bind_eq_ok {x : Action α} {f : α → Action β} {b : β}
    (h : (x >>= f).run m = (m', .ok b)) :
    ∃ a m₁, x.run m = (m₁, .ok a) ∧ (f a).run m₁ = (m', .ok b) := by
  cases hx : (x.run m).2 with
  | error e =>
    have hxe : x.run m = ((x.run m).1, .error e) := Prod.ext rfl hx
    rw [run_bind_error f hxe] at h
    cases h
  | ok a =>
    have hxa : x.run m = ((x.run m).1, .ok a) := Prod.ext rfl hx
    exact ⟨a, _, hxa, by rw [← run_bind_ok f hxa, h]⟩

theorem pure_bind (a : α) (f : α → Action β) : (pure a >>= f) = f a := rfl

theorem run_map_fst (x : Action α) (f : α → β) (m : Memory) :
    ((x >>= fun a => pure (f a)).run m).1 = (x.run m).1 := by
  rcases h : x.run m with ⟨m', e | a⟩
  · rw [run_bind_error _ h]
  · rw [run_bind_ok _ h, run_pure]

theorem ofQuery_bind_ok {q : Query α} {a : α} (f : α → Action β) (h : q m = .ok a) :
    ((liftM q : Action α) >>= f) m = f a m := by
  change Action.bind (ofQuery q) f m = f a m
  simp only [Action.bind, ofQuery, h, Memory.storeAll_nil, List.nil_append]

theorem bind_assoc {γ : Type} (x : Action α) (f : α → Action β) (g : β → Action γ) :
    x >>= f >>= g = x >>= fun a => f a >>= g := by
  funext m
  change Action.bind (Action.bind x f) g m = Action.bind x (fun a => Action.bind (f a) g) m
  rcases hx : x m with ⟨ws, e | a⟩
  · simp only [Action.bind, hx]
  · rcases hf : f a (m.storeAll ws) with ⟨us, e | b⟩
    · simp only [Action.bind, hx, hf]
    · simp only [Action.bind, hx, hf, Memory.storeAll_append, List.append_assoc]

end Action

namespace View

def slice (v : View) (i n : Nat) : View := ⟨v.region, v.base + i, n⟩

def bytes (v : View) (m : Memory) : List Byte := m.load v.region v.base v.capacity

def word (v : View) (n i : Nat) (m : Memory) : Int := Word.signed ((v.slice i n).bytes m)

def writeAt (v : View) (i : Nat) (bs : List Byte) : Write := ⟨v.region, v.base + i, bs⟩

/-- Two windows share no byte. -/
def Apart (v u : View) : Prop :=
  v.region ≠ u.region ∨ v.base + v.capacity ≤ u.base ∨ u.base + u.capacity ≤ v.base

instance (v u : View) : Decidable (v.Apart u) := inferInstanceAs (Decidable (_ ∨ _ ∨ _))

def Inside (v u : View) : Prop :=
  v.region = u.region ∧ u.base ≤ v.base ∧ v.base + v.capacity ≤ u.base + u.capacity

def Covers (v : View) (w : Write) : Prop :=
  w.region = v.region ∧ v.base ≤ w.offset ∧ w.offset + w.bytes.length ≤ v.base + v.capacity

variable {v u : View} {i j n k : Nat} {w : Write} {ws : List Write}

@[simp] theorem slice_capacity (v : View) (i n : Nat) : (v.slice i n).capacity = n := rfl

@[simp] theorem length_bytes (v : View) (m : Memory) : (v.bytes m).length = v.capacity :=
  Memory.length_load ..

theorem slice_inside (h : i + n ≤ v.capacity) : (v.slice i n).Inside v :=
  ⟨rfl, Nat.le_add_right .., by simp only [slice]; omega⟩

theorem slice_inside_slice (h : j ≤ i) (h' : i + n ≤ j + k) :
    (v.slice i n).Inside (v.slice j k) :=
  ⟨rfl, by simp only [slice]; omega, by simp only [slice]; omega⟩

theorem Inside.refl (v : View) : v.Inside v := ⟨rfl, Nat.le_refl _, Nat.le_refl _⟩

theorem Inside.trans {t : View} (h : v.Inside u) (h' : u.Inside t) : v.Inside t := by
  obtain ⟨hr, hb, hc⟩ := h
  obtain ⟨hr', hb', hc'⟩ := h'
  exact ⟨hr.trans hr', by omega, by omega⟩

theorem Apart.symm (h : v.Apart u) : u.Apart v := by
  rcases h with h | h | h
  · exact .inl h.symm
  · exact .inr (.inr h)
  · exact .inr (.inl h)

theorem Apart.mono {v' u' : View} (h : v.Apart u) (hv : v'.Inside v) (hu : u'.Inside u) :
    v'.Apart u' := by
  obtain ⟨hvr, hv₁, hv₂⟩ := hv
  obtain ⟨hur, hu₁, hu₂⟩ := hu
  rcases h with h | h | h
  · exact .inl (by rwa [hvr, hur])
  · exact .inr (.inl (by omega))
  · exact .inr (.inr (by omega))

theorem apart_slice (h : i + n ≤ j ∨ j + k ≤ i) : (v.slice i n).Apart (v.slice j k) := by
  refine .inr ?_
  simp only [slice]
  omega

theorem apart_field {o f g : Nat} (h : f + n ≤ g ∨ g + k ≤ f) :
    (v.slice (o + f) n).Apart (v.slice (o + g) k) := apart_slice (by omega)

theorem Covers.mono (h : v.Covers w) (hv : v.Inside u) : u.Covers w := by
  obtain ⟨h₁, h₂, h₃⟩ := h
  obtain ⟨hr, hb, hc⟩ := hv
  exact ⟨h₁.trans hr, by omega, by omega⟩

theorem covers_writeAt {bs : List Byte} : (v.slice i bs.length).Covers (v.writeAt i bs) :=
  ⟨rfl, Nat.le_refl _, Nat.le_refl _⟩

theorem bytes_store (hw : v.Covers w) (ha : v.Apart u) : u.bytes (m.store w) = u.bytes m := by
  obtain ⟨hr, hb, hc⟩ := hw
  apply Memory.load_store_of_disjoint
  -- The write lies in another region, behind the window, or before it.
  rcases ha with h | h | h
  · exact .inl (by rw [hr]; exact h.symm)
  · exact .inr (.inr (by omega))
  · exact .inr (.inl (by omega))

theorem bytes_storeAll (hw : ∀ w ∈ ws, v.Covers w) (ha : v.Apart u) (m : Memory) :
    u.bytes (m.storeAll ws) = u.bytes m := by
  induction ws generalizing m with
  | nil => rfl
  | cons w rest ih =>
    have hrest : ∀ w ∈ rest, v.Covers w := fun w h => hw w (List.mem_cons_of_mem _ h)
    calc u.bytes (m.storeAll (w :: rest)) = u.bytes (m.store w) := ih hrest (m.store w)
      _ = u.bytes m := bytes_store (hw w List.mem_cons_self) ha

/-- Two memories differ in a window only. -/
def Confines (v : View) (m m' : Memory) : Prop := ∀ u : View, v.Apart u → u.bytes m' = u.bytes m

theorem Confines.refl (v : View) (m : Memory) : v.Confines m m := fun _ _ => rfl

theorem Confines.trans {m₁ m₂ m₃ : Memory} (h : v.Confines m₁ m₂) (h' : v.Confines m₂ m₃) :
    v.Confines m₁ m₃ := fun u hu => (h' u hu).trans (h u hu)

theorem Confines.mono (h : v.Confines m m') (hv : v.Inside u) : u.Confines m m' :=
  fun t ht => h t (ht.mono hv (Inside.refl t))

theorem Confines.word (h : v.Confines m m') (ha : v.Apart (u.slice i n)) :
    u.word n i m' = u.word n i m := congrArg Word.signed (h _ ha)

theorem byte_eq_of_bytes_eq (h : v.bytes m = v.bytes m') (hi : i < v.capacity) :
    m.byte v.region (v.base + i) = m'.byte v.region (v.base + i) := by
  have hget := congrArg (fun bs => bs[i]?) h
  simpa [bytes, Memory.load, hi] using hget

theorem bytes_ext (h : ∀ i < v.capacity,
    m.byte v.region (v.base + i) = m'.byte v.region (v.base + i)) : v.bytes m = v.bytes m' := by
  apply List.ext_getElem (by simp)
  intro i hi _
  simp only [bytes, Memory.load, List.getElem_map, List.getElem_range]
  exact h i (by simpa using hi)

theorem bytes_mono (hv : v.Inside u) (h : u.bytes m = u.bytes m') : v.bytes m = v.bytes m' := by
  obtain ⟨hr, hb, hc⟩ := hv
  apply bytes_ext
  intro i hi
  have hbyte := byte_eq_of_bytes_eq h (i := v.base - u.base + i) (by omega)
  rwa [show u.base + (v.base - u.base + i) = v.base + i by omega, ← hr] at hbyte

theorem bytes_zero (v : View) : v.bytes Memory.zero = List.replicate v.capacity 0 := by
  apply List.ext_getElem (by simp)
  intro i _ _
  rw [List.getElem_replicate]
  simp only [bytes, Memory.load, List.getElem_map, Memory.zero]

theorem bytes_of_zero (h : u.bytes m = List.replicate u.capacity 0) (hv : v.Inside u) :
    v.bytes m = List.replicate v.capacity 0 :=
  (bytes_mono hv (h.trans (bytes_zero u).symm)).trans (bytes_zero v)

theorem word_of_zero (h : u.bytes m = List.replicate u.capacity 0) (hv : (v.slice i n).Inside u) :
    v.word n i m = 0 := by
  have hz (k : Nat) : Word.natValue (List.replicate k 0) = 0 := by
    induction k with
    | zero => rfl
    | succ k ih =>
      rw [List.replicate_succ, Word.natValue, ih]
      rfl
  rw [word, bytes_of_zero h hv, Word.signed, hz]
  exact Int.zero_bmod

theorem bytes_slice_store_self (v : View) (i : Nat) (bs : List Byte) (m : Memory) :
    (v.slice i bs.length).bytes (m.store (v.writeAt i bs)) = bs :=
  Memory.load_store_self m (v.writeAt i bs)

theorem word_store_self (v : View) (n i : Nat) (x : Int) (m : Memory) :
    v.word n i (m.store (v.writeAt i (Word.encode n x))) = Word.wrap n x := by
  have h := bytes_slice_store_self v i (Word.encode n x) m
  rw [Word.length_encode] at h
  rw [word, h, Word.signed_encode]

theorem bytes_slice_store_of_apart {bs : List Byte} (h : i + bs.length ≤ j ∨ j + k ≤ i) :
    (v.slice j k).bytes (m.store (v.writeAt i bs)) = (v.slice j k).bytes m :=
  bytes_store covers_writeAt (apart_slice h)

theorem bytes_slice_append (v : View) (i n k : Nat) (m : Memory) :
    (v.slice i (n + k)).bytes m = (v.slice i n).bytes m ++ (v.slice (i + n) k).bytes m := by
  apply List.ext_getElem (by simp)
  intro j hj _
  have hlen : ((v.slice i n).bytes m).length = n := length_bytes ..
  rw [List.getElem_append]
  split
  · simp only [bytes, Memory.load, slice, List.getElem_map, List.getElem_range]
  · simp only [bytes, Memory.load, slice, List.getElem_map, List.getElem_range, List.length_map,
      List.length_range]
    congr 1
    omega

theorem bytes_slice_store_front {bs : List Byte} (h : bs.length ≤ n) :
    (v.slice i n).bytes (m.store (v.writeAt i bs)) =
      bs ++ (v.slice (i + bs.length) (n - bs.length)).bytes m := by
  -- The window is what the write covers, followed by what it leaves alone.
  obtain ⟨k, rfl⟩ := Nat.exists_eq_add_of_le h
  rw [bytes_slice_append, bytes_slice_store_self, Nat.add_sub_cancel_left,
    bytes_slice_store_of_apart (.inl (Nat.le_refl _))]

theorem word_store_of_apart {bs : List Byte} (h : i + bs.length ≤ j ∨ j + k ≤ i) :
    v.word k j (m.store (v.writeAt i bs)) = v.word k j m :=
  congrArg Word.signed (bytes_slice_store_of_apart h)

theorem word_congr (h : u.bytes m = u.bytes m') (hi : (v.slice i n).Inside u) :
    v.word n i m = v.word n i m' := congrArg Word.signed (bytes_mono hi h)

theorem check_of_le (h : i + n ≤ v.capacity) : v.check i n = .ok () := if_pos h

theorem check_of_lt (h : v.capacity < i + n) :
    v.check i n = .error (.outOfBounds i n v.capacity) := if_neg (Nat.not_le.2 h)

theorem load_of_le (h : i + n ≤ v.capacity) (m : Memory) :
    v.load i n m = .ok ((v.slice i n).bytes m) := by
  change (v.check i n >>= fun _ => .ok (m.load v.region (v.base + i) n)) = _
  rw [check_of_le h]
  rfl

theorem load_of_lt (h : v.capacity < i + n) (m : Memory) :
    v.load i n m = .error (.outOfBounds i n v.capacity) := by
  change (v.check i n >>= fun _ => .ok (m.load v.region (v.base + i) n)) = _
  rw [check_of_lt h]
  rfl

theorem get_of_le (h : i + n ≤ v.capacity) (m : Memory) : v.get n i m = .ok (v.word n i m) := by
  change (v.load i n m >>= fun bs => .ok (Word.signed bs)) = _
  rw [load_of_le h]
  rfl

theorem get_of_lt (h : v.capacity < i + n) (m : Memory) :
    v.get n i m = .error (.outOfBounds i n v.capacity) := by
  change (v.load i n m >>= fun bs => .ok (Word.signed bs)) = _
  rw [load_of_lt h]
  rfl

theorem sub_of_le (h : i + n ≤ v.capacity) : v.sub i n = .ok (v.slice i n) := by
  rw [sub, check_of_le h]
  rfl

theorem sub_of_lt (h : v.capacity < i + n) :
    v.sub i n = .error (.outOfBounds i n v.capacity) := by
  rw [sub, check_of_lt h]
  rfl

theorem run_store {bs : List Byte} (h : i + bs.length ≤ v.capacity) (m : Memory) :
    (v.store i bs).run m = (m.store (v.writeAt i bs), .ok ()) := by
  rw [store, check_of_le h]
  rfl

theorem run_put (h : i + n ≤ v.capacity) (x : Int) (m : Memory) :
    (v.put n i x).run m = (m.store (v.writeAt i (Word.encode n x)), .ok ()) :=
  run_store (by rwa [Word.length_encode]) m

theorem run_fill (h : i + n ≤ v.capacity) (b : Byte) (m : Memory) :
    (v.fill i n b).run m = (m.store (v.writeAt i (List.replicate n b)), .ok ()) := by
  rw [fill, check_of_le h]
  exact run_store (by rwa [List.length_replicate]) m

theorem run_copyBytes_eq_ok {source : List Byte} {j : Nat}
    (hrun : (v.copyBytes i source j n).run m = (m', .ok ())) :
    j + n ≤ source.length ∧ m' = m.store (v.writeAt i ((source.drop j).take n)) := by
  unfold copyBytes at hrun
  obtain ⟨_, m₁, hcheck, hcopy⟩ := Action.run_bind_eq_ok hrun
  rw [Action.run_ofExcept] at hcheck
  obtain ⟨rfl, hc⟩ := Prod.mk.inj hcheck
  have hle : i + n ≤ v.capacity := (v.check_eq_ok_iff i n).1 hc
  by_cases hsource : j + n ≤ source.length
  · have hlen : ((source.drop j).take n).length = n := by
      rw [List.length_take, List.length_drop]
      omega
    rw [if_pos hsource, run_store (by rwa [hlen])] at hcopy
    exact ⟨hsource, (Prod.mk.inj hcopy).1.symm⟩
  · rw [if_neg hsource, Action.run_refuse] at hcopy
    nomatch hcopy

end View

/-- Every write of an action falls into a window, whatever the memory. -/
def Action.Within (x : Action α) (v : View) : Prop := ∀ m, ∀ w ∈ (x m).writes, v.Covers w

namespace Action

variable {x : Action α} {v u : View}

theorem Within.mono (h : x.Within v) (hv : v.Inside u) : x.Within u :=
  fun m w hw => (h m w hw).mono hv

theorem Within.confines (h : x.Within v) (m : Memory) : v.Confines m (x.run m).1 :=
  fun _ ha => View.bytes_storeAll (h m) ha m

theorem Within.confines_of_run {a : Except Fault α} (h : x.Within v) (hrun : x.run m = (m', a)) :
    v.Confines m m' := by
  have hc := h.confines m
  rwa [hrun] at hc

theorem within_pure (a : α) : (pure a : Action α).Within v := fun _ _ h => nomatch h

theorem within_ofQuery (q : Query α) : (liftM q : Action α).Within v := fun _ _ h => nomatch h

theorem within_ofExcept (y : Except Fault α) : (liftM y : Action α).Within v :=
  fun _ _ h => nomatch h

theorem within_refuse (e : Fault) : (refuse e : Action α).Within v := fun _ _ h => nomatch h

theorem Within.bind {f : α → Action β} (hx : x.Within v) (hf : ∀ a, (f a).Within v) :
    (x >>= f).Within v := by
  intro m
  change ∀ w ∈ (Action.bind x f m).writes, v.Covers w
  have hm := hx m
  rcases h : x m with ⟨ws, e | a⟩
  · simpa only [Action.bind, h] using hm
  · simp only [Action.bind, h] at hm ⊢
    intro w hw
    rcases List.mem_append.1 hw with hw | hw
    · exact hm w hw
    · exact hf a _ w hw

theorem within_error_bind (e : Fault) (f : α → Action β) :
    (liftM (Except.error e : Except Fault α) >>= f : Action β).Within v := fun _ _ h => nomatch h

theorem within_check_bind {i n : Nat} {f : Unit → Action β}
    (h : i + n ≤ v.capacity → (f ()).Within u) :
    (liftM (v.check i n) >>= f : Action β).Within u := by
  by_cases hc : i + n ≤ v.capacity
  · rw [View.check_of_le hc]
    exact h hc
  · rw [View.check_of_lt (Nat.lt_of_not_le hc)]
    exact within_error_bind _ _

def Keeps (x : Action α) (P : Memory → Prop) : Prop := ∀ m, P m → P (x.run m).1

variable {P : Memory → Prop}

theorem keeps_ofQuery (q : Query α) : (liftM q : Action α).Keeps P := fun _ h => h

theorem keeps_ofExcept (y : Except Fault α) : (liftM y : Action α).Keeps P := fun _ h => h

theorem keeps_refuse (e : Fault) : (refuse e : Action α).Keeps P := fun _ h => h

theorem Keeps.bind {f : α → Action β} (hx : x.Keeps P) (hf : ∀ a, (f a).Keeps P) :
    (x >>= f).Keeps P := by
  intro m hm
  have hm' := hx m hm
  rcases h : x.run m with ⟨m', e | a⟩
  · rw [run_bind_error f h]
    rwa [h] at hm'
  · rw [run_bind_ok f h]
    exact hf a m' (by rwa [h] at hm')

end Action

namespace View

variable {v : View} {i n : Nat}

theorem store_within (v : View) (i : Nat) (bs : List Byte) :
    (v.store i bs).Within (v.slice i bs.length) := by
  refine Action.within_check_bind fun _ m w hw => ?_
  rw [List.mem_singleton.1 hw]
  exact covers_writeAt

theorem store_within_self (v : View) (i : Nat) (bs : List Byte) : (v.store i bs).Within v :=
  Action.within_check_bind fun h m w hw => by
    rw [List.mem_singleton.1 hw]
    exact covers_writeAt.mono (slice_inside h)

theorem put_within (v : View) (n i : Nat) (x : Int) : (v.put n i x).Within (v.slice i n) := by
  have h := store_within v i (Word.encode n x)
  rwa [Word.length_encode] at h

theorem put_within_self (v : View) (n i : Nat) (x : Int) : (v.put n i x).Within v :=
  store_within_self v i (Word.encode n x)

theorem fill_within (v : View) (i n : Nat) (b : Byte) : (v.fill i n b).Within (v.slice i n) :=
  Action.within_check_bind fun _ => by
    have h := store_within v i (List.replicate n b)
    rwa [List.length_replicate] at h

theorem fill_within_self (v : View) (i n : Nat) (b : Byte) : (v.fill i n b).Within v :=
  Action.within_check_bind fun _ => store_within_self v i (List.replicate n b)

theorem copyBytes_within (v : View) (i : Nat) (source : List Byte) (j n : Nat) :
    (v.copyBytes i source j n).Within (v.slice i n) := by
  refine Action.within_check_bind fun _ => ?_
  split
  · have h := store_within v i ((source.drop j).take n)
    rwa [List.length_take, List.length_drop, Nat.min_eq_left (by omega)] at h
  · exact Action.within_refuse _

section Combined

variable {u : View} (hput : ∀ x, (v.put n i x).Within u)
include hput

theorem getAndAdd_within (x : Int) : (v.getAndAdd n i x).Within u :=
  (Action.within_ofQuery _).bind fun _ => (hput _).bind fun _ => Action.within_pure _

theorem getAndSet_within (x : Int) : (v.getAndSet n i x).Within u :=
  (Action.within_ofQuery _).bind fun _ => (hput x).bind fun _ => Action.within_pure _

theorem compareAndSet_within (e x : Int) : (v.compareAndSet n i e x).Within u := by
  refine (Action.within_ofQuery _).bind fun old => ?_
  split
  · exact (hput x).bind fun _ => Action.within_pure _
  · exact Action.within_pure _

end Combined

end View

open Telemetry.Action View in
theorem Access.run_within (v : View) (a : Access) : (a.run v).Within v := by
  cases a with
  | get n i => exact (within_ofQuery _).bind fun _ => within_pure _
  | put n i x => exact (put_within_self v n i x).bind fun _ => within_pure _
  | getAndAdd n i x =>
    exact (getAndAdd_within (put_within_self v n i) x).bind fun _ => within_pure _
  | getAndSet n i x =>
    exact (getAndSet_within (put_within_self v n i) x).bind fun _ => within_pure _
  | compareAndSet n i e x =>
    exact (compareAndSet_within (put_within_self v n i) e x).bind fun _ => within_pure _
  | getBytes i n => exact (within_ofQuery _).bind fun _ => within_pure _
  | getText i n => exact (within_ofQuery _).bind fun _ => within_pure _
  | putBytes i bs => exact (store_within_self v i bs).bind fun _ => within_pure _
  | putAscii i t =>
    exact ((store_within_self v i _).bind fun _ => within_pure _).bind fun _ => within_pure _
  | fill i n b => exact (fill_within_self v i n b).bind fun _ => within_pure _
  | check i n => exact (within_ofExcept _).bind fun _ => within_pure _
  | capacity => exact within_pure _
  | requireAligned => exact (within_ofExcept _).bind fun _ => within_pure _
  | raise e => exact within_refuse _

theorem Script.run_within (v : View) (k : Script) : (k.run v).Within v := by
  induction k with
  | done => exact Action.within_pure _
  | step a next ih => exact (a.run_within v).bind ih

end Telemetry
