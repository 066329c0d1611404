import Telemetry.Proofs.Memory.Locality

namespace Telemetry

variable {α β : Type} {m m' : Memory}

namespace Action

theorem bind_plan {x : Action α} {ws : List Write} {a : α} (f : α → Action β)
    (h : x m = ⟨ws, .ok a⟩) :
    (x >>= f) m = ⟨ws ++ (f a (m.storeAll ws)).writes, (f a (m.storeAll ws)).result⟩ := by
  change Action.bind x f m = _
  rw [Action.bind, h]

theorem bind_refused {x : Action α} {e : Fault} (f : α → Action β) (h : x m = ⟨[], .error e⟩) :
    (x >>= f) m = ⟨[], .error e⟩ := by
  change Action.bind x f m = _
  rw [Action.bind, h]

theorem ofQuery_refused {q : Query α} {e : Fault} (h : q m = .error e) :
    (liftM q : Action α) m = ⟨[], .error e⟩ := congrArg (Plan.mk []) h

end Action

namespace View

variable {v u : View} {i j n k : Nat}

theorem slice_slice (v : View) (o k i n : Nat) : (v.slice o k).slice i n = v.slice (o + i) n := by
  simp only [slice, Nat.add_assoc]

theorem writeAt_slice (v : View) (o k i : Nat) (bs : List Byte) :
    (v.slice o k).writeAt i bs = v.writeAt (o + i) bs := by
  simp only [slice, writeAt, Nat.add_assoc]

section Store

variable {bs : List Byte}

theorem store_plan (h : i + bs.length ≤ v.capacity) (m : Memory) :
    v.store i bs m = ⟨[v.writeAt i bs], .ok ()⟩ := by
  rw [store, check_of_le h]
  rfl

theorem store_refused (h : v.capacity < i + bs.length) (m : Memory) :
    v.store i bs m = ⟨[], .error (.outOfBounds i bs.length v.capacity)⟩ := by
  rw [store, check_of_lt h]
  rfl

end Store

theorem put_plan (h : i + n ≤ v.capacity) (x : Int) (m : Memory) :
    v.put n i x m = ⟨[v.writeAt i (Word.encode n x)], .ok ()⟩ :=
  store_plan (by rwa [Word.length_encode]) m

theorem put_refused (h : v.capacity < i + n) (x : Int) (m : Memory) :
    v.put n i x m = ⟨[], .error (.outOfBounds i n v.capacity)⟩ := by
  have hlen : (Word.encode n x).length = n := Word.length_encode ..
  have hstore := store_refused (hlen.symm ▸ h) m
  rwa [hlen] at hstore

theorem getAndAdd_plan (h : i + n ≤ v.capacity) (x : Int) (m : Memory) :
    v.getAndAdd n i x m =
      ⟨[v.writeAt i (Word.encode n (v.word n i m + x))], .ok (v.word n i m)⟩ := by
  refine (Action.ofQuery_bind_ok _ (get_of_le h m)).trans ?_
  exact Action.bind_plan _ (put_plan h _ m)

theorem getAndSet_plan (h : i + n ≤ v.capacity) (x : Int) (m : Memory) :
    v.getAndSet n i x m = ⟨[v.writeAt i (Word.encode n x)], .ok (v.word n i m)⟩ := by
  refine (Action.ofQuery_bind_ok _ (get_of_le h m)).trans ?_
  exact Action.bind_plan _ (put_plan h x m)

theorem compareAndSet_plan (h : i + n ≤ v.capacity) (e x : Int) (m : Memory) :
    v.compareAndSet n i e x m =
      if v.word n i m = Word.wrap n e then ⟨[v.writeAt i (Word.encode n x)], .ok true⟩
      else ⟨[], .ok false⟩ := by
  refine (Action.ofQuery_bind_ok _ (get_of_le h m)).trans ?_
  split
  · exact Action.bind_plan _ (put_plan h x m)
  · rfl

theorem putAscii_plan {t : Text} (h : i + t.length ≤ v.capacity) (m : Memory) :
    v.putAscii i t m = ⟨[v.writeAt i (t.map asciiByte)], .ok t.length⟩ :=
  Action.bind_plan _ (store_plan (by rwa [List.length_map]) m)

theorem putAscii_refused {t : Text} (h : v.capacity < i + t.length) (m : Memory) :
    v.putAscii i t m = ⟨[], .error (.outOfBounds i t.length v.capacity)⟩ := by
  have hlen : (t.map asciiByte).length = t.length := List.length_map _
  have hstore := store_refused (hlen.symm ▸ h) m
  rw [hlen] at hstore
  exact Action.bind_refused _ hstore

theorem fill_plan (h : i + n ≤ v.capacity) (b : Byte) (m : Memory) :
    v.fill i n b m = ⟨[v.writeAt i (List.replicate n b)], .ok ()⟩ := by
  rw [fill, check_of_le h]
  exact store_plan (by rwa [List.length_replicate]) m

theorem fill_refused (h : v.capacity < i + n) (b : Byte) (m : Memory) :
    v.fill i n b m = ⟨[], .error (.outOfBounds i n v.capacity)⟩ := by
  rw [fill, check_of_lt h]
  rfl

theorem copy_plan (h : i + n ≤ v.capacity) (h' : j + n ≤ u.capacity) (m : Memory) :
    v.copy i u j n m = ⟨[v.writeAt i ((u.slice j n).bytes m)], .ok ()⟩ := by
  have hlen : ((u.slice j n).bytes m).length = n := length_bytes ..
  rw [copy, check_of_le h]
  refine (Action.ofQuery_bind_ok _ (load_of_le h' m)).trans ?_
  exact store_plan (by rwa [hlen]) m

theorem copy_refused (h : v.capacity < i + n) (u : View) (j : Nat) (m : Memory) :
    v.copy i u j n m = ⟨[], .error (.outOfBounds i n v.capacity)⟩ := by
  rw [copy, check_of_lt h]
  rfl

theorem copy_refused_source (h : i + n ≤ v.capacity) (h' : u.capacity < j + n) (m : Memory) :
    v.copy i u j n m = ⟨[], .error (.outOfBounds j n u.capacity)⟩ := by
  rw [copy, check_of_le h]
  exact Action.bind_refused (fun bs => v.store i bs) (Action.ofQuery_refused (load_of_lt h' m))

/-- Unsigned words are compared with a difference, because their sum could wrap. -/
theorem check_words {c : UInt64} (hc : v.capacity = c.toNat) (i n : UInt64) :
    v.check i.toNat n.toNat =
      if c < i ∨ c - i < n then .error (.outOfBounds i.toNat n.toNat v.capacity) else .ok () := by
  by_cases hi : c < i
  · have hlt : v.capacity < i.toNat + n.toNat := by
      have hi' := UInt64.lt_iff_toNat_lt.1 hi
      omega
    rw [if_pos (.inl hi), check_of_lt hlt]
  · have hle := UInt64.le_iff_toNat_le.1 (UInt64.not_lt.1 hi)
    have hsub : (c - i).toNat = c.toNat - i.toNat := UInt64.toNat_sub_of_le _ _ (UInt64.not_lt.1 hi)
    by_cases hn : c - i < n
    · have hn' := UInt64.lt_iff_toNat_lt.1 hn
      rw [if_pos (.inr hn), check_of_lt (by omega)]
    · have hn' := UInt64.le_iff_toNat_le.1 (UInt64.not_lt.1 hn)
      rw [if_neg (not_or.2 ⟨hi, hn⟩), check_of_le (by omega)]

end View

namespace Access

def range? : Access → Option (Nat × Nat)
  | get n i | put n i _ | getAndAdd n i _ | getAndSet n i _ | compareAndSet n i _ _ => some (i, n)
  | getBytes i n | getText i n | fill i n _ | check i n => some (i, n)
  | putBytes i bs => some (i, bs.length)
  | putAscii i t => some (i, t.length)
  | capacity | requireAligned | raise _ => none

/-- What an access makes of the bytes of its range: what it puts in their place, if it does, and its
reply. -/
def effect : Access → List Byte → Option (List Byte) × Reply
  | get .., bs => (none, .number (Word.signed bs))
  | put n _ x, _ => (some (Word.encode n x), .unit)
  | getAndAdd n _ x, bs => (some (Word.encode n (Word.signed bs + x)), .number (Word.signed bs))
  | getAndSet n _ x, bs => (some (Word.encode n x), .number (Word.signed bs))
  | compareAndSet n _ e x, bs =>
    if Word.signed bs = Word.wrap n e then (some (Word.encode n x), .flag true)
    else (none, .flag false)
  | getBytes .., bs => (none, .bytes bs)
  | getText .., bs => (none, .text bs)
  | putBytes _ bs, _ => (some bs, .unit)
  | putAscii _ t, _ => (some (t.map View.asciiByte), .number t.length)
  | fill _ n b, _ => (some (List.replicate n b), .unit)
  | check .., _ | capacity, _ | requireAligned, _ | raise _, _ => (none, .unit)

def shift (o : Nat) : Access → Access
  | get n i => get n (o + i)
  | put n i x => put n (o + i) x
  | getAndAdd n i x => getAndAdd n (o + i) x
  | getAndSet n i x => getAndSet n (o + i) x
  | compareAndSet n i e x => compareAndSet n (o + i) e x
  | getBytes i n => getBytes (o + i) n
  | getText i n => getText (o + i) n
  | putBytes i bs => putBytes (o + i) bs
  | putAscii i t => putAscii (o + i) t
  | fill i n b => fill (o + i) n b
  | check i n => check (o + i) n
  | capacity => capacity
  | requireAligned => requireAligned
  | raise t => raise t

variable {a : Access} {v : View} {i n : Nat}

theorem range?_shift (h : a.range? = some (i, n)) (o : Nat) :
    (a.shift o).range? = some (o + i, n) := by
  cases a <;> cases h <;> rfl

theorem effect_shift (o : Nat) (a : Access) (bs : List Byte) :
    (a.shift o).effect bs = a.effect bs := by
  cases a <;> rfl

theorem length_of_effect (ha : a.range? = some (i, n)) {bs put : List Byte}
    (h : put ∈ (a.effect bs).1) : put.length = n := by
  cases a with
  | compareAndSet k j e x =>
    cases ha
    rw [effect] at h
    split at h
    · cases h
      exact Word.length_encode ..
    · nomatch h
  | put k j x =>
    cases ha
    cases h
    exact Word.length_encode ..
  | getAndAdd k j x =>
    cases ha
    cases h
    exact Word.length_encode ..
  | getAndSet k j x =>
    cases ha
    cases h
    exact Word.length_encode ..
  | putBytes j bs =>
    cases ha
    cases h
    rfl
  | putAscii j t =>
    cases ha
    cases h
    exact List.length_map _
  | fill j k b =>
    cases ha
    cases h
    exact List.length_replicate
  | get | getBytes | getText | check | capacity | requireAligned | raise => nomatch h

open Telemetry.Action View in
/-- Inside its view an access reads and replaces the bytes of its range and answers. -/
theorem run_of_le (ha : a.range? = some (i, n)) (h : i + n ≤ v.capacity) (m : Memory) :
    a.run v m =
      ⟨(a.effect ((v.slice i n).bytes m)).1.toList.map (v.writeAt i),
        .ok (a.effect ((v.slice i n).bytes m)).2⟩ := by
  cases a with
  | get k j =>
    cases ha
    exact ofQuery_bind_ok _ (get_of_le h m)
  | put k j x =>
    cases ha
    exact bind_plan _ (put_plan h x m)
  | getAndAdd k j x =>
    cases ha
    exact bind_plan _ (getAndAdd_plan h x m)
  | getAndSet k j x =>
    cases ha
    exact bind_plan _ (getAndSet_plan h x m)
  | compareAndSet k j e x =>
    cases ha
    have hplan := compareAndSet_plan h e x m
    rw [effect]
    split
    · next heq => exact bind_plan _ (hplan.trans (if_pos heq))
    · next hne => exact bind_plan _ (hplan.trans (if_neg hne))
  | getBytes j k =>
    cases ha
    exact ofQuery_bind_ok _ (load_of_le h m)
  | getText j k =>
    cases ha
    exact ofQuery_bind_ok _ (load_of_le h m)
  | putBytes j bs =>
    cases ha
    exact bind_plan _ (store_plan h m)
  | putAscii j t =>
    cases ha
    exact bind_plan _ (putAscii_plan h m)
  | fill j k b =>
    cases ha
    exact bind_plan _ (fill_plan h b m)
  | check j k =>
    cases ha
    rw [run, check_of_le h]
    rfl
  | capacity | requireAligned | raise => nomatch ha

open Telemetry.Action View in
theorem run_of_lt (ha : a.range? = some (i, n)) (h : v.capacity < i + n) (m : Memory) :
    a.run v m = ⟨[], .error (.outOfBounds i n v.capacity)⟩ := by
  have hget := ofQuery_refused (get_of_lt h m)
  have hload := ofQuery_refused (load_of_lt h m)
  cases a with
  | get k j =>
    cases ha
    exact bind_refused _ hget
  | put k j x =>
    cases ha
    exact bind_refused _ (put_refused h x m)
  | getAndAdd k j x =>
    cases ha
    exact bind_refused _ (bind_refused _ hget)
  | getAndSet k j x =>
    cases ha
    exact bind_refused _ (bind_refused _ hget)
  | compareAndSet k j e x =>
    cases ha
    exact bind_refused _ (bind_refused _ hget)
  | getBytes j k =>
    cases ha
    exact bind_refused _ hload
  | getText j k =>
    cases ha
    exact bind_refused _ hload
  | putBytes j bs =>
    cases ha
    exact bind_refused _ (store_refused h m)
  | putAscii j t =>
    cases ha
    exact bind_refused _ (putAscii_refused h m)
  | fill j k b =>
    cases ha
    exact bind_refused _ (fill_refused h b m)
  | check j k =>
    cases ha
    rw [run, check_of_lt h]
    rfl
  | capacity | requireAligned | raise => nomatch ha

/-- An access that names no range answers without memory. -/
theorem run_of_none (ha : a.range? = none) (v : View) :
    ∃ answer, ∀ m, a.run v m = ⟨[], answer⟩ := by
  cases a with
  | capacity => exact ⟨_, fun _ => rfl⟩
  | requireAligned =>
    cases h : v.requireAligned with
    | ok _ =>
      refine ⟨.ok .unit, fun m => ?_⟩
      rw [run, h]
      rfl
    | error e =>
      refine ⟨.error e, fun m => ?_⟩
      rw [run, h]
      rfl
  | raise t => exact ⟨_, fun _ => rfl⟩
  | _ => nomatch ha

theorem run_within_range (ha : a.range? = some (i, n)) (v : View) :
    (a.run v).Within (v.slice i n) := by
  intro m w hw
  by_cases h : i + n ≤ v.capacity
  · rw [run_of_le ha h] at hw
    obtain ⟨put, hput, rfl⟩ := List.mem_map.1 hw
    have hlen := length_of_effect ha (Option.mem_toList.1 hput)
    rw [← hlen]
    exact View.covers_writeAt
  · rw [run_of_lt ha (Nat.lt_of_not_le h)] at hw
    nomatch hw

theorem run_sees_range (ha : a.range? = some (i, n)) (v : View) :
    (a.run v).Sees (v.slice i n) := by
  intro m m' hm
  by_cases h : i + n ≤ v.capacity
  · rw [run_of_le ha h, run_of_le ha h, hm]
  · rw [run_of_lt ha (Nat.lt_of_not_le h), run_of_lt ha (Nat.lt_of_not_le h)]

/-- An access to a part of a view is an access to the view further on. -/
theorem run_slice {o k : Nat} (ha : a.range? = some (i, n)) (h : i + n ≤ k)
    (hk : o + k ≤ v.capacity) : a.run (v.slice o k) = (a.shift o).run v := by
  funext m
  rw [run_of_le ha h, run_of_le (range?_shift ha o) (by omega), effect_shift, View.slice_slice]
  congr 2
  funext bs
  exact View.writeAt_slice ..

end Access

end Telemetry
