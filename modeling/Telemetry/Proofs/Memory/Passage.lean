import Telemetry.Proofs.Memory.Footprint

namespace Telemetry

variable {α β : Type} {m m' : Memory} {ws us : List Write} {w : Write} {v : View}

/-- What the first few of the writes leave. -/
def Memory.Meets (m : Memory) (ws : List Write) (m' : Memory) : Prop :=
  ∃ us, us <+: ws ∧ m' = m.storeAll us

namespace Memory.Meets

theorem first (h : us <+: ws) : m.Meets ws (m.storeAll us) := ⟨us, h, rfl⟩

theorem eq_of_nil (h : m.Meets [] m') : m' = m := by
  obtain ⟨us, hus, rfl⟩ := h
  rw [List.prefix_nil.1 hus, storeAll_nil]

theorem cases_singleton (h : m.Meets [w] m') : m' = m ∨ m' = m.store w := by
  obtain ⟨us, hus, rfl⟩ := h
  rcases List.prefix_cons_iff.1 hus with rfl | ⟨rest, rfl, hrest⟩
  · exact .inl rfl
  · rw [List.prefix_nil.1 hrest]
    exact .inr rfl

theorem cases_append (h : m.Meets (ws ++ us) m') :
    m.Meets ws m' ∨ (m.storeAll ws).Meets us m' := by
  obtain ⟨ts, hts, rfl⟩ := h
  rcases List.prefix_or_prefix_of_prefix hts (List.prefix_append ws us) with hin | ⟨rest, rfl⟩
  · exact .inl ⟨ts, hin, rfl⟩
  · exact .inr ⟨rest, (List.prefix_append_right_inj ws).1 hts, storeAll_append ..⟩

theorem confines (h : m.Meets ws m') (hws : ∀ w ∈ ws, v.Covers w) : v.Confines m m' := by
  obtain ⟨us, hus, rfl⟩ := h
  exact fun u ha => View.bytes_storeAll (fun w hw => hws w (hus.subset hw)) ha m

end Memory.Meets

namespace Action

def Meets (x : Action α) (m m' : Memory) : Prop := m.Meets (x m).writes m'

theorem Within.confines_of_meets {x : Action α} (hx : x.Within v) (h : x.Meets m m') :
    v.Confines m m' := Memory.Meets.confines h (hx m)

/-- On the way through a sequence one is in its first part, or in the second after the first has
answered. -/
theorem Meets.cases_bind {x : Action α} {f : α → Action β} (h : (x >>= f).Meets m m') :
    x.Meets m m' ∨ ∃ a m₁, x.run m = (m₁, .ok a) ∧ (f a).Meets m₁ m' := by
  change m.Meets (Action.bind x f m).writes m' at h
  rcases hx : x m with ⟨ws, e | a⟩
  · refine .inl ?_
    simpa only [Action.bind, hx, Meets] using h
  · simp only [Action.bind, hx] at h
    rcases h.cases_append with hfirst | hsecond
    · refine .inl ?_
      simpa only [Meets, hx] using hfirst
    · refine .inr ⟨a, m.storeAll ws, ?_, hsecond⟩
      simp only [run, hx]

end Action

theorem View.store_meets {i : Nat} {bs : List Byte} (h : (v.store i bs).Meets m m') :
    m' = m ∨ m' = ((v.store i bs).run m).1 := by
  by_cases hle : i + bs.length ≤ v.capacity
  · have hwrites : ((v.store i bs) m).writes = [v.writeAt i bs] := by
      rw [View.store, View.check_of_le hle]
      rfl
    rw [Action.Meets, hwrites] at h
    rw [View.run_store hle]
    exact h.cases_singleton
  · have hwrites : ((v.store i bs) m).writes = [] := by
      rw [View.store, View.check_of_lt (Nat.lt_of_not_le hle)]
      rfl
    rw [Action.Meets, hwrites] at h
    exact .inl h.eq_of_nil

end Telemetry
