import AxelarMonitor.Lib.MapContents

/-!
A map in two parts without a common key. Operations that work key by key act on
each part alone, and what is counted over the entries adds up.
-/

namespace OrderedMap

variable {K V : Type*} [LinearOrder K]

/-- The entries of `m` are those of `a` and those of `b`, which share no key. -/
structure Splits (m a b : OrderedMap K V) : Prop where
  union : ∀ k, m.get? k = (a.get? k).or (b.get? k)
  disjoint : ∀ k, a.get? k = none ∨ b.get? k = none

theorem splits_empty : Splits (.empty : OrderedMap K V) .empty .empty :=
  ⟨fun _ => rfl, fun _ => .inl rfl⟩

namespace Splits

variable {m a b m' a' b' : OrderedMap K V}

theorem symm (h : Splits m a b) : Splits m b a := by
  refine ⟨fun k => ?_, fun k => (h.disjoint k).symm⟩
  rw [h.union]
  rcases h.disjoint k with hnone | hnone <;> simp [hnone]

theorem of_left (h : Splits m a b) {k : K} (hnone : b.get? k = none) : m.get? k = a.get? k := by
  rw [h.union, hnone, Option.or_none]

theorem of_right (h : Splits m a b) {k : K} (hnone : a.get? k = none) : m.get? k = b.get? k := by
  rw [h.union, hnone, Option.none_or]

theorem exists_iff (h : Splits m a b) (k : K) (P : V → Prop) :
    (∃ v, m.get? k = some v ∧ P v) ↔
      (∃ v, a.get? k = some v ∧ P v) ∨ ∃ v, b.get? k = some v ∧ P v := by
  rcases h.disjoint k with hnone | hnone
  · rw [h.of_right hnone, hnone]
    simp
  · rw [h.of_left hnone, hnone]
    simp

theorem entries_perm (h : Splits m a b) : m.entries.Perm (a.entries ++ b.entries) := by
  have hnodup : (a.entries ++ b.entries).Nodup := by
    refine List.Nodup.append a.entries_nodup b.entries_nodup ?_
    rintro ⟨k, v⟩ ha hb
    rw [mem_entries] at ha hb
    rcases h.disjoint k with hnone | hnone
    · rw [hnone] at ha
      cases ha
    · rw [hnone] at hb
      cases hb
  apply (List.perm_ext_iff_of_nodup m.entries_nodup hnodup).mpr
  rintro ⟨k, v⟩
  rw [List.mem_append, mem_entries, mem_entries, mem_entries]
  simpa using h.exists_iff k (fun w => w = v)

/-- An update of the values that are there. -/
theorem map_values (h : Splits m a b) (f : K → V → V)
    (hm : ∀ k, m'.get? k = (m.get? k).map (f k)) (ha : ∀ k, a'.get? k = (a.get? k).map (f k))
    (hb : ∀ k, b'.get? k = (b.get? k).map (f k)) : Splits m' a' b' := by
  refine ⟨fun k => ?_, fun k => ?_⟩
  · rw [hm, ha, hb, h.union]
    cases a.get? k <;> rfl
  · rw [ha, hb]
    exact (h.disjoint k).imp (congrArg (Option.map (f k))) (congrArg (Option.map (f k)))

theorem retain (h : Splits m a b) (keep : K → V → Bool) :
    Splits (m.retain keep) (a.retain keep) (b.retain keep) := by
  refine ⟨fun k => ?_, fun k => ?_⟩
  · rw [get?_retain, get?_retain, get?_retain]
    rcases h.disjoint k with hnone | hnone
    · rw [h.of_right hnone, hnone]
      rfl
    · rw [h.of_left hnone, hnone]
      simp
  · rw [get?_retain, get?_retain]
    exact (h.disjoint k).imp (congrArg (Option.filter (keep k)))
      (congrArg (Option.filter (keep k)))

/-- New entries that go over the first part, at keys that the second does not
have. -/
theorem overlay (h : Splits m a b) (g : K → Option V)
    (hm : ∀ k, m'.get? k = (g k).or (m.get? k)) (ha : ∀ k, a'.get? k = (g k).or (a.get? k))
    (hfresh : ∀ k, (g k).isSome = true → b.get? k = none) : Splits m' a' b := by
  refine ⟨fun k => ?_, fun k => ?_⟩
  · rw [hm, ha, h.union, Option.or_assoc]
  · cases hg : g k with
    | none =>
        rw [ha, hg, Option.none_or]
        exact h.disjoint k
    | some v => exact .inr (hfresh k (by rw [hg, Option.isSome_some]))

end Splits

end OrderedMap
