import AxelarMonitor.Lib.OrderedMap
import Mathlib.Data.List.Perm.Basic

/-!
What the values of an ordered map hold, as one list up to order: how each
operation adds to it and takes from it.
-/

namespace OrderedMap

variable {K V β : Type*} [LinearOrder K]

/-- The map without the entry of one key. -/
def without (m : OrderedMap K V) (k : K) : OrderedMap K V := m.retain (fun k' _ => k' ≠ k)

theorem get?_without (m : OrderedMap K V) (k k' : K) :
    (m.without k).get? k' = if k' = k then none else m.get? k' := by
  rw [without, get?_retain]
  cases m.get? k' with
  | none => simp
  | some v => by_cases hk : k' = k <;> simp [hk]

theorem without_of_get?_none {m : OrderedMap K V} {k : K} (h : m.get? k = none) :
    m.without k = m := by
  ext k' v
  rw [get?_without]
  by_cases hk : k' = k <;> simp [hk, h]

theorem insert_without (m : OrderedMap K V) (k : K) (v : V) :
    (m.insert k v).without k = m.without k := by
  ext k' w
  rw [get?_without, get?_without, get?_insert]
  by_cases hk : k' = k <;> simp [hk]

theorem modify_without (m : OrderedMap K V) (k : K) (f : V → V) :
    (m.modify k f).without k = m.without k := by
  ext k' w
  rw [get?_without, get?_without, get?_modify]
  by_cases hk : k' = k <;> simp [hk]

theorem entries_nodup (m : OrderedMap K V) : m.entries.Nodup :=
  m.sorted.imp (fun hlt heq => (heq ▸ hlt).false)

/-- One entry, and the others. -/
theorem entries_perm {m : OrderedMap K V} {k : K} {v : V} (h : m.get? k = some v) :
    m.entries.Perm ((k, v) :: (m.without k).entries) := by
  have hfresh : (k, v) ∉ (m.without k).entries := by
    rw [mem_entries, get?_without, if_pos rfl]
    simp
  apply (List.perm_ext_iff_of_nodup m.entries_nodup
    (List.nodup_cons.mpr ⟨hfresh, entries_nodup _⟩)).mpr
  rintro ⟨k', w⟩
  rw [List.mem_cons, mem_entries, mem_entries, get?_without, Prod.mk.injEq]
  by_cases hk : k' = k
  · subst hk
    simp [h, eq_comm]
  · simp [hk]

/-- What all values hold, one after the other. -/
def gather (g : V → List β) (m : OrderedMap K V) : List β := m.values.flatMap g

variable {g : V → List β} {m : OrderedMap K V}

theorem gather_eq_flatMap : m.gather g = m.entries.flatMap (fun e => g e.2) := by
  rw [gather, values, List.flatMap_map]

theorem gather_perm {k : K} {v : V} (h : m.get? k = some v) :
    (m.gather g).Perm (g v ++ (m.without k).gather g) := by
  rw [gather_eq_flatMap, gather_eq_flatMap]
  exact (entries_perm h).flatMap_right _

/-- An update that appends to the contents of one value. -/
theorem gather_modify {k : K} {v : V} {f : V → V} {more : List β} (h : m.get? k = some v)
    (hf : (g (f v)).Perm (g v ++ more)) : ((m.modify k f).gather g).Perm (m.gather g ++ more) := by
  have hnew : (m.modify k f).get? k = some (f v) := by
    rw [get?_modify, if_pos rfl, h]
    rfl
  calc (m.modify k f).gather g
      _ |>.Perm (g (f v) ++ (m.without k).gather g) := by
        rw [← modify_without m k f]
        exact gather_perm hnew
      _ |>.Perm ((g v ++ more) ++ (m.without k).gather g) := hf.append_right _
      _ |>.Perm ((g v ++ (m.without k).gather g) ++ more) := by
        rw [List.append_assoc, List.append_assoc]
        exact List.perm_append_comm.append_left _
      _ |>.Perm (m.gather g ++ more) := (gather_perm h).symm.append_right _

theorem modify_of_get?_none {k : K} {f : V → V} (h : m.get? k = none) : m.modify k f = m := by
  ext k' v
  rw [get?_modify]
  by_cases hk : k' = k <;> simp [hk, h]

/-- A value that holds nothing takes the place of what was at its key. -/
theorem gather_insert_nil {k : K} {v : V} (hv : g v = []) :
    (m.gather g).Perm ((m.insert k v).gather g ++ ((m.get? k).map g).getD []) := by
  have hnew : ((m.insert k v).gather g).Perm ((m.without k).gather g) := by
    have hperm := gather_perm (g := g) (get?_insert_self m k v)
    rwa [hv, List.nil_append, insert_without] at hperm
  cases h : m.get? k with
  | none =>
      rw [without_of_get?_none h] at hnew
      simpa using hnew.symm
  | some w =>
      refine (gather_perm h).trans (List.perm_append_comm.trans ?_)
      exact hnew.symm.append_right _

/-- What is kept and what is dropped. -/
theorem gather_retain (p : K → V → Bool) :
    (m.gather g).Perm ((m.retain p).gather g ++
      (m.entries.filter (fun e => !p e.1 e.2)).flatMap (fun e => g e.2)) := by
  rw [gather_eq_flatMap, gather_eq_flatMap, ← List.flatMap_append]
  exact (List.filter_append_perm (fun e => p e.1 e.2) m.entries).symm.flatMap_right _

end OrderedMap
