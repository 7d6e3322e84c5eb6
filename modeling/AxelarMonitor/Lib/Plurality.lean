import AxelarMonitor.Lib.OrderedMap
import Mathlib.Data.List.Count
import Mathlib.Data.List.Perm.Basic

/-!
The greatest of the most frequent elements of a list. An ordered map of counts
finds it in one pass in which a later key wins a tie.
-/

namespace Plurality

variable {α : Type*} [LinearOrder α]

/-- Nothing occurs more often in `xs` than `m`, and nothing greater as often. -/
structure IsLeader (xs : List α) (m : α) : Prop where
  mem : m ∈ xs
  leads : ∀ x ∈ xs, xs.count x < xs.count m ∨ xs.count x = xs.count m ∧ x ≤ m

theorem IsLeader.unique {xs : List α} {a b : α} (ha : IsLeader xs a) (hb : IsLeader xs b) :
    a = b := by
  have hab := hb.leads a ha.mem
  have hba := ha.leads b hb.mem
  have hle : a ≤ b := by
    rcases hab with hlt | ⟨-, hle⟩
    · omega
    · exact hle
  have hge : b ≤ a := by
    rcases hba with hlt | ⟨-, hge⟩
    · omega
    · exact hge
  exact le_antisymm hle hge

theorem IsLeader.perm {xs ys : List α} {m : α} (hperm : xs.Perm ys) (h : IsLeader xs m) :
    IsLeader ys m where
  mem := hperm.mem_iff.mp h.mem
  leads := by
    intro x hx
    rw [← hperm.count_eq, ← hperm.count_eq]
    exact h.leads x (hperm.mem_iff.mpr hx)

def lastMax {β : Type*} (key : β → Nat) (x : β) (xs : List β) : β :=
  xs.foldl (fun best y => if key best ≤ key y then y else best) x

/-- What stands before the maximum is not above it, what stands behind is
below it. -/
theorem lastMax_split {β : Type*} (key : β → Nat) (x : β) (xs : List β) :
    ∃ front back, x :: xs = front ++ lastMax key x xs :: back ∧
      (∀ y ∈ front, key y ≤ key (lastMax key x xs)) ∧
        ∀ y ∈ back, key y < key (lastMax key x xs) := by
  induction xs using List.reverseRecOn with
  | nil => exact ⟨[], [], rfl, by simp, by simp⟩
  | append_singleton xs y ih =>
      obtain ⟨front, back, hsplit, hfront, hback⟩ := ih
      have hstep : lastMax key x (xs ++ [y]) =
          if key (lastMax key x xs) ≤ key y then y else lastMax key x xs := by
        rw [lastMax, List.foldl_append]
        rfl
      have hmax : ∀ z ∈ x :: xs, key z ≤ key (lastMax key x xs) := by
        intro z hz
        rw [hsplit, List.mem_append, List.mem_cons] at hz
        rcases hz with hz | rfl | hz
        · exact hfront z hz
        · exact Nat.le_refl _
        · exact (hback z hz).le
      rw [hstep]
      split_ifs with hle
      · exact ⟨x :: xs, [], rfl, fun z hz => (hmax z hz).trans hle, by simp⟩
      · refine ⟨front, back ++ [y], ?_, hfront, ?_⟩
        · rw [← List.cons_append, hsplit]
          simp
        · intro z hz
          rcases List.mem_append.mp hz with hz | hz
          · exact hback z hz
          · obtain rfl := List.mem_singleton.mp hz
            omega

/-- The keys of a map of counts increase, so its last maximal entry is the
leader. -/
theorem isLeader_lastMax {xs : List α} {m : OrderedMap α Nat}
    (hcounts : ∀ k, m.get? k = if k ∈ xs then some (xs.count k) else none)
    {e : α × Nat} {rest : List (α × Nat)} (hentries : m.entries = e :: rest) :
    IsLeader xs (lastMax Prod.snd e rest).1 := by
  obtain ⟨front, back, hsplit, hfront, hback⟩ := lastMax_split Prod.snd e rest
  rw [← hentries] at hsplit
  have hcount : ∀ entry ∈ m.entries, entry.1 ∈ xs ∧ entry.2 = xs.count entry.1 := by
    rintro ⟨k, n⟩ hmem
    have hget := OrderedMap.mem_entries.mp hmem
    rw [hcounts] at hget
    split at hget
    · next hk => exact ⟨hk, (Option.some.inj hget).symm⟩
    · cases hget
  have hbest : lastMax Prod.snd e rest ∈ m.entries := by
    rw [hsplit]
    exact List.mem_append_right _ List.mem_cons_self
  obtain ⟨hmem, hbestCount⟩ := hcount _ hbest
  have hsorted := m.sorted
  rw [hsplit, List.pairwise_append] at hsorted
  refine ⟨hmem, ?_⟩
  intro x hx
  have hentry : (x, xs.count x) ∈ m.entries :=
    OrderedMap.mem_entries.mpr (by rw [hcounts, if_pos hx])
  rw [hsplit, List.mem_append, List.mem_cons] at hentry
  rcases hentry with hx' | heq | hx'
  · have hlt := hsorted.2.2 _ hx' _ List.mem_cons_self
    have hle := hfront _ hx'
    rw [hbestCount] at hle
    rcases Nat.lt_or_eq_of_le hle with hless | hequal
    · exact Or.inl hless
    · exact Or.inr ⟨hequal, hlt.le⟩
  · rw [← heq]
    exact Or.inr ⟨rfl, le_refl x⟩
  · have hless := hback _ hx'
    rw [hbestCount] at hless
    exact Or.inl hless

end Plurality
