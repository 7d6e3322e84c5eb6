import Mathlib.Algebra.Ring.Nat
import Mathlib.Data.List.Forall2
import Mathlib.Data.List.Induction
import Mathlib.Data.List.Nodup
import Mathlib.Data.List.Sort
import Mathlib.Order.Basic
import Mathlib.Tactic.Cases
import Mathlib.Tactic.SplitIfs

/-!
Finite maps kept as association lists whose keys strictly increase. The order
is a field of the structure, so two maps with the same lookups are equal and
iteration visits the keys in increasing order, as an ordered tree map does.
All operations recurse on the list and evaluate in the kernel.
-/

structure OrderedMap (K V : Type*) [LinearOrder K] where
  entries : List (K × V)
  sorted : entries.Pairwise (fun a b => a.1 < b.1)

namespace OrderedMap

variable {K V : Type*} [LinearOrder K]

def lookupEntries (k : K) : List (K × V) → Option V
  | [] => none
  | (k', v) :: rest => if k = k' then some v else lookupEntries k rest

/-- A single pass that replaces the value of an existing key. -/
def insertEntries (k : K) (v : V) : List (K × V) → List (K × V)
  | [] => [(k, v)]
  | (k', v') :: rest =>
      if k < k' then (k, v) :: (k', v') :: rest
      else if k = k' then (k, v) :: rest
      else (k', v') :: insertEntries k v rest

def modifyEntries (k : K) (f : V → V) (entries : List (K × V)) : List (K × V) :=
  entries.map (fun e => (e.1, if e.1 = k then f e.2 else e.2))

theorem mem_insertEntries {k : K} {v : V} {e : K × V} {entries : List (K × V)}
    (h : e ∈ insertEntries k v entries) : e = (k, v) ∨ e ∈ entries := by
  induction entries with
  | nil => simpa [insertEntries] using h
  | cons head rest ih =>
      obtain ⟨k', v'⟩ := head
      simp only [insertEntries] at h
      split_ifs at h with hlt heq
      · simpa using h
      · rcases List.mem_cons.mp h with hhead | hrest
        · exact Or.inl hhead
        · exact Or.inr (List.mem_cons_of_mem _ hrest)
      · rcases List.mem_cons.mp h with hhead | hrest
        · exact Or.inr (hhead ▸ List.mem_cons_self)
        · exact (ih hrest).imp id (List.mem_cons_of_mem _)

theorem insertEntries_sorted (k : K) (v : V) (entries : List (K × V))
    (h : entries.Pairwise (fun a b => a.1 < b.1)) :
    (insertEntries k v entries).Pairwise (fun a b => a.1 < b.1) := by
  induction entries with
  | nil => simp [insertEntries]
  | cons head rest ih =>
      obtain ⟨k', v'⟩ := head
      obtain ⟨hhead, hrest⟩ := List.pairwise_cons.mp h
      simp only [insertEntries]
      split_ifs with hlt heq
      · refine List.pairwise_cons.mpr ⟨?_, h⟩
        intro e he
        rcases List.mem_cons.mp he with rfl | he
        · exact hlt
        · exact hlt.trans (hhead e he)
      · subst heq
        exact List.pairwise_cons.mpr ⟨hhead, hrest⟩
      · refine List.pairwise_cons.mpr ⟨?_, ih hrest⟩
        intro e he
        rcases mem_insertEntries he with rfl | he
        · exact lt_of_le_of_ne (not_lt.mp hlt) (Ne.symm heq)
        · exact hhead e he

theorem lookupEntries_insertEntries (k k' : K) (v : V) (entries : List (K × V)) :
    lookupEntries k' (insertEntries k v entries) =
      if k' = k then some v else lookupEntries k' entries := by
  induction entries with
  | nil => rfl
  | cons head rest ih =>
      obtain ⟨k'', v''⟩ := head
      by_cases hlt : k < k''
      · simp [insertEntries, hlt, lookupEntries]
      · by_cases heq : k = k''
        · subst heq
          by_cases hkey : k' = k <;> simp [insertEntries, lookupEntries, hkey]
        · by_cases hkey : k' = k''
          · have hne : k' ≠ k := fun h => heq (h.symm.trans hkey)
            subst hkey
            simp [insertEntries, hlt, heq, lookupEntries, hne]
          · simp [insertEntries, hlt, heq, lookupEntries, hkey, ih]

theorem lookupEntries_eq_some {k : K} {v : V} {entries : List (K × V)}
    (h : entries.Pairwise (fun a b => a.1 < b.1)) :
    lookupEntries k entries = some v ↔ (k, v) ∈ entries := by
  induction entries with
  | nil => simp [lookupEntries]
  | cons head rest ih =>
      obtain ⟨k', v'⟩ := head
      obtain ⟨hhead, hrest⟩ := List.pairwise_cons.mp h
      by_cases hk : k = k'
      · subst hk
        have hfresh : (k, v) ∉ rest := fun hm => (hhead (k, v) hm).false
        simp [lookupEntries, hfresh, eq_comm]
      · simp [lookupEntries, hk, ih hrest]

def empty : OrderedMap K V := ⟨[], List.Pairwise.nil⟩

instance : EmptyCollection (OrderedMap K V) := ⟨empty⟩

def get? (m : OrderedMap K V) (k : K) : Option V := lookupEntries k m.entries

def contains (m : OrderedMap K V) (k : K) : Bool := (m.get? k).isSome

def keys (m : OrderedMap K V) : List K := m.entries.map Prod.fst

def values (m : OrderedMap K V) : List V := m.entries.map Prod.snd

def insert (m : OrderedMap K V) (k : K) (v : V) : OrderedMap K V :=
  ⟨insertEntries k v m.entries, insertEntries_sorted k v m.entries m.sorted⟩

/-- Apply `f` in place to the value at `k`, if there is one. -/
def modify (m : OrderedMap K V) (k : K) (f : V → V) : OrderedMap K V :=
  ⟨modifyEntries k f m.entries, List.pairwise_map.mpr m.sorted⟩

/-- Keep the entries that satisfy `p`. -/
def retain (m : OrderedMap K V) (p : K → V → Bool) : OrderedMap K V :=
  ⟨m.entries.filter (fun e => p e.1 e.2), m.sorted.filter _⟩

/-- Insert `v` at `k` unless `k` already has a value. -/
def orInsert (m : OrderedMap K V) (k : K) (v : V) : OrderedMap K V :=
  if m.contains k then m else m.insert k v

/-- Replace the value at `k`, or `default` where there is none, by its image
under `f`. -/
def upsert (m : OrderedMap K V) (k : K) (default : V) (f : V → V) : OrderedMap K V :=
  m.insert k (f ((m.get? k).getD default))

/-- Collect a list of pairs; a later pair overrides an earlier one. -/
def ofList (pairs : List (K × V)) : OrderedMap K V :=
  pairs.foldl (fun m e => m.insert e.1 e.2) empty

theorem mem_entries {m : OrderedMap K V} {k : K} {v : V} :
    (k, v) ∈ m.entries ↔ m.get? k = some v :=
  (lookupEntries_eq_some m.sorted).symm

@[ext] theorem ext {m n : OrderedMap K V} (h : ∀ k, m.get? k = n.get? k) : m = n := by
  have hmem : ∀ e : K × V, e ∈ m.entries ↔ e ∈ n.entries := by
    rintro ⟨k, v⟩
    rw [mem_entries, mem_entries, h k]
  have nodup (o : OrderedMap K V) : o.entries.Nodup :=
    o.sorted.imp (fun hab => fun heq => lt_irrefl _ (heq ▸ hab))
  have hperm : m.entries.Perm n.entries :=
    (List.perm_ext_iff_of_nodup (nodup m) (nodup n)).mpr hmem
  have heq : m.entries = n.entries :=
    hperm.eq_of_pairwise (fun _ _ _ _ hab hba => (hab.asymm hba).elim) m.sorted n.sorted
  cases m
  cases n
  simpa using heq

@[simp] theorem get?_empty (k : K) : (empty : OrderedMap K V).get? k = none := rfl

theorem get?_insert (m : OrderedMap K V) (k k' : K) (v : V) :
    (m.insert k v).get? k' = if k' = k then some v else m.get? k' :=
  lookupEntries_insertEntries k k' v m.entries

@[simp] theorem get?_insert_self (m : OrderedMap K V) (k : K) (v : V) :
    (m.insert k v).get? k = some v := by
  simp [get?_insert]

theorem get?_insert_ne (m : OrderedMap K V) {k k' : K} (v : V) (h : k' ≠ k) :
    (m.insert k v).get? k' = m.get? k' := by
  simp [get?_insert, h]

theorem get?_modify (m : OrderedMap K V) (k k' : K) (f : V → V) :
    (m.modify k f).get? k' = if k' = k then (m.get? k').map f else m.get? k' := by
  have go (entries : List (K × V)) :
      lookupEntries k' (modifyEntries k f entries) =
        if k' = k then (lookupEntries k' entries).map f else lookupEntries k' entries := by
    induction entries with
    | nil => simp [modifyEntries, lookupEntries]
    | cons head rest ih =>
        obtain ⟨k'', v⟩ := head
        have hstep : modifyEntries k f ((k'', v) :: rest) =
            (k'', if k'' = k then f v else v) :: modifyEntries k f rest := rfl
        rw [hstep]
        simp only [lookupEntries, ih]
        by_cases hk : k' = k''
        · subst hk
          by_cases hkey : k' = k <;> simp [hkey]
        · simp [hk]
  exact go m.entries

theorem get?_retain (m : OrderedMap K V) (p : K → V → Bool) (k : K) :
    (m.retain p).get? k = (m.get? k).filter (p k) := by
  ext v
  rw [← mem_entries]
  simp [retain, mem_entries, Option.filter_eq_some_iff]

theorem get?_retain_eq_some {m : OrderedMap K V} {p : K → V → Bool} {k : K} {v : V} :
    (m.retain p).get? k = some v ↔ m.get? k = some v ∧ p k v = true := by
  rw [get?_retain, Option.filter_eq_some_iff]

theorem get?_orInsert (m : OrderedMap K V) (k k' : K) (v : V) :
    (m.orInsert k v).get? k' =
      if k' = k then some ((m.get? k).getD v) else m.get? k' := by
  unfold orInsert contains
  cases hk : m.get? k with
  | none => simp [get?_insert]
  | some w =>
      by_cases hkey : k' = k
      · subst hkey
        simp [hk]
      · simp [hkey]

theorem get?_upsert (m : OrderedMap K V) (k k' : K) (default : V) (f : V → V) :
    (m.upsert k default f).get? k' =
      if k' = k then some (f ((m.get? k).getD default)) else m.get? k' :=
  get?_insert m k k' _

theorem contains_iff {m : OrderedMap K V} {k : K} :
    m.contains k = true ↔ ∃ v, m.get? k = some v :=
  Option.isSome_iff_exists

theorem contains_insert {m : OrderedMap K V} {k k' : K} {v : V} :
    (m.insert k v).contains k' = true ↔ k' = k ∨ m.contains k' = true := by
  unfold contains
  rw [get?_insert]
  split <;> simp [*]

theorem mem_keys {m : OrderedMap K V} {k : K} : k ∈ m.keys ↔ m.contains k = true := by
  simp only [keys, List.mem_map, contains_iff, ← mem_entries]
  constructor
  · rintro ⟨⟨k', v⟩, he, rfl⟩
    exact ⟨v, he⟩
  · rintro ⟨v, he⟩
    exact ⟨(k, v), he, rfl⟩

theorem keys_nodup (m : OrderedMap K V) : m.keys.Nodup := by
  unfold keys
  rw [List.Nodup, List.pairwise_map]
  exact m.sorted.imp (fun h => ne_of_lt h)

section LastMatch

variable {α : Type*} {P : α → Prop} [DecidablePred P] {xs : List α}

theorem lastMatch_spec {x : α} (h : xs.reverse.find? (fun a => decide (P a)) = some x) :
    x ∈ xs ∧ P x := by
  have hmatch := List.find?_some h
  exact ⟨List.mem_reverse.mp (List.mem_of_find?_eq_some h), of_decide_eq_true hmatch⟩

theorem lastMatch_eq_none :
    xs.reverse.find? (fun a => decide (P a)) = none ↔ ∀ x ∈ xs, ¬ P x := by
  simp [List.find?_eq_none]

variable (P) in
theorem exists_lastMatch {x : α} (hx : x ∈ xs) (hP : P x) :
    ∃ y, xs.reverse.find? (fun a => decide (P a)) = some y := by
  apply Option.ne_none_iff_exists'.mp
  intro hnone
  exact lastMatch_eq_none.mp hnone x hx hP

end LastMatch

/-- The last pair with a key gives its value. -/
theorem get?_ofList (pairs : List (K × V)) (k : K) :
    (ofList pairs).get? k = (pairs.reverse.find? (fun e => decide (e.1 = k))).map Prod.snd := by
  induction pairs using List.reverseRecOn with
  | nil => rfl
  | append_singleton pairs e ih =>
      have hstep : ofList (pairs ++ [e]) = (ofList pairs).insert e.1 e.2 := by
        simp [ofList, List.foldl_append]
      rw [hstep, get?_insert, List.reverse_append, List.reverse_singleton,
        List.singleton_append, List.find?_cons]
      by_cases hk : k = e.1
      · simp [hk]
      · have hne : ¬ e.1 = k := fun h => hk h.symm
        simp [hk, hne, ih]

theorem get?_ofList_mem {pairs : List (K × V)} {k : K} {v : V}
    (h : (ofList pairs).get? k = some v) : (k, v) ∈ pairs := by
  rw [get?_ofList, Option.map_eq_some_iff] at h
  obtain ⟨e, hfind, rfl⟩ := h
  obtain ⟨hmem, rfl⟩ := lastMatch_spec hfind
  exact hmem

theorem get?_ofList_iff {pairs : List (K × V)} (hnodup : (pairs.map Prod.fst).Nodup) {k : K}
    {v : V} : (ofList pairs).get? k = some v ↔ (k, v) ∈ pairs := by
  constructor
  · exact get?_ofList_mem
  · intro hmem
    obtain ⟨e, hfind⟩ := exists_lastMatch (fun e : K × V => e.1 = k) hmem rfl
    obtain ⟨he, hkey⟩ := lastMatch_spec hfind
    obtain rfl : e = (k, v) := List.inj_on_of_nodup_map hnodup he hmem hkey
    rw [get?_ofList, hfind]
    rfl

/-- With distinct keys the order of the pairs is irrelevant. -/
theorem ofList_perm {pairs pairs' : List (K × V)} (hperm : pairs.Perm pairs')
    (hnodup : (pairs.map Prod.fst).Nodup) : ofList pairs = ofList pairs' := by
  have hnodup' : (pairs'.map Prod.fst).Nodup := (hperm.map Prod.fst).nodup_iff.mp hnodup
  ext k v
  rw [get?_ofList_iff hnodup, get?_ofList_iff hnodup', hperm.mem_iff]

theorem get?_foldl_insert (keys : List K) (v : V) (m : OrderedMap K V) (k : K) :
    (keys.foldl (fun m k => m.insert k v) m).get? k =
      if k ∈ keys then some v else m.get? k := by
  induction keys generalizing m with
  | nil => simp
  | cons key rest ih =>
      rw [List.foldl_cons, ih, get?_insert]
      by_cases hk : k = key <;> simp [hk]

theorem get?_foldl_orInsert (keys : List K) (v : V) (m : OrderedMap K V) (k : K) :
    (keys.foldl (fun m k => m.orInsert k v) m).get? k =
      if k ∈ keys then some ((m.get? k).getD v) else m.get? k := by
  induction keys generalizing m with
  | nil => simp
  | cons key rest ih =>
      rw [List.foldl_cons, ih, get?_orInsert]
      by_cases hk : k = key <;> simp [hk]

section Related

variable {W : Type*} (R : K → V → W → Prop)

/-- The same keys, with related values. -/
def Related (m : OrderedMap K V) (n : OrderedMap K W) : Prop :=
  ∀ k, Option.Rel (R k) (m.get? k) (n.get? k)

theorem lookupEntries_eq_none {U : Type*} {k : K} {entries : List (K × U)}
    (h : ∀ e ∈ entries, k < e.1) : lookupEntries k entries = none := by
  induction entries with
  | nil => rfl
  | cons e rest ih =>
      rw [lookupEntries, if_neg (h e List.mem_cons_self).ne,
        ih (fun e he => h e (List.mem_cons_of_mem _ he))]

variable {R}

/-- Iteration over related maps visits the same keys in step. -/
theorem Related.forall₂_entries {m : OrderedMap K V} {n : OrderedMap K W} (h : Related R m n) :
    List.Forall₂ (fun a b => a.1 = b.1 ∧ R a.1 a.2 b.2) m.entries n.entries := by
  have go (xs : List (K × V)) (ys : List (K × W)) (hxs : xs.Pairwise (fun a b => a.1 < b.1))
      (hys : ys.Pairwise (fun a b => a.1 < b.1))
      (hrel : ∀ k, Option.Rel (R k) (lookupEntries k xs) (lookupEntries k ys)) :
      List.Forall₂ (fun a b => a.1 = b.1 ∧ R a.1 a.2 b.2) xs ys := by
    induction xs generalizing ys with
    | nil =>
        cases ys with
        | nil => exact .nil
        | cons b ys =>
            have hb := hrel b.1
            simp only [lookupEntries, if_true] at hb
            cases hb
    | cons a xs ih =>
        obtain ⟨k, v⟩ := a
        obtain ⟨hlow, hrestx⟩ := List.pairwise_cons.mp hxs
        cases ys with
        | nil =>
            have ha := hrel k
            simp only [lookupEntries, if_true] at ha
            cases ha
        | cons b ys =>
            obtain ⟨k', w⟩ := b
            obtain ⟨hlow', hresty⟩ := List.pairwise_cons.mp hys
            have hk := hrel k
            have hk' := hrel k'
            simp only [lookupEntries, if_true] at hk hk'
            rcases lt_trichotomy k k' with hlt | rfl | hgt
            · rw [if_neg hlt.ne, lookupEntries_eq_none (fun e he => hlt.trans (hlow' e he))] at hk
              cases hk
            · simp only [if_true] at hk
              cases hk with
              | some hvw =>
                  refine .cons ⟨rfl, hvw⟩ (ih ys hrestx hresty (fun j => ?_))
                  by_cases hj : j = k
                  · rw [hj, lookupEntries_eq_none hlow, lookupEntries_eq_none hlow']
                    exact .none
                  · have hrest := hrel j
                    simp only [lookupEntries, if_neg hj] at hrest
                    exact hrest
            · rw [if_neg hgt.ne, lookupEntries_eq_none (fun e he => hgt.trans (hlow e he))] at hk'
              cases hk'
  exact go m.entries n.entries m.sorted n.sorted h

variable {m : OrderedMap K V} {n : OrderedMap K W}

theorem Related.imp {S : K → V → W → Prop} (h : Related R m n)
    (hS : ∀ k v w, m.get? k = some v → n.get? k = some w → R k v w → S k v w) :
    Related S m n := by
  intro k
  have hrel := h k
  have hk := hS k
  generalize m.get? k = p at hrel hk ⊢
  generalize n.get? k = q at hrel hk ⊢
  cases hrel with
  | none => exact .none
  | some hvw => exact .some (hk _ _ rfl rfl hvw)

/-- Values that are made from those of related maps, key by key. -/
theorem Related.map_values {V' W' : Type*} {S : K → V' → W' → Prop} {m' : OrderedMap K V'}
    {n' : OrderedMap K W'} {f : K → V → V'} {g : K → W → W'} (h : Related R m n)
    (hm : ∀ k, m'.get? k = (m.get? k).map (f k)) (hn : ∀ k, n'.get? k = (n.get? k).map (g k))
    (hfg : ∀ k v w, R k v w → S k (f k v) (g k w)) : Related S m' n' := by
  intro k
  have hrel := h k
  rw [hm, hn]
  generalize m.get? k = a at hrel ⊢
  generalize n.get? k = b at hrel ⊢
  cases hrel with
  | none => exact .none
  | some hvw => exact .some (hfg k _ _ hvw)

theorem Related.retain (h : Related R m n) (p : K → V → Bool) (q : K → W → Bool)
    (hpq : ∀ k v w, R k v w → p k v = q k w) : Related R (m.retain p) (n.retain q) := by
  intro k
  have hrel := h k
  rw [get?_retain, get?_retain]
  generalize m.get? k = a at hrel ⊢
  generalize n.get? k = b at hrel ⊢
  cases hrel with
  | none => exact .none
  | @some v w hvw =>
      have heq := hpq k v w hvw
      cases hq : q k w
      · simp [Option.filter, heq, hq]
      · simpa [Option.filter, heq, hq] using hvw

theorem Related.insert (h : Related R m n) (k : K) {v : V} {w : W} (hvw : R k v w) :
    Related R (m.insert k v) (n.insert k w) := by
  intro k'
  rw [get?_insert, get?_insert]
  split_ifs with hk
  · exact .some (hk ▸ hvw)
  · exact h k'

theorem Related.exists_iff (h : Related R m n) (k : K) {P : V → Prop} {Q : W → Prop}
    (hPQ : ∀ v w, R k v w → (P v ↔ Q w)) :
    (∃ v, m.get? k = some v ∧ P v) ↔ ∃ w, n.get? k = some w ∧ Q w := by
  have hrel := h k
  generalize m.get? k = a at hrel ⊢
  generalize n.get? k = b at hrel ⊢
  cases hrel with
  | none => simp
  | some hvw => simpa using hPQ _ _ hvw

end Related

section Sums

variable (g : V → Nat)

def sum (m : OrderedMap K V) : Nat := (m.values.map g).sum

theorem sum_insert_le (m : OrderedMap K V) (k : K) (v : V) :
    (m.insert k v).sum g ≤ m.sum g + g v := by
  have go (entries : List (K × V)) :
      ((insertEntries k v entries).map (fun e => g e.2)).sum ≤
        (entries.map (fun e => g e.2)).sum + g v := by
    induction entries with
    | nil => simp [insertEntries]
    | cons head rest ih =>
        obtain ⟨k', v'⟩ := head
        unfold insertEntries
        split_ifs <;> simp only [List.map_cons, List.sum_cons] <;> omega
  simpa [sum, values, insert, Function.comp_def] using go m.entries

/-- An update that adds at most `c` to one value adds at most `c` to the sum. -/
theorem sum_modify_le (m : OrderedMap K V) (k : K) (f : V → V) (c : Nat)
    (hf : ∀ v, g (f v) ≤ g v + c) : (m.modify k f).sum g ≤ m.sum g + c := by
  have untouched (entries : List (K × V)) (h : ∀ e ∈ entries, e.1 ≠ k) :
      modifyEntries k f entries = entries := by
    unfold modifyEntries
    exact (List.map_congr_left (fun e he => by simp [h e he])).trans (List.map_id _)
  have go (entries : List (K × V)) (h : entries.Pairwise (fun a b => a.1 < b.1)) :
      ((modifyEntries k f entries).map (fun e => g e.2)).sum ≤
        (entries.map (fun e => g e.2)).sum + c := by
    induction entries with
    | nil => simp [modifyEntries]
    | cons head rest ih =>
        obtain ⟨k', v⟩ := head
        obtain ⟨hhead, hrest⟩ := List.pairwise_cons.mp h
        have hstep : modifyEntries k f ((k', v) :: rest) =
            (k', if k' = k then f v else v) :: modifyEntries k f rest := rfl
        rw [hstep]
        by_cases hk : k' = k
        · have hne : ∀ e ∈ rest, e.1 ≠ k := fun e he => hk ▸ (hhead e he).ne'
          have hv := hf v
          simp only [untouched rest hne, hk, if_true, List.map_cons, List.sum_cons]
          omega
        · have hsum := ih hrest
          simp only [hk, if_false, List.map_cons, List.sum_cons]
          omega
  simpa [sum, values, modify, Function.comp_def] using go m.entries m.sorted

/-- What `retain` keeps and what it drops add up to the whole. -/
theorem sum_retain (m : OrderedMap K V) (p : K → V → Bool) :
    (m.retain p).sum g + ((m.entries.filter (fun e => !p e.1 e.2)).map (fun e => g e.2)).sum =
      m.sum g := by
  have go (entries : List (K × V)) :
      ((entries.filter (fun e => p e.1 e.2)).map (fun e => g e.2)).sum +
        ((entries.filter (fun e => !p e.1 e.2)).map (fun e => g e.2)).sum =
          (entries.map (fun e => g e.2)).sum := by
    induction entries with
    | nil => rfl
    | cons head rest ih =>
        cases hp : p head.1 head.2 <;>
          simp only [List.filter_cons, hp, Bool.not_false, Bool.not_true, if_true, if_false,
            Bool.false_eq_true, List.map_cons, List.sum_cons] <;> omega
  simpa [sum, values, retain, Function.comp_def] using go m.entries

end Sums

section Counting

variable {α : Type*}

/-- The count at `k`; a missing key counts zero. -/
def count (m : OrderedMap K Nat) (k : K) : Nat := (m.get? k).getD 0

/-- Add one at the key of each element that has one. -/
def tally (key : α → Option K) (xs : List α) (m : OrderedMap K Nat) : OrderedMap K Nat :=
  xs.foldl (fun m a =>
    match key a with
    | none => m
    | some k => m.upsert k 0 (· + 1)) m

theorem get?_tally (key : α → Option K) (xs : List α) (m : OrderedMap K Nat) (k : K) :
    (tally key xs m).get? k =
      if ∃ a ∈ xs, key a = some k then
        some (m.count k + xs.countP (fun a => decide (key a = some k)))
      else m.get? k := by
  induction xs generalizing m with
  | nil => simp [tally]
  | cons a rest ih =>
      have hstep : tally key (a :: rest) m = tally key rest (match key a with
          | none => m
          | some k => m.upsert k 0 (· + 1)) := rfl
      rw [hstep, ih]
      cases hkey : key a with
      | none => simp [hkey]
      | some k' =>
          by_cases hk : k = k'
          · subst hk
            have hone : (m.upsert k 0 (· + 1)).get? k = some (m.count k + 1) := by
              simp [get?_upsert, count]
            by_cases hrest : ∃ a ∈ rest, key a = some k
            · simp only [hrest, if_true, count, hone, Option.getD_some]
              simp [hkey]
              omega
            · have hzero : rest.countP (fun a => decide (key a = some k)) = 0 := by
                rw [List.countP_eq_zero]
                intro b hb
                simpa using fun h => hrest ⟨b, hb, h⟩
              rw [if_neg hrest, hone]
              simp [hkey, hzero]
          · have hother : (m.upsert k' 0 (· + 1)).get? k = m.get? k := by
              simp [get?_upsert, hk]
            have hne : some k' ≠ some k := fun h => hk (Option.some.inj h).symm
            simp [hkey, hne, hother, count]

theorem count_tally (key : α → Option K) (xs : List α) (m : OrderedMap K Nat) (k : K) :
    (tally key xs m).count k = m.count k + xs.countP (fun a => decide (key a = some k)) := by
  by_cases h : ∃ a ∈ xs, key a = some k
  · rw [count, get?_tally, if_pos h]
    rfl
  · have hzero : xs.countP (fun a => decide (key a = some k)) = 0 := by
      rw [List.countP_eq_zero]
      intro b hb
      simpa using fun hk => h ⟨b, hb, hk⟩
    rw [count, get?_tally, if_neg h, hzero]
    rfl

theorem get?_tally_count (key : α → Option K) (xs : List α) (m : OrderedMap K Nat) (k : K) :
    (tally key xs m).get? k =
      if xs.countP (fun a => decide (key a = some k)) = 0 then m.get? k
      else some (m.count k + xs.countP (fun a => decide (key a = some k))) := by
  have hzero : xs.countP (fun a => decide (key a = some k)) = 0 ↔ ¬ ∃ a ∈ xs, key a = some k := by
    simp [List.countP_eq_zero]
  rw [get?_tally]
  by_cases h : ∃ a ∈ xs, key a = some k
  · rw [if_pos h, if_neg (fun hz => hzero.mp hz h)]
  · rw [if_neg h, if_pos (hzero.mpr h)]

theorem contains_tally (key : α → Option K) (xs : List α) (m : OrderedMap K Nat) (k : K) :
    (tally key xs m).contains k = true ↔ m.contains k = true ∨ ∃ a ∈ xs, key a = some k := by
  unfold contains
  rw [get?_tally]
  by_cases h : ∃ a ∈ xs, key a = some k <;> simp [h]

/-- A tally never lowers or drops a count. -/
theorem get?_tally_of_some (key : α → Option K) (xs : List α) {m : OrderedMap K Nat} {k : K}
    {n : Nat} (h : m.get? k = some n) : ∃ n', (tally key xs m).get? k = some n' ∧ n ≤ n' := by
  rw [get?_tally, count, h]
  split
  · exact ⟨_, rfl, Nat.le_add_right _ _⟩
  · exact ⟨n, rfl, Nat.le_refl n⟩

end Counting

end OrderedMap
