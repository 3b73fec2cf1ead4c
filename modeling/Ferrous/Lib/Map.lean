/-
# `Lib.Map` — finite maps with an iteration order

`Map K V` is Mathlib's association list without duplicate keys, used at a
constant family.  Looking a key up, storing and removing do not depend on the
order of the entries; `toPairs` is the order in which the map is iterated,
which programs must not rely on.  A finite set is a map to `Unit`.
-/
import Mathlib.Data.Finset.Card
import Mathlib.Data.List.AList

namespace Lib

/-- A finite map (`HashMap`, `BTreeMap`). -/
abbrev Map (K V : Type) := AList (fun _ : K => V)

/-- A finite set (`HashSet`). -/
abbrev FSet (K : Type) := Map K Unit

namespace Map

variable {K V W : Type} [DecidableEq K]

instance [DecidableEq V] : DecidableEq (Map K V) :=
  fun a b => decidable_of_iff (a.entries = b.entries) AList.ext_iff.symm

/-- The value stored under a key. -/
def get? (m : Map K V) (k : K) : Option V := m.lookup k

/-- Store a value under a key, replacing what was there. -/
def set (m : Map K V) (k : K) (v : V) : Map K V := AList.insert k v m

/-- Remove a key. -/
def del (m : Map K V) (k : K) : Map K V := AList.erase k m

/-- The entries, in iteration order. -/
def toPairs (m : Map K V) : List (K × V) := m.entries.map fun e => (e.1, e.2)

/-- The keys, in iteration order. -/
def keyList (m : Map K V) : List K := m.toPairs.map Prod.fst

/-- The values, in iteration order. -/
def valueList (m : Map K V) : List V := m.toPairs.map Prod.snd

/-- Number of entries. -/
def size (m : Map K V) : Nat := m.toPairs.length

/-- Whether a key is present. -/
def contains (m : Map K V) (k : K) : Bool := (m.get? k).isSome

/-- Store a list of pairs, first to last. -/
def setAll (m : Map K V) (ps : List (K × V)) : Map K V := ps.foldl (fun m p => m.set p.1 p.2) m

/-- Change every value, and drop the keys for which nothing is left. -/
def filterMapValues (m : Map K V) (f : V → Option W) : Map K W :=
  (∅ : Map K W).setAll (m.toPairs.filterMap fun p => (f p.2).map (p.1, ·))

/-- Add a member to a set. -/
def add (m : FSet K) (k : K) : FSet K := m.set k ()

/-! ## Lookup laws -/

@[simp] theorem get?_empty (k : K) : (∅ : Map K V).get? k = none := AList.lookup_empty k

@[simp] theorem get?_set_self (m : Map K V) (k : K) (v : V) : (m.set k v).get? k = some v :=
  AList.lookup_insert m

theorem get?_set_ne (m : Map K V) {k k' : K} (v : V) (h : k' ≠ k) :
    (m.set k v).get? k' = m.get? k' :=
  AList.lookup_insert_ne h

theorem get?_set (m : Map K V) (k k' : K) (v : V) :
    (m.set k v).get? k' = if k' = k then some v else m.get? k' := by
  split
  · next h => rw [h, get?_set_self]
  · next h => exact get?_set_ne m v h

@[simp] theorem get?_del_self (m : Map K V) (k : K) : (m.del k).get? k = none :=
  AList.lookup_erase k m

theorem get?_del_ne (m : Map K V) {k k' : K} (h : k' ≠ k) : (m.del k).get? k' = m.get? k' :=
  AList.lookup_erase_ne h

theorem get?_del (m : Map K V) (k k' : K) :
    (m.del k).get? k' = if k' = k then none else m.get? k' := by
  split
  · next h => rw [h, get?_del_self]
  · next h => exact get?_del_ne m h

/-! ## Iteration -/

omit [DecidableEq K] in
@[simp] theorem toPairs_empty : (∅ : Map K V).toPairs = [] := rfl

omit [DecidableEq K] in
theorem keyList_eq_keys (m : Map K V) : m.keyList = m.keys := by
  simp only [keyList, toPairs, List.map_map]
  rfl

omit [DecidableEq K] in
theorem nodup_keyList (m : Map K V) : m.keyList.Nodup := by
  rw [keyList_eq_keys]
  exact m.keys_nodup

theorem mem_toPairs {m : Map K V} {k : K} {v : V} : (k, v) ∈ m.toPairs ↔ m.get? k = some v := by
  have h : m.get? k = some v ↔ (⟨k, v⟩ : Sigma fun _ : K => V) ∈ m.entries :=
    AList.mem_lookup_iff
  rw [h]
  simp only [toPairs, List.mem_map]
  constructor
  · rintro ⟨⟨a, b⟩, hm, he⟩
    cases he
    exact hm
  · intro hm
    exact ⟨⟨k, v⟩, hm, rfl⟩

theorem mem_keyList {m : Map K V} {k : K} : k ∈ m.keyList ↔ ∃ v, m.get? k = some v := by
  simp only [keyList, List.mem_map, Prod.exists, exists_and_right, exists_eq_right, mem_toPairs]

omit [DecidableEq K] in
theorem nodup_toPairs (m : Map K V) : m.toPairs.Nodup :=
  (nodup_keyList m).of_map _

theorem toPairs_set (m : Map K V) (k : K) (v : V) :
    (m.set k v).toPairs = (k, v) :: (m.del k).toPairs := by
  rw [toPairs, set, AList.entries_insert]
  rfl

theorem toPairs_del (m : Map K V) (k : K) :
    (m.del k).toPairs = m.toPairs.filter fun p => decide (p.1 ≠ k) := by
  have hn := m.nodup_keyList
  have hd : (m.del k).toPairs = (m.entries.kerase k).map fun e => (e.1, e.2) := rfl
  rw [hd]
  simp only [keyList, toPairs] at hn ⊢
  generalize m.entries = es at hn
  induction es with
  | nil => rfl
  | cons e es ih =>
      simp only [List.map_cons, List.nodup_cons] at hn
      by_cases he : k = e.1
      · rw [List.kerase_cons_eq he, List.map_cons, List.filter_cons_of_neg (by simp [he]),
          List.filter_eq_self.mpr]
        intro p hp
        simp only [ne_eq, decide_not, Bool.not_eq_true', decide_eq_false_iff_not]
        rintro rfl
        exact hn.1 (he ▸ List.mem_map_of_mem hp)
      · rw [List.kerase_cons_ne he, List.map_cons, List.map_cons,
          List.filter_cons_of_pos (by simp [Ne.symm he]), ih hn.2]

/-- Two maps with the same lookups have the same entries, in some order. -/
theorem toPairs_perm_of_get?_eq {m n : Map K V} (h : ∀ k, m.get? k = n.get? k) :
    m.toPairs.Perm n.toPairs := by
  refine (List.perm_ext_iff_of_nodup m.nodup_toPairs n.nodup_toPairs).mpr ?_
  rintro ⟨k, v⟩
  rw [mem_toPairs, mem_toPairs, h]

theorem size_del_of_none {m : Map K V} {k : K} (h : m.get? k = none) : (m.del k).size = m.size := by
  rw [size, size, toPairs_del, List.filter_eq_self.mpr]
  rintro ⟨k', v⟩ hp
  simp only [ne_eq, decide_not, Bool.not_eq_true', decide_eq_false_iff_not]
  rintro rfl
  rw [mem_toPairs.mp hp] at h
  cases h

theorem size_del_of_some {m : Map K V} {k : K} {v : V} (h : m.get? k = some v) :
    (m.del k).size + 1 = m.size := by
  have hperm : m.toPairs.Perm ((m.del k).set k v).toPairs := by
    refine toPairs_perm_of_get?_eq fun k' => ?_
    rw [get?_set, get?_del]
    split
    · next hk => rw [hk, h]
    · rfl
  have hlen := hperm.length_eq
  have hdel := size_del_of_none (m := m.del k) (get?_del_self m k)
  rw [toPairs_set, List.length_cons] at hlen
  simp only [size] at hdel ⊢
  omega

theorem size_set_of_none {m : Map K V} {k : K} (h : m.get? k = none) (v : V) :
    (m.set k v).size = m.size + 1 := by
  have hdel := size_del_of_none h
  simp only [size, toPairs_set, List.length_cons] at hdel ⊢
  omega

theorem size_set_of_some {m : Map K V} {k : K} {w : V} (h : m.get? k = some w) (v : V) :
    (m.set k v).size = m.size := by
  have hdel := size_del_of_some h
  simp only [size, toPairs_set, List.length_cons] at hdel ⊢
  omega

theorem get?_setAll_of_notMem {ps : List (K × V)} {k : K} (h : k ∉ ps.map Prod.fst)
    (m : Map K V) : (m.setAll ps).get? k = m.get? k := by
  induction ps generalizing m with
  | nil => rfl
  | cons p ps ih =>
      simp only [List.map_cons, List.mem_cons, not_or] at h
      exact (ih h.2 _).trans (get?_set_ne m p.2 h.1)

/-- Storing the pairs of a map one by one rebuilds its lookups. -/
theorem get?_setAll_of_mem {ps : List (K × V)} (hn : (ps.map Prod.fst).Nodup) {k : K} {v : V}
    (h : (k, v) ∈ ps) (m : Map K V) : (m.setAll ps).get? k = some v := by
  induction ps generalizing m with
  | nil => exact absurd h List.not_mem_nil
  | cons p ps ih =>
      simp only [List.map_cons, List.nodup_cons] at hn
      rcases List.mem_cons.mp h with rfl | h'
      · exact (get?_setAll_of_notMem hn.1 _).trans (get?_set_self m k v)
      · exact ih hn.2 h' _

theorem get?_setAll_toPairs (m : Map K V) (k : K) :
    ((∅ : Map K V).setAll m.toPairs).get? k = m.get? k := by
  cases h : m.get? k with
  | none =>
      refine get?_setAll_of_notMem (fun hk => ?_) _
      obtain ⟨v, hv⟩ := mem_keyList.mp hk
      rw [h] at hv
      cases hv
  | some v => exact get?_setAll_of_mem m.nodup_keyList (mem_toPairs.mpr h) _

theorem size_setAll_le (m : Map K V) (ps : List (K × V)) : (m.setAll ps).size ≤ m.size + ps.length := by
  induction ps generalizing m with
  | nil => exact Nat.le_refl _
  | cons p ps ih =>
      have hone : (m.set p.1 p.2).size ≤ m.size + 1 := by
        cases h : m.get? p.1 with
        | none => rw [size_set_of_none h]
        | some v => rw [size_set_of_some h]; exact Nat.le_succ _
      have hrest := ih (m.set p.1 p.2)
      rw [List.length_cons]
      exact Nat.le_trans hrest (by omega)

/-- What a map holds after some pairs were stored was there or is one of them. -/
theorem mem_of_mem_toPairs_setAll {m : Map K V} {ps : List (K × V)} {p : K × V}
    (h : p ∈ (m.setAll ps).toPairs) : p ∈ m.toPairs ∨ p ∈ ps := by
  induction ps generalizing m with
  | nil => exact .inl h
  | cons q ps ih =>
      rcases ih h with h | h
      · rw [toPairs_set] at h
        rcases List.mem_cons.mp h with rfl | h
        · exact .inr List.mem_cons_self
        · rw [toPairs_del] at h
          exact .inl (List.mem_of_mem_filter h)
      · exact .inr (List.mem_cons_of_mem q h)

theorem get?_foldl_del (m : Map K V) (ks : List K) (k : K) :
    (ks.foldl del m).get? k = if k ∈ ks then none else m.get? k := by
  induction ks generalizing m with
  | nil => simp
  | cons k' ks ih =>
      rw [List.foldl_cons, ih, get?_del]
      simp only [List.mem_cons]
      by_cases hk : k = k'
      · simp [hk]
      · simp [hk]

omit [DecidableEq K] in
private theorem keys_filterMap_sublist (f : V → Option W) (ps : List (K × V)) :
    ((ps.filterMap fun p => (f p.2).map (p.1, ·)).map Prod.fst).Sublist (ps.map Prod.fst) := by
  induction ps with
  | nil => exact List.Sublist.refl _
  | cons p ps ih =>
      cases hp : f p.2 with
      | none =>
          rw [List.filterMap_cons_none (by rw [hp]; rfl)]
          exact ih.cons _
      | some w =>
          rw [List.filterMap_cons_some (by rw [hp]; rfl)]
          exact ih.cons_cons _

theorem get?_filterMapValues (m : Map K V) (f : V → Option W) (k : K) :
    (m.filterMapValues f).get? k = (m.get? k).bind f := by
  have hn := m.nodup_keyList.sublist (keys_filterMap_sublist f m.toPairs)
  cases h : (m.get? k).bind f with
  | none =>
      refine (get?_setAll_of_notMem (fun hk => ?_) _).trans (get?_empty k)
      obtain ⟨⟨k', w⟩, hm, rfl⟩ := List.mem_map.mp hk
      obtain ⟨⟨k'', v⟩, hv, he⟩ := List.mem_filterMap.mp hm
      obtain ⟨w', hw, he'⟩ := Option.map_eq_some_iff.mp he
      cases he'
      rw [mem_toPairs.mp hv] at h
      exact absurd (h.symm.trans hw) nofun
  | some w =>
      obtain ⟨v, hv, hw⟩ := Option.bind_eq_some_iff.mp h
      refine get?_setAll_of_mem hn (List.mem_filterMap.mpr ⟨(k, v), mem_toPairs.mpr hv, ?_⟩) _
      dsimp only
      rw [hw]
      rfl

/-! ## Sets -/

/-- The members of a set. -/
def members (m : FSet K) : Finset K := m.keyList.toFinset

theorem contains_iff {m : Map K V} {k : K} : m.contains k = true ↔ ∃ v, m.get? k = some v := by
  rw [contains, Option.isSome_iff_exists]

/-- A map that is not empty has a key. -/
theorem size_ne_zero_iff {m : Map K V} : m.size ≠ 0 ↔ ∃ k, m.contains k = true := by
  rw [size, ne_eq, List.length_eq_zero_iff]
  constructor
  · intro hne
    obtain ⟨⟨k, v⟩, hp⟩ := List.exists_mem_of_ne_nil _ hne
    exact ⟨k, contains_iff.mpr ⟨v, mem_toPairs.mp hp⟩⟩
  · rintro ⟨k, hk⟩ hnil
    obtain ⟨v, hv⟩ := contains_iff.mp hk
    have hp := mem_toPairs.mpr hv
    rw [hnil] at hp
    cases hp

theorem size_set_ne_zero (m : Map K V) (k : K) (v : V) : (m.set k v).size ≠ 0 := by
  refine size_ne_zero_iff.mpr ⟨k, contains_iff.mpr ⟨v, ?_⟩⟩
  exact get?_set_self m k v

theorem mem_members {m : FSet K} {k : K} : k ∈ m.members ↔ m.contains k = true := by
  rw [members, List.mem_toFinset, mem_keyList, contains_iff]

@[simp] theorem members_empty : (∅ : FSet K).members = ∅ := rfl

@[simp] theorem members_add (m : FSet K) (k : K) : (m.add k).members = insert k m.members := by
  ext k'
  rw [mem_members, contains, add, get?_set, Finset.mem_insert, mem_members, contains]
  split
  · next h => simp [h]
  · next h => simp [h]

@[simp] theorem members_del (m : FSet K) (k : K) : members (m.del k) = m.members.erase k := by
  ext k'
  rw [mem_members, contains, get?_del, Finset.mem_erase, mem_members, contains]
  split
  · next h => simp [h]
  · next h => simp [h]

theorem card_members (m : FSet K) : m.members.card = m.size := by
  rw [members, List.toFinset_card_of_nodup m.nodup_keyList, keyList, List.length_map, size]

theorem size_eq_zero {m : FSet K} : m.size = 0 ↔ m.members = ∅ := by
  rw [← card_members, Finset.card_eq_zero]

end Map

end Lib
