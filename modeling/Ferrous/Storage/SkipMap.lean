/-
# `Storage.SkipMap` — the skip list refines a sorted map

The reference is an association list in the order of (score, key), with at most
one entry a key.  Over scores that are totally ordered every run of insertions,
removals and clears on the memory of the list keeps its nodes those of the
reference, whatever heights are drawn, and answers every call and every query
as the reference does.
-/
import Ferrous.Storage.SkipSpec

namespace Ferrous

open Lib

/-! ## The order of scores and keys -/

/-- The comparison of two scores that are comparable. -/
def scoreCmp {V : Type} [PartialOrd V] (a b : V) : Ordering := (partialCmp a b).getD .eq

/-- Every two scores are comparable, and the comparison is transitive. -/
class TotalScores (V : Type) [PartialOrd V] : Prop where
  partialCmp_eq (a b : V) : partialCmp a b = some (scoreCmp a b)
  trans : Std.TransCmp (scoreCmp : V → V → Ordering)

attribute [instance] TotalScores.trans

section Order

variable {K V : Type} [Ord K] [PartialOrd V]

/-- The order of the entries: by score, then by key. -/
def itemCmp (a b : K × V) : Ordering := (scoreCmp a.2 b.2).then (compare a.1 b.1)

instance [Std.TransOrd K] [TotalScores V] : Std.TransCmp (itemCmp : K × V → K × V → Ordering) :=
  letI : Ord V := ⟨scoreCmp⟩
  haveI : Std.TransOrd V := TotalScores.trans
  inferInstanceAs (Std.TransCmp (compareLex (compareOn Prod.snd) (compareOn Prod.fst)))

theorem compareNodes_eq_itemCmp [TotalScores V] (v₁ : V) (k₁ : K) (v₂ : V) (k₂ : K) :
    SkipListInner.compareNodes v₁ k₁ v₂ k₂ = itemCmp (k₁, v₁) (k₂, v₂) := by
  unfold SkipListInner.compareNodes
  rw [TotalScores.partialCmp_eq, itemCmp]
  dsimp only
  cases scoreCmp v₁ v₂ <;> rfl

/-- An entry is not behind another. -/
def ItemLE (a b : K × V) : Prop := (itemCmp a b).isLE

instance : DecidableRel (ItemLE : K × V → K × V → Prop) :=
  fun a b => inferInstanceAs (Decidable ((itemCmp a b).isLE = true))

variable [Std.TransOrd K] [TotalScores V]

theorem itemCmp_swap (a b : K × V) : itemCmp a b = (itemCmp b a).swap := Std.OrientedCmp.eq_swap

instance : IsTrans (K × V) ItemLE := ⟨fun _ _ _ => Std.TransCmp.isLE_trans⟩

instance : Std.Total (ItemLE : K × V → K × V → Prop) := ⟨fun a b => by
  unfold ItemLE
  rw [itemCmp_swap b a]
  cases itemCmp a b <;> simp⟩

theorem itemLE_iff {a b : K × V} : ItemLE a b ↔ itemCmp b a ≠ .lt := by
  rw [ItemLE, itemCmp_swap a b]
  cases itemCmp b a <;> simp

omit [Std.TransOrd K] [TotalScores V] in
/-- Different keys are never equal in the order. -/
theorem itemCmp_lt_of_le [Std.LawfulEqOrd K] {a b : K × V} (h : ItemLE a b) (hne : a.1 ≠ b.1) :
    itemCmp a b = .lt := by
  unfold ItemLE at h
  cases hc : itemCmp a b with
  | lt => rfl
  | gt => rw [hc] at h; cases h
  | eq =>
      rw [itemCmp, Ordering.then_eq_eq] at hc
      exact absurd (Std.LawfulEqOrd.eq_of_compare hc.2) hne

end Order

/-! ## The reference -/

/-- What can happen to a skip list; `level` is the outcome of `random_level`. -/
inductive SkipOp (K V : Type)
  | insert (key : K) (value : V) (level : Fin SkipChain.maxLevel)
  | remove (key : K)
  | clear

namespace SortedAssoc

variable {K V : Type} [DecidableEq K]

/-- The entries of the other keys. -/
def remove (l : List (K × V)) (key : K) : List (K × V) := l.filter fun p => p.1 ≠ key

/-- The score of a key. -/
def lookup (l : List (K × V)) (key : K) : Option V := (l.find? fun p => p.1 = key).map Prod.snd

/-- The rank of a key. -/
def rank (l : List (K × V)) (key : K) : Option Nat := l.findIdx? fun p => p.1 = key

/-- The entries at the ranks of a closed interval. -/
def rangeByRank (l : List (K × V)) (startRank endRank : Nat) : List (K × V) :=
  (l.drop startRank).take (endRank + 1 - startRank)

section Scores

variable [Ord K] [PartialOrd V]

/-- The entry of a key, put in its place. -/
def insert (l : List (K × V)) (key : K) (value : V) : List (K × V) :=
  (remove l key).orderedInsert ItemLE (key, value)

omit [DecidableEq K] [Ord K] in
/-- The entries with a score of a closed interval. -/
def rangeByScore (l : List (K × V)) (minScore maxScore : V) : List (K × V) :=
  l.filter fun p => SkipListInner.leScore minScore p.2 && SkipListInner.leScore p.2 maxScore

/-- One call: its answer and the entries after it. -/
def step (l : List (K × V)) : SkipOp K V → Option V × List (K × V)
  | .insert key value _ => (lookup l key, insert l key value)
  | .remove key => (lookup l key, remove l key)
  | .clear => (none, [])

/-- The answers of a run and the entries after it. -/
def run (l : List (K × V)) : List (SkipOp K V) → List (Option V) × List (K × V)
  | [] => ([], l)
  | o :: os => ((step l o).1 :: (run (step l o).2 os).1, (run (step l o).2 os).2)

end Scores

end SortedAssoc

namespace SkipListInner

variable {K V : Type} [Ord K] [DecidableEq K] [PartialOrd V]

/-- One call on the memory of the list; a clear answers nothing. -/
def step (base : Nat) (s : SkipListInner K V) : SkipOp K V → Option (Option V × SkipListInner K V)
  | .insert key value level => s.insert base key value level
  | .remove key => s.remove base key
  | .clear => (s.clear base).map (none, ·)

/-- A run: the answers and the memory after it. -/
def run (base : Nat) (s : SkipListInner K V) :
    List (SkipOp K V) → Option (List (Option V) × SkipListInner K V)
  | [] => some ([], s)
  | o :: os => do
      let (r, s) ← s.step base o
      let (rs, s) ← s.run base os
      some (r :: rs, s)

/-! ## Refinement -/

/-- The nodes of the memory hold the entries, in their order. -/
def Holds (s : SkipListInner K V) (l : List (K × V)) : Prop :=
  ∃ cells, Tower s cells ∧ cells.map item = l

/-- The memory represents the entries: the nodes are theirs, they are in order
with one a key, and the index has exactly their scores. -/
structure Refines (s : SkipListInner K V) (l : List (K × V)) : Prop where
  holds : s.Holds l
  sorted : l.Pairwise ItemLE
  nodup : (l.map Prod.fst).Nodup
  indexed : ∀ k v, s.keyIndex.get? k = some v ↔ (k, v) ∈ l

variable {s : SkipListInner K V} {l : List (K × V)}

omit [DecidableEq K] [Ord K] [PartialOrd V] in
theorem Holds.setIndex (h : s.Holds l) (index : Map K V) : Holds { s with keyIndex := index } l := by
  obtain ⟨cells, ht, hl⟩ := h
  exact ⟨cells, ht.setIndex index, hl⟩

section Total

variable [Std.TransOrd K] [TotalScores V]

omit [DecidableEq K] in
/-- A new node goes where the reference puts its entry. -/
theorem Holds.insertNewNode (h : s.Holds l) (hl : l.Pairwise ItemLE) (base : Nat) (key : K) (value : V)
    (level : Fin maxLevel) :
    ∃ s', s.insertNewNode base key value level = some s' ∧ s'.keyIndex = s.keyIndex ∧
      s'.Holds (l.orderedInsert ItemLE (key, value)) := by
  obtain ⟨cells, ht, rfl⟩ := h
  let before : Cell K V → Bool := fun c => decide ¬ ItemLE (key, value) (item c)
  have hsplit := List.takeWhile_append_dropWhile (p := before) (l := cells)
  have has : ∀ c ∈ cells.takeWhile before, compareNodes c.value c.key value key = .lt := by
    intro c hc
    have hb := List.mem_takeWhile_imp hc
    rw [compareNodes_eq_itemCmp]
    exact not_not.mp fun hne => of_decide_eq_true hb (itemLE_iff.mpr hne)
  have hbs : ∀ c ∈ cells.dropWhile before, compareNodes c.value c.key value key ≠ .lt := by
    intro c hc
    have hb := not_of_mem_dropWhile (List.pairwise_map.mp hl) ?_ hc
    · rw [compareNodes_eq_itemCmp]
      exact itemLE_iff.mp (not_not.mp (of_decide_eq_false hb))
    · intro c d hcd hd
      exact decide_eq_true fun hle => of_decide_eq_true hd (trans_of ItemLE hle hcd)
  rw [← hsplit] at ht
  obtain ⟨s', hs', ht', hindex, -⟩ := ht.insertNewNode base level.isLt has hbs
  refine ⟨s', hs', hindex, _, ht', ?_⟩
  rw [List.orderedInsert_eq_take_drop, List.map_append, List.map_cons, List.takeWhile_map,
    List.dropWhile_map]
  rfl

omit [DecidableEq K] in
/-- A key's node in the order: the nodes before it are strictly before it, those
from it on are not, and none of the others has its key. -/
theorem split_at_key [Std.LawfulEqOrd K] {as bs : List (Cell K V)} {t : Cell K V} {key : K} {value : V}
    (hl : ((as ++ t :: bs).map item).Pairwise ItemLE)
    (hn : (((as ++ t :: bs).map item).map Prod.fst).Nodup) (hit : item t = (key, value)) :
    (∀ c ∈ as, compareNodes c.value c.key value key = .lt) ∧
    (∀ c ∈ t :: bs, compareNodes c.value c.key value key ≠ .lt) ∧
    ∀ c, c ∈ as ∨ c ∈ bs → c.key ≠ key := by
  rw [List.map_append, List.map_cons, List.pairwise_append, List.pairwise_cons] at hl
  rw [List.map_append, List.map_cons, List.map_append, List.map_cons, hit] at hn
  have hkeys := (List.nodup_cons.mp (List.nodup_middle.mp hn)).1
  have hnot : ∀ c, c ∈ as ∨ c ∈ bs → c.key ≠ key := by
    intro c hc heq
    refine hkeys ?_
    rw [← heq, ← List.map_append, ← List.map_append, List.map_map]
    exact List.mem_map_of_mem (f := Prod.fst ∘ item) (List.mem_append.mpr hc)
  refine ⟨fun c hc => ?_, fun c hc => ?_, hnot⟩
  · rw [compareNodes_eq_itemCmp]
    have hle := hl.2.2 (item c) (List.mem_map_of_mem hc) (item t) List.mem_cons_self
    rw [hit] at hle
    exact itemCmp_lt_of_le hle (hnot c (.inl hc))
  · rw [compareNodes_eq_itemCmp]
    refine itemLE_iff.mp ?_
    rw [← hit]
    rcases List.mem_cons.mp hc with rfl | hc
    · exact refl_of ItemLE (item c)
    · exact hl.2.1.1 (item c) (List.mem_map_of_mem hc)

/-- The node of a key goes, found by its score. -/
theorem Holds.removeNodeByScore [Std.LawfulEqOrd K] (h : s.Holds l) (hl : l.Pairwise ItemLE)
    (hn : (l.map Prod.fst).Nodup) (base : Nat) {key : K} {value : V} (hmem : (key, value) ∈ l) :
    ∃ s', s.removeNodeByScore base key value = some s' ∧ s'.keyIndex = s.keyIndex ∧
      s'.Holds (SortedAssoc.remove l key) := by
  obtain ⟨cells, ht, rfl⟩ := h
  obtain ⟨t, hmt, hit⟩ := List.mem_map.mp hmem
  obtain ⟨as, bs, rfl⟩ := List.append_of_mem hmt
  have htk : t.key = key := congrArg Prod.fst hit
  have htv : t.value = value := congrArg Prod.snd hit
  obtain ⟨has, hbs, hnot⟩ := split_at_key hl hn hit
  have hrefl : eqScore t.value value = true := by
    have hself : scoreCmp value value = .eq := Std.ReflCmp.compare_self
    rw [htv, eqScore, TotalScores.partialCmp_eq, hself]
    rfl
  have hrem := ht.removeNodeByScore base has hbs
  rw [if_pos ⟨htk, hrefl⟩] at hrem
  obtain ⟨s', hs', ht', hindex, -⟩ := hrem
  refine ⟨s', hs', hindex, _, ht', ?_⟩
  have hkeep : ∀ cs : List (Cell K V), (∀ c ∈ cs, c.key ≠ key) →
      SortedAssoc.remove (cs.map item) key = cs.map item := by
    intro cs hcs
    refine List.filter_eq_self.mpr fun p hp => ?_
    obtain ⟨c, hc, rfl⟩ := List.mem_map.mp hp
    exact decide_eq_true (hcs c hc)
  have hdrop : SortedAssoc.remove ((as ++ t :: bs).map item) key =
      SortedAssoc.remove (as.map item) key ++ SortedAssoc.remove (bs.map item) key := by
    rw [List.map_append, List.map_cons, hit, SortedAssoc.remove, List.filter_append,
      List.filter_cons_of_neg (by simp)]
    rfl
  rw [hdrop, hkeep as fun c hc => hnot c (.inl hc), hkeep bs fun c hc => hnot c (.inr hc),
    List.map_append]

variable [Std.LawfulEqOrd K]

omit [Std.TransOrd K] [TotalScores V] [Std.LawfulEqOrd K] [Ord K] [PartialOrd V] in
theorem lookup_eq_some (hn : (l.map Prod.fst).Nodup) {key : K} {value : V} :
    SortedAssoc.lookup l key = some value ↔ (key, value) ∈ l := by
  unfold SortedAssoc.lookup
  induction l with
  | nil => simp
  | cons p l ih =>
      obtain ⟨k, v⟩ := p
      obtain ⟨hp, hrest⟩ := List.nodup_cons.mp hn
      by_cases hk : k = key
      · subst hk
        have hnot : (k, value) ∉ l := fun hin => hp (List.mem_map.mpr ⟨_, hin, rfl⟩)
        simp [hnot, eq_comm]
      · rw [List.find?_cons_of_neg (by simpa using hk), ih hrest]
        simp [Ne.symm hk]

omit [Std.TransOrd K] [TotalScores V] [Std.LawfulEqOrd K] in
/-- The index answers as the reference does. -/
theorem Refines.keyIndex_eq (h : s.Refines l) (key : K) :
    s.keyIndex.get? key = SortedAssoc.lookup l key := by
  refine Option.ext fun value => ?_
  rw [h.indexed, lookup_eq_some h.nodup]

omit [Std.TransOrd K] [TotalScores V] [Std.LawfulEqOrd K] [Ord K] [PartialOrd V] in
theorem remove_sublist (l : List (K × V)) (key : K) : (SortedAssoc.remove l key).Sublist l :=
  List.filter_sublist

omit [Std.TransOrd K] [TotalScores V] [Std.LawfulEqOrd K] [Ord K] [PartialOrd V] in
theorem mem_remove {key : K} {p : K × V} : p ∈ SortedAssoc.remove l key ↔ p ∈ l ∧ p.1 ≠ key := by
  rw [SortedAssoc.remove, List.mem_filter, decide_eq_true_eq]

omit [Std.TransOrd K] [TotalScores V] [Std.LawfulEqOrd K] [Ord K] [PartialOrd V] in
theorem remove_eq_self {key : K} (h : SortedAssoc.lookup l key = none) :
    SortedAssoc.remove l key = l := by
  refine List.filter_eq_self.mpr fun p hp => decide_eq_true fun heq => ?_
  have hnone := List.find?_eq_none.mp (Option.map_eq_none_iff.mp h) p hp
  exact hnone (decide_eq_true heq)

omit [Std.LawfulEqOrd K] in
/-- The entries with a new one are in order, one a key, and indexed. -/
theorem Refines.insertNewNode {l' : List (K × V)} (h : s.Holds l') (hl : l'.Pairwise ItemLE)
    (hn : (l'.map Prod.fst).Nodup) {key : K} (hkey : ∀ p ∈ l', p.1 ≠ key) {index : Map K V}
    (hi : ∀ k v, k ≠ key → (index.get? k = some v ↔ (k, v) ∈ l')) (base : Nat) (value : V)
    (level : Fin maxLevel) :
    ∃ s', { s with keyIndex := index.set key value }.insertNewNode base key value level = some s' ∧
      s'.Refines (l'.orderedInsert ItemLE (key, value)) := by
  obtain ⟨s', hs', hindex, hholds⟩ := (h.setIndex (index.set key value)).insertNewNode hl base key value level
  have hperm : (l'.orderedInsert ItemLE (key, value)).Perm ((key, value) :: l') :=
    List.perm_orderedInsert _ _ _
  refine ⟨s', hs', hholds, List.Pairwise.orderedInsert _ _ hl, ?_, fun k v => ?_⟩
  · refine (hperm.map Prod.fst).nodup_iff.mpr (List.nodup_cons.mpr ⟨fun hin => ?_, hn⟩)
    obtain ⟨p, hp, hpk⟩ := List.mem_map.mp hin
    exact hkey p hp hpk
  · rw [hindex, hperm.mem_iff, List.mem_cons]
    dsimp only
    rw [Map.get?_set]
    split
    · next hk =>
        subst hk
        have hnot : (k, v) ∉ l' := fun hin => hkey _ hin rfl
        simp [hnot, eq_comm]
    · next hk =>
        rw [hi k v hk]
        simp [hk]

/-- One call keeps the representation and answers as the reference does. -/
theorem Refines.step (h : s.Refines l) (base : Nat) (o : SkipOp K V) :
    ∃ s', s.step base o = some ((SortedAssoc.step l o).1, s') ∧ s'.Refines (SortedAssoc.step l o).2 := by
  have hsub := fun key => remove_sublist l key
  cases o with
  | insert key value level =>
      have hother : ∀ k v, k ≠ key →
          (s.keyIndex.get? k = some v ↔ (k, v) ∈ SortedAssoc.remove l key) := by
        intro k v hk
        rw [h.indexed, mem_remove]
        exact ⟨fun hin => ⟨hin, hk⟩, fun hin => hin.1⟩
      have hnew := fun (s₁ : SkipListInner K V) (hs₁ : s₁.Holds (SortedAssoc.remove l key)) =>
        Refines.insertNewNode hs₁ (h.sorted.sublist (hsub key)) (h.nodup.sublist ((hsub key).map _))
          (fun p hp => (mem_remove.mp hp).2) hother base value level
      rw [SkipListInner.step, insert, SortedAssoc.step, ← h.keyIndex_eq]
      cases hk : s.keyIndex.get? key with
      | none =>
          have hsame : SortedAssoc.remove l key = l :=
            remove_eq_self (by rw [← h.keyIndex_eq, hk])
          obtain ⟨s', hs', href⟩ := hnew s (hsame.symm ▸ h.holds)
          exact ⟨s', by simp only [hs', Option.bind_eq_bind, Option.bind_some], href⟩
      | some old =>
          obtain ⟨s₁, hs₁, hindex, hholds⟩ :=
            h.holds.removeNodeByScore h.sorted h.nodup base ((h.indexed key old).mp hk)
          obtain ⟨s', hs', href⟩ := hnew s₁ hholds
          rw [← hindex] at hs'
          exact ⟨s', by simp only [hs₁, hs', Option.bind_eq_bind, Option.bind_some], href⟩
  | remove key =>
      rw [SkipListInner.step, remove, SortedAssoc.step, ← h.keyIndex_eq]
      cases hk : s.keyIndex.get? key with
      | none =>
          have hsame : SortedAssoc.remove l key = l :=
            remove_eq_self (by rw [← h.keyIndex_eq, hk])
          exact ⟨s, rfl, hsame.symm ▸ h⟩
      | some score =>
          obtain ⟨s', hs', hindex, hholds⟩ :=
            (h.holds.setIndex (s.keyIndex.del key)).removeNodeByScore h.sorted h.nodup base
              ((h.indexed key score).mp hk)
          refine ⟨s', by simp only [hs', Option.bind_eq_bind, Option.bind_some], hholds,
            h.sorted.sublist (hsub key), h.nodup.sublist ((hsub key).map _), fun k v => ?_⟩
          rw [hindex, mem_remove]
          dsimp only
          rw [Map.get?_del]
          split
          · next heq => simp [heq]
          · next hne => simp [h.indexed, hne]
  | clear =>
      obtain ⟨cells, ht, -⟩ := h.holds
      obtain ⟨s', hs', ht', hindex, -⟩ := ht.clear base
      refine ⟨s', by rw [SkipListInner.step, hs']; rfl, ⟨[], ht', rfl⟩, .nil, .nil, fun k v => ?_⟩
      rw [hindex, Map.get?_empty]
      simp [SortedAssoc.step]

/-- A run keeps the representation and answers as the reference does. -/
theorem Refines.run (h : s.Refines l) (base : Nat) (ops : List (SkipOp K V)) :
    ∃ s', s.run base ops = some ((SortedAssoc.run l ops).1, s') ∧
      s'.Refines (SortedAssoc.run l ops).2 := by
  induction ops generalizing s l with
  | nil => exact ⟨s, rfl, h⟩
  | cons o ops ih =>
      obtain ⟨s₁, hs₁, h₁⟩ := h.step base o
      obtain ⟨s₂, hs₂, h₂⟩ := ih h₁
      refine ⟨s₂, ?_, h₂⟩
      rw [SkipListInner.run, hs₁]
      simp only [Option.bind_eq_bind, Option.bind_some, hs₂]
      rfl

/-! ## Queries -/

/-- `get_rank`. -/
theorem Refines.getRank (h : s.Refines l) (key : K) :
    s.getRank key = some (SortedAssoc.rank l key) := by
  unfold SkipListInner.getRank SortedAssoc.rank
  cases hk : s.keyIndex.get? key with
  | none =>
      have hnone : SortedAssoc.lookup l key = none := by rw [← h.keyIndex_eq, hk]
      have hall := List.find?_eq_none.mp (Option.map_eq_none_iff.mp hnone)
      rw [List.findIdx?_eq_none_iff.mpr fun p hp => Bool.eq_false_iff.mpr (hall p hp)]
  | some score =>
      have hmem := (h.indexed key score).mp hk
      obtain ⟨cells, ht, rfl⟩ := h.holds
      obtain ⟨t, hmt, hit⟩ := List.mem_map.mp hmem
      obtain ⟨as, bs, rfl⟩ := List.append_of_mem hmt
      obtain ⟨has, hbs, hkeys⟩ := split_at_key h.sorted h.nodup hit
      have hself : compareNodes t.value t.key score key = .eq := by
        have hcmp : itemCmp (item t) (item t) = .eq := Std.ReflCmp.compare_self
        rw [compareNodes_eq_itemCmp, ← hit]
        exact hcmp
      have hlen : as.length < s.fuel := by
        have hl := ht.length
        rw [List.length_append] at hl
        rw [fuel]
        omega
      have hrank := ht.rest.rankFrom 0 has hbs hlen
      have hfront : (as.map item).findIdx? (fun p => p.1 = key) = none := by
        refine List.findIdx?_eq_none_iff.mpr fun p hp => ?_
        obtain ⟨c, hc, rfl⟩ := List.mem_map.mp hp
        exact decide_eq_false (hkeys c (.inl hc))
      dsimp only
      rw [hrank, List.map_append, List.findIdx?_append, hfront, List.map_cons, hit, List.findIdx?_cons]
      simp [hself]

omit [Std.LawfulEqOrd K] [DecidableEq K] [Std.TransOrd K] in
/-- The scores on the two sides of a bound. -/
theorem leScore_iff {a b : V} : leScore a b = true ↔ ltScore b a = false := by
  rw [leScore, ltScore, TotalScores.partialCmp_eq, TotalScores.partialCmp_eq]
  have hswap : scoreCmp b a = (scoreCmp a b).swap := Std.OrientedCmp.eq_swap
  rw [hswap]
  cases scoreCmp a b <;> decide

omit [Std.LawfulEqOrd K] [DecidableEq K] [Std.TransOrd K] in
/-- Scores go up along the order. -/
theorem score_le_of_itemLE {a b : K × V} (h : ItemLE a b) : leScore a.2 b.2 = true := by
  unfold ItemLE itemCmp at h
  rw [leScore, TotalScores.partialCmp_eq]
  cases hc : scoreCmp a.2 b.2 with
  | lt => rfl
  | eq => rfl
  | gt =>
      rw [hc] at h
      cases h

omit [Ord K] [DecidableEq K] [Std.TransOrd K] [Std.LawfulEqOrd K] in
theorem leScore_trans {a b c : V} (h : leScore a b = true) (h' : leScore b c = true) :
    leScore a c = true := by
  have hle : ∀ x y : V, leScore x y = (scoreCmp x y).isLE := by
    intro x y
    rw [leScore, TotalScores.partialCmp_eq]
    cases scoreCmp x y <;> decide
  rw [hle] at h h' ⊢
  exact Std.TransCmp.isLE_trans h h'

omit [Std.TransOrd K] [Std.LawfulEqOrd K] in
/-- `range_by_score`. -/
theorem Refines.rangeByScore (h : s.Refines l) (minScore maxScore : V) :
    s.rangeByScore minScore maxScore = some (SortedAssoc.rangeByScore l minScore maxScore) := by
  obtain ⟨cells, ht, rfl⟩ := h.holds
  have hsorted := List.pairwise_map.mp h.sorted
  -- cut in front of the minimum and behind the maximum
  let low : Cell K V → Bool := fun c => ltScore c.value minScore
  let top : Cell K V → Bool := fun c => leScore c.value maxScore
  have hlow : ∀ c ∈ cells.dropWhile low, low c = false := by
    intro c hc
    refine not_of_mem_dropWhile hsorted (fun a b hab hb => ?_) hc
    by_contra ha
    have hle := leScore_trans (leScore_iff.mpr (Bool.eq_false_iff.mpr ha)) (score_le_of_itemLE hab)
    rw [leScore_iff] at hle
    exact absurd (hle.symm.trans hb) (by decide)
  have htop : ∀ c ∈ (cells.dropWhile low).dropWhile top, top c = false := by
    intro c hc
    exact not_of_mem_dropWhile (hsorted.sublist (List.dropWhile_suffix low).sublist)
      (fun a b hab hb => leScore_trans (score_le_of_itemLE hab) hb) hc
  have hcut : cells = cells.takeWhile low ++
      ((cells.dropWhile low).takeWhile top ++ (cells.dropWhile low).dropWhile top) := by
    rw [List.takeWhile_append_dropWhile, List.takeWhile_append_dropWhile]
  have hmid : ∀ c ∈ (cells.dropWhile low).takeWhile top ++ (cells.dropWhile low).dropWhile top,
      low c = false := by
    rw [List.takeWhile_append_dropWhile]
    exact hlow
  have hbelow : ∀ c ∈ cells.takeWhile low, low c = true := fun c hc => List.mem_takeWhile_imp hc
  have hupto : ∀ c ∈ (cells.dropWhile low).takeWhile top, top c = true :=
    fun c hc => List.mem_takeWhile_imp hc
  have ht' := ht
  rw [hcut] at ht'
  rw [ht'.rangeByScore minScore maxScore hbelow hmid hupto fun c hc => htop c (List.mem_of_mem_head? hc)]
  congr 1
  -- outside the cuts nothing is in the interval
  let within : K × V → Bool := fun p => leScore minScore p.2 && leScore p.2 maxScore
  change _ = (cells.map item).filter within
  have hnone : ∀ cs : List (Cell K V), (∀ c ∈ cs, within (item c) = false) →
      (cs.map item).filter within = [] := by
    intro cs hcs
    refine List.filter_eq_nil_iff.mpr fun p hp => ?_
    obtain ⟨c, hc, rfl⟩ := List.mem_map.mp hp
    rw [hcs c hc]
    exact Bool.false_ne_true
  have hfilter := congrArg (fun cs => (cs.map item).filter within) hcut
  rw [hfilter, List.map_append, List.map_append, List.filter_append, List.filter_append,
    hnone (cells.takeWhile low), hnone ((cells.dropWhile low).dropWhile top), List.nil_append,
    List.append_nil]
  · refine (List.filter_eq_self.mpr fun p hp => ?_).symm
    obtain ⟨c, hc, rfl⟩ := List.mem_map.mp hp
    exact Bool.and_eq_true_iff.mpr ⟨leScore_iff.mpr (hmid c (List.mem_append_left _ hc)), hupto c hc⟩
  · intro c hc
    exact Bool.and_eq_false_iff.mpr (.inr (htop c hc))
  · intro c hc
    refine Bool.and_eq_false_iff.mpr (.inl (Bool.eq_false_iff.mpr fun hle => ?_))
    exact absurd ((leScore_iff.mp hle).symm.trans (hbelow c hc)) (by decide)

omit [Std.TransOrd K] [TotalScores V] in
theorem Refines.strictly_sorted (h : s.Refines l) : l.Pairwise fun a b => itemCmp a b = .lt := by
  have hne : l.Pairwise fun a b => a.1 ≠ b.1 := List.pairwise_map.mp h.nodup
  exact (h.sorted.and hne).imp fun hab => itemCmp_lt_of_le hab.1 hab.2

end Total

variable [Std.TransOrd K] [Std.LawfulEqOrd K] [TotalScores V]

omit [Std.TransOrd K] [Std.LawfulEqOrd K] [TotalScores V] in
theorem refines_new (base : Nat) (key : K) (value : V) : (new base key value).Refines [] where
  holds := ⟨[], tower_new base key value, rfl⟩
  sorted := .nil
  nodup := .nil
  indexed := fun k v => by
    rw [new, Map.get?_empty]
    simp

/-- In every run of insertions, removals and clears, with any heights drawn, no
pointer leads astray and every call answers as the reference does; and after it
the level-0 chain holds the entries of the reference, strictly increasing in
(score, key), every level is a sublist of the one below, the index holds exactly
the entries, the length is their number, and every query answers as the
reference does. -/
theorem refines_sorted_map (base : Nat) (key₀ : K) (value₀ : V) (ops : List (SkipOp K V)) :
    ∃ s, (new base key₀ value₀).run base ops = some ((SortedAssoc.run [] ops).1, s) ∧
      let l := (SortedAssoc.run [] ops).2
      (∃ chain, s.levelChain 0 = some chain ∧
        chain.map (fun p => (s.boxes.get? p).map fun n => (n.key, n.value)) = l.map some) ∧
      l.Pairwise (fun a b => itemCmp a b = .lt) ∧
      (∀ i, i + 1 < maxLevel → ∃ upper lower, s.levelChain (i + 1) = some upper ∧
        s.levelChain i = some lower ∧ upper.Sublist lower) ∧
      (∀ key value, s.keyIndex.get? key = some value ↔ (key, value) ∈ l) ∧
      s.length = l.length ∧
      (∀ key, s.getRank key = some (SortedAssoc.rank l key)) ∧
      (∀ rank, s.getByRank rank = some l[rank]?) ∧
      (∀ startRank endRank,
        s.rangeByRank startRank endRank = some (SortedAssoc.rangeByRank l startRank endRank)) ∧
      (∀ minScore maxScore,
        s.rangeByScore minScore maxScore = some (SortedAssoc.rangeByScore l minScore maxScore)) ∧
      s.getAllItems = some l := by
  obtain ⟨s, hs, href⟩ := (refines_new base key₀ value₀).run base ops
  refine ⟨s, hs, ?_, href.strictly_sorted, ?_, href.indexed, ?_, href.getRank, ?_, ?_,
    href.rangeByScore, ?_⟩
  all_goals obtain ⟨cells, ht, hl⟩ := href.holds
  · refine ⟨_, ht.levelChain (by decide), ?_⟩
    rw [Cell.above_zero fun c hc => (ht.levels c hc).1, ← hl, Cell.addrs, List.map_map, List.map_map]
    refine List.map_congr_left fun c hc => ?_
    obtain ⟨fw, hfw, -⟩ := ht.wired.boxed c hc
    rw [Function.comp_apply, hfw]
    rfl
  · intro i hi
    exact ⟨_, _, ht.levelChain hi, ht.levelChain (Nat.lt_of_succ_lt hi),
      (Cell.above_succ_sublist cells i).map _⟩
  · rw [ht.length, ← hl, List.length_map]
  · intro rank
    rw [ht.getByRank, hl]
  · intro startRank endRank
    rw [ht.rangeByRank, hl]
    rfl
  · rw [ht.getAllItems, hl]

/-- A number: a `f64` that is not a NaN. -/
abbrev Number := { x : Float64 // x.isNaN = false }

instance : PartialOrd Float64 := ⟨Float64.partialCmp⟩

instance : PartialOrd Number := ⟨fun a b => partialCmp a.1 b.1⟩

theorem scoreCmp_number (a b : Number) : scoreCmp a b = compare a.1.rank b.1.rank := by
  unfold scoreCmp
  change (Float64.partialCmp a.1 b.1).getD .eq = _
  rw [Float64.partialCmp, a.2, b.2]
  rfl

instance : TotalScores Number where
  partialCmp_eq a b := by
    rw [scoreCmp_number]
    change Float64.partialCmp a.1 b.1 = _
    rw [Float64.partialCmp, a.2, b.2]
    rfl
  trans := by
    have hcmp : (scoreCmp : Number → Number → Ordering) = compareOn fun x => x.1.rank := by
      funext a b
      exact scoreCmp_number a b
    rw [hcmp]
    infer_instance

/-- The numbers 0, 1 and 2. -/
def zero : Number := ⟨⟨0⟩, rfl⟩

@[inherit_doc zero]
def one : Number := ⟨⟨0x3FF0000000000000⟩, rfl⟩

@[inherit_doc zero]
def two : Number := ⟨⟨0x4000000000000000⟩, rfl⟩

/-- A member is entered with the score 2, another with 1, and the first is moved
to 0, on different heights. -/
def moved : List (SkipOp Bytes Number) :=
  [.insert "b".toBytes two ⟨3, by decide⟩, .insert "a".toBytes one ⟨0, by decide⟩,
    .insert "b".toBytes zero ⟨1, by decide⟩]

/-- Its old score is the answer, and it comes first now. -/
theorem refines_sorted_map_moved :
    ∃ s, (new 56 [] zero).run 56 moved = some ([none, none, some two], s) ∧
      s.getAllItems = some [("b".toBytes, zero), ("a".toBytes, one)] := by
  obtain ⟨s, hs, -, -, -, -, -, -, -, -, -, hall⟩ := refines_sorted_map 56 [] zero moved
  have hanswers : (SortedAssoc.run [] moved).1 = [none, none, some two] := by decide +kernel
  have hentries : (SortedAssoc.run [] moved).2 = [("b".toBytes, zero), ("a".toBytes, one)] := by
    decide +kernel
  rw [hanswers] at hs
  rw [hentries] at hall
  exact ⟨s, hs, hall⟩

end SkipListInner

end Ferrous
