/-
# `Storage.SkipChains` — the sorted sets of the engine are skip lists in memory

The engine's sorted sets are modelled by the level-0 chain of the list
(`SkipChain`).  Here the chain is shown to be what the memory of the list holds,
for every score, the NaNs included: each operation on the memory succeeds, gives
the answer of the chain, and leaves the chain of the result.
-/
import Ferrous.Storage.SkipMap

namespace Ferrous

open Lib

namespace SkipChain

open SkipListInner

theorem compareBytes_eq_compare (a b : Bytes) : compareBytes a b = compare a b := by
  have hbyte : ∀ x y : UInt8, compare x.toNat y.toNat = compare x y := by
    intro x y
    change compareOfLessAndEq x.toNat y.toNat = compareOfLessAndEq x y
    simp only [compareOfLessAndEq, UInt8.lt_iff_toNat_lt, UInt8.toNat_inj]
  induction a generalizing b with
  | nil => cases b <;> rfl
  | cons x xs ih =>
      cases b with
      | nil => rfl
      | cons y ys => rw [compareBytes, ih, List.compare_cons_cons, hbyte]

theorem isNan_eq (v : Float64) : isNan v = v.isNaN := by
  unfold isNan
  change (Float64.partialCmp v v).isNone = _
  unfold Float64.partialCmp
  cases v.isNaN <;> rfl

/-- The comparison is the one of the memory model. -/
theorem compareNodes_eq_compareNodes (v₁ : Float64) (k₁ : Bytes) (v₂ : Float64) (k₂ : Bytes) :
    SkipListInner.compareNodes v₁ k₁ v₂ k₂ = compareNodes v₁ k₁ v₂ k₂ := by
  unfold SkipListInner.compareNodes compareNodes
  rw [isNan_eq, isNan_eq, compareBytes_eq_compare]
  rfl

theorem eqScore_eq (a b : Float64) : eqScore a b = a.numEq b := by
  unfold eqScore Float64.numEq
  change (Float64.partialCmp a b == some .eq) = _
  unfold Float64.partialCmp
  cases ha : a.isNaN <;> cases hb : b.isNaN
  · simp only [Bool.or_self, Bool.false_eq_true, if_false, Bool.not_false, Bool.true_and]
    rw [Bool.eq_iff_iff, beq_iff_eq, Option.some.injEq, compare_eq_iff_eq, decide_eq_true_eq]
  all_goals rfl

/-- A node without its address. -/
def nodeOf (c : Cell Bytes Float64) : SkipNode := ⟨c.key, c.value, c.levels⟩

/-- The memory holds the nodes of the chain in their order, and the fields
beside them agree. -/
structure Represents (s : SkipListInner Bytes Float64) (z : SkipChain) : Prop where
  nodes : ∃ cells, Tower s cells ∧ cells.map nodeOf = z.chain
  length : s.length = z.length
  index : s.keyIndex = z.keyIndex
  memory : s.memoryUsage = z.memoryUsage

theorem represents_new : Represents (SkipListInner.new nodeBase [] ⟨0⟩) SkipChain.new where
  nodes := ⟨[], tower_new .., rfl⟩
  length := rfl
  index := rfl
  memory := rfl

variable {s : SkipListInner Bytes Float64} {z : SkipChain}

theorem Represents.setIndex (h : Represents s z) (index : Map Bytes Float64) :
    Represents { s with keyIndex := index } { z with keyIndex := index } := by
  obtain ⟨cells, ht, hz⟩ := h.nodes
  exact ⟨⟨cells, ht.setIndex index, hz⟩, h.length, rfl, h.memory⟩

/-- The two sides of the place of (score, member) in a sorted chain. -/
theorem split_isBefore {cells : List (Cell Bytes Float64)} (hs : (cells.map nodeOf).Pairwise Precedes)
    (value : Float64) (key : Bytes) :
    (∀ c ∈ cells.takeWhile (isBefore value key ∘ nodeOf),
      SkipListInner.compareNodes c.value c.key value key = .lt) ∧
    ∀ c ∈ cells.dropWhile (isBefore value key ∘ nodeOf),
      SkipListInner.compareNodes c.value c.key value key ≠ .lt := by
  refine ⟨fun c hc => ?_, fun c hc => ?_⟩
  · have hb := List.mem_takeWhile_imp hc
    rw [compareNodes_eq_compareNodes]
    exact beq_iff_eq.mp hb
  · have hb := not_of_mem_dropWhile (List.pairwise_map.mp hs) ?_ hc
    · rw [compareNodes_eq_compareNodes]
      exact beq_eq_false_iff_ne.mp hb
    · intro a b hab hb
      rw [Function.comp_apply, isBefore_eq ⟨key, value, 0⟩] at hb ⊢
      exact decide_eq_true fun hle => of_decide_eq_true hb (trans_of Precedes hle hab)

theorem Represents.insertNewNode (h : Represents s z) (hs : z.chain.Pairwise Precedes) (key : Bytes)
    (value : Float64) {level : Nat} (hl : level < maxLevel) :
    ∃ s', s.insertNewNode nodeBase key value level = some s' ∧
      Represents s' (z.insertNewNode key value level) := by
  obtain ⟨cells, ht, hz⟩ := h.nodes
  rw [← hz] at hs
  obtain ⟨has, hbs⟩ := split_isBefore hs value key
  have hsplit := List.takeWhile_append_dropWhile (p := isBefore value key ∘ nodeOf) (l := cells)
  rw [← hsplit] at ht
  obtain ⟨s', hs', ht', hindex, hmem⟩ := ht.insertNewNode nodeBase hl has hbs
  refine ⟨s', hs', ⟨_, ht', ?_⟩, ?_, hindex.trans h.index, ?_⟩
  · rw [SkipChain.insertNewNode, ← hz, List.map_append, List.map_cons, List.takeWhile_map,
      List.dropWhile_map]
    rfl
  · rw [ht'.length, SkipChain.insertNewNode, ← h.length, ht.length]
    simp only [List.length_append, List.length_cons]
    omega
  · rw [hmem, h.memory]
    rfl

theorem Represents.removeNodeByScore (h : Represents s z) (hs : z.chain.Pairwise Precedes) (key : Bytes)
    (score : Float64) :
    ∃ s', s.removeNodeByScore nodeBase key score = some s' ∧
      Represents s' (z.removeNodeByScore key score) := by
  obtain ⟨cells, ht, hz⟩ := h.nodes
  rw [← hz] at hs
  obtain ⟨has, hbs⟩ := split_isBefore hs score key
  have hsplit := List.takeWhile_append_dropWhile (p := isBefore score key ∘ nodeOf) (l := cells)
  unfold SkipChain.removeNodeByScore
  rw [← hz, List.dropWhile_map, List.takeWhile_map]
  rw [← hsplit] at ht
  generalize cells.takeWhile (isBefore score key ∘ nodeOf) = as at has hsplit ht
  cases hd : cells.dropWhile (isBefore score key ∘ nodeOf) with
  | nil =>
      rw [hd, List.append_nil] at ht
      exact ⟨s, ht.removeNodeByScore_end nodeBase has, h⟩
  | cons t bs =>
      rw [hd] at ht hbs
      have hrem := ht.removeNodeByScore nodeBase has hbs
      rw [eqScore_eq] at hrem
      by_cases hcond : t.key = key ∧ t.value.numEq score = true
      · rw [if_pos hcond] at hrem
        obtain ⟨s', hs', ht', hindex, hmem⟩ := hrem
        have hshrink : ∀ z' : SkipChain, (if (nodeOf t).key = key ∧ (nodeOf t).value.numEq score then
            z' else z) = z' := fun z' => if_pos hcond
        refine ⟨s', hs', ?_⟩
        change Represents s' (if (nodeOf t).key = key ∧ (nodeOf t).value.numEq score then _ else z)
        rw [hshrink]
        refine ⟨⟨_, ht', List.map_append⟩, ?_, hindex.trans h.index, ?_⟩
        · dsimp only
          rw [ht'.length, ← h.length, ht.length]
          simp only [List.length_append, List.length_cons]
          omega
        · dsimp only
          rw [hmem, h.memory]
          rfl
      · rw [if_neg hcond] at hrem
        have hkeep : ∀ z' : SkipChain, (if (nodeOf t).key = key ∧ (nodeOf t).value.numEq score then
            z' else z) = z := fun z' => if_neg hcond
        refine ⟨s, hrem, ?_⟩
        change Represents s (if (nodeOf t).key = key ∧ (nodeOf t).value.numEq score then _ else z)
        rw [hkeep]
        exact h

/-- `insert` on the memory is `insert` on the chain. -/
theorem Represents.insert (h : Represents s z) (hz : z.Sound) (key : Bytes) (value : Float64) {level : Nat}
    (hl : level < maxLevel) :
    ∃ s', s.insert nodeBase key value level = some ((z.insert key value level).1, s') ∧
      Represents s' (z.insert key value level).2 := by
  unfold SkipListInner.insert SkipChain.insert
  rw [h.index]
  cases hk : z.keyIndex.get? key with
  | none =>
      obtain ⟨s', hs', hr⟩ := (h.setIndex (z.keyIndex.set key value)).insertNewNode hz.sorted key value hl
      exact ⟨s', by simp only [hs', Option.bind_eq_bind, Option.bind_some], hr⟩
  | some old =>
      obtain ⟨-, -, hsorted, -, -⟩ := hz.removeNodeByScore hk rfl
      obtain ⟨s₁, hs₁, hr₁⟩ := h.removeNodeByScore hz.sorted key old
      obtain ⟨s', hs', hr⟩ := (hr₁.setIndex
        ((z.removeNodeByScore key old).keyIndex.set key value)).insertNewNode hsorted key value hl
      rw [← hr₁.index] at hs'
      exact ⟨s', by simp only [hs₁, hs', Option.bind_eq_bind, Option.bind_some], hr⟩

/-- `remove` on the memory is `remove` on the chain. -/
theorem Represents.remove (h : Represents s z) (hz : z.Sound) (key : Bytes) :
    ∃ s', s.remove nodeBase key = some ((z.remove key).1, s') ∧ Represents s' (z.remove key).2 := by
  unfold SkipListInner.remove SkipChain.remove
  rw [h.index]
  cases hk : z.keyIndex.get? key with
  | none => exact ⟨s, rfl, h⟩
  | some score =>
      obtain ⟨s', hs', hr⟩ :=
        (h.setIndex (z.keyIndex.del key)).removeNodeByScore hz.sorted key score
      exact ⟨s', by simp only [hs', Option.bind_eq_bind, Option.bind_some], hr⟩

/-- The queries on the memory are those on the chain. -/
theorem Represents.getAllItems (h : Represents s z) : s.getAllItems = some z.items := by
  obtain ⟨cells, ht, hz⟩ := h.nodes
  rw [ht.getAllItems, items, ← hz, List.map_map]
  rfl

@[inherit_doc Represents.getAllItems]
theorem Represents.getRank (h : Represents s z) (hz : z.Sound) (key : Bytes) :
    s.getRank key = some (z.getRank key) := by
  unfold SkipListInner.getRank SkipChain.getRank
  rw [h.index]
  cases z.keyIndex.get? key with
  | none => rfl
  | some score =>
      obtain ⟨cells, ht, hc⟩ := h.nodes
      have hs := hz.sorted
      rw [← hc] at hs
      obtain ⟨has, hbs⟩ := split_isBefore hs score key
      have hsplit := List.takeWhile_append_dropWhile (p := isBefore score key ∘ nodeOf) (l := cells)
      have hrest := ht.rest
      rw [← hsplit] at hrest
      have hlen : (cells.takeWhile (isBefore score key ∘ nodeOf)).length < s.fuel := by
        rw [fuel, ht.length]
        exact Nat.lt_succ_of_le (List.takeWhile_sublist _).length_le
      have hrank := hrest.rankFrom 0 has hbs hlen
      dsimp only
      rw [hrank, ← hc, List.dropWhile_map, List.takeWhile_map]
      cases cells.dropWhile (isBefore score key ∘ nodeOf) with
      | nil => rfl
      | cons t bs =>
          simp only [List.head?_cons, Option.any_some, decide_eq_true_eq, List.map_cons, List.length_map,
            Nat.zero_add, compareNodes_eq_compareNodes, nodeOf]

@[inherit_doc Represents.getAllItems]
theorem Represents.rangeByRank (h : Represents s z) (startRank endRank : Nat) :
    s.rangeByRank startRank endRank = some (z.rangeByRank startRank endRank) := by
  obtain ⟨cells, ht, hc⟩ := h.nodes
  have hlen : z.length = cells.length := by rw [← h.length, ht.length]
  have hitems : z.items = cells.map item := by
    rw [items, ← hc, List.map_map]
    rfl
  rw [ht.rangeByRank, SkipChain.rangeByRank, hitems, hlen]
  congr 1
  split
  · next hle => rw [List.drop_eq_nil_of_le (by rwa [List.length_map]), List.take_nil]
  · rw [List.take_eq_take_iff, List.length_drop, List.length_map]
    omega

theorem grade_le_of_precedes {a b : SkipNode} (h : Precedes a b) : grade a.value ≤ grade b.value := by
  rw [Precedes, compareOf, compareNodes_eq] at h
  by_contra hgt
  have hcmp : compare (grade a.value) (grade b.value) = .gt :=
    compare_gt_iff_gt.mpr (not_le.mp hgt)
  rw [hcmp] at h
  cases h

/-- Being below a score is closed towards the front of the chain. -/
theorem lt_of_precedes {a b : SkipNode} (h : Precedes a b) {score : Float64} (hb : b.value.lt score) :
    a.value.lt score := by
  have hgrade := grade_le_of_precedes h
  have hrank := rank_lt b.value
  simp only [Float64.lt, Bool.and_eq_true, Bool.not_eq_true', decide_eq_true_eq] at hb ⊢
  obtain ⟨⟨hbn, hsn⟩, hlt⟩ := hb
  unfold grade at hgrade
  rw [hbn] at hgrade
  cases ha : a.value.isNaN with
  | true =>
      rw [ha] at hgrade
      simp only [if_true, Bool.false_eq_true, if_false] at hgrade
      omega
  | false =>
      rw [ha] at hgrade
      simp only [Bool.false_eq_true, if_false] at hgrade
      exact ⟨⟨rfl, hsn⟩, by omega⟩

theorem ltScore_eq (a b : Float64) : ltScore a b = a.lt b := by
  unfold ltScore Float64.lt
  change (Float64.partialCmp a b == some .lt) = _
  unfold Float64.partialCmp
  cases ha : a.isNaN <;> cases hb : b.isNaN
  · simp only [Bool.or_self, Bool.false_eq_true, if_false, Bool.not_false, Bool.true_and]
    rw [Bool.eq_iff_iff, beq_iff_eq, Option.some.injEq, compare_lt_iff_lt, decide_eq_true_eq]
  all_goals rfl

theorem leScore_eq (a b : Float64) : leScore a b = a.le b := by
  have hor : leScore a b = (a.lt b || a.numEq b) := by
    rw [← ltScore_eq, ← eqScore_eq]
    rfl
  rw [hor]
  unfold Float64.lt Float64.numEq Float64.le
  cases a.isNaN <;> cases b.isNaN
  · simp only [Bool.not_false, Bool.true_and]
    rw [← Bool.decide_or, decide_eq_decide]
    omega
  all_goals rfl

@[inherit_doc Represents.getAllItems]
theorem Represents.rangeByScore (h : Represents s z) (hz : z.Sound) (minScore maxScore : Float64) :
    s.rangeByScore minScore maxScore = some (z.rangeByScore minScore maxScore) := by
  obtain ⟨cells, ht, hc⟩ := h.nodes
  let low : Cell Bytes Float64 → Bool := fun c => c.value.lt minScore
  let top : Cell Bytes Float64 → Bool := fun c => c.value.le maxScore
  have hs := hz.sorted
  rw [← hc] at hs
  have hlow : ∀ c ∈ cells.dropWhile low, low c = false := fun c hcd =>
    not_of_mem_dropWhile (List.pairwise_map.mp hs) (fun a b hab hb => lt_of_precedes hab hb) hcd
  have hcut : cells = cells.takeWhile low ++
      ((cells.dropWhile low).takeWhile top ++ (cells.dropWhile low).dropWhile top) := by
    rw [List.takeWhile_append_dropWhile, List.takeWhile_append_dropWhile]
  have ht' := ht
  rw [hcut] at ht'
  rw [ht'.rangeByScore minScore maxScore (fun c hcd => ?_) (fun c hcd => ?_)
    (fun c hcd => ?_) (fun c hcd => ?_)]
  · have hitems : z.items = cells.map item := by
      rw [items, ← hc, List.map_map]
      rfl
    rw [SkipChain.rangeByScore, hitems, List.dropWhile_map, List.takeWhile_map]
    rfl
  · have hb : low c = true := List.mem_takeWhile_imp hcd
    rw [ltScore_eq]
    exact hb
  · rw [List.takeWhile_append_dropWhile] at hcd
    rw [ltScore_eq]
    exact hlow c hcd
  · have hb : top c = true := List.mem_takeWhile_imp hcd
    rw [leScore_eq]
    exact hb
  · have hne : (cells.dropWhile low).dropWhile top ≠ [] := by
      intro hnil
      rw [hnil] at hcd
      cases hcd
    have hnot := List.head_dropWhile_not top hne
    rw [List.head_of_head?_eq_some hcd] at hnot
    rw [leScore_eq]
    exact hnot

end SkipChain

end Ferrous
