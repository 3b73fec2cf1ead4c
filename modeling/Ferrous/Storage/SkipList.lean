/-
# `Storage.SkipList` — sorted sets

The level-0 chain of the skip list with the height drawn for each node, and the
member index beside it.  The chain is searched by one total comparison of
(score, member) in which every NaN comes after every number, so the position a
search over the higher levels reaches is the end of the `Less` prefix of the
chain; the heights only show up in the memory figure.

A node whose score is a NaN is never found again, so the index and the chain
drift apart once one is inserted.  Until then they describe the same set:
`Sound` says so, every operation keeps it, and `SkipList` carries it.
-/
import Ferrous.Lib.Float64
import Ferrous.Lib.Map
import Mathlib.Data.List.Sort
import Mathlib.Data.List.TakeWhile

namespace Ferrous

open Lib

/-- A node: member, score and the number of its forward pointers. -/
structure SkipNode where
  key : Bytes
  value : Float64
  levels : Nat
  deriving DecidableEq, Repr

/-- The fields of `SkipList<Vec<u8>, f64>`. -/
structure SkipChain where
  chain : List SkipNode
  length : Nat
  memoryUsage : Nat
  keyIndex : Map Bytes Float64
  deriving DecidableEq

namespace SkipChain

/-- `MAX_LEVEL`. -/
def maxLevel : Nat := 32

theorem maxLevel_pos : 0 < maxLevel := by decide

/-- `size_of::<SkipListNode<Vec<u8>, f64>>()`. -/
def nodeBase : Nat := 56

/-- `calculate_node_size`: a forward pointer is an `Option<*mut _>` of 16 bytes. -/
def calculateNodeSize (levels : Nat) : Nat := nodeBase + levels * 16

/-- `SkipList::new`. -/
def new : SkipChain where
  chain := []
  length := 0
  memoryUsage := calculateNodeSize maxLevel
  keyIndex := ∅

/-- `Vec<u8>::cmp`: lexicographic on bytes. -/
def compareBytes : Bytes → Bytes → Ordering
  | [], [] => .eq
  | [], _ :: _ => .lt
  | _ :: _, [] => .gt
  | a :: as, b :: bs => (compare a.toNat b.toNat).then (compareBytes as bs)

/-- `compare_nodes` and `compare_with_query`. -/
def compareNodes (v₁ : Float64) (k₁ : Bytes) (v₂ : Float64) (k₂ : Bytes) : Ordering :=
  match v₁.partialCmp v₂ with
  | some .eq => compareBytes k₁ k₂
  | some ord => ord
  | none =>
      if v₁.isNaN && v₂.isNaN then compareBytes k₁ k₂
      else if v₁.isNaN then .gt else .lt

/-- Whether a node comes before (score, member). -/
def isBefore (value : Float64) (key : Bytes) (n : SkipNode) : Bool :=
  compareNodes n.value n.key value key == .lt

/-- `insert_new_node`; `level` is the outcome of `random_level`. -/
def insertNewNode (s : SkipChain) (key : Bytes) (value : Float64) (level : Nat) : SkipChain :=
  { s with
    chain := s.chain.takeWhile (isBefore value key) ++
      ⟨key, value, level + 1⟩ :: s.chain.dropWhile (isBefore value key)
    length := s.length + 1
    memoryUsage := s.memoryUsage + calculateNodeSize (level + 1) }

/-- `remove_node_by_score`: the node after the `Less` prefix goes if it carries
the same member and a score that is `==`, which no NaN is. -/
def removeNodeByScore (s : SkipChain) (key : Bytes) (score : Float64) : SkipChain :=
  match s.chain.dropWhile (isBefore score key) with
  | [] => s
  | target :: rest =>
      if target.key = key ∧ target.value.numEq score then
        { s with
          chain := s.chain.takeWhile (isBefore score key) ++ rest
          length := s.length - 1
          memoryUsage := s.memoryUsage - calculateNodeSize target.levels }
      else s

/-- `insert`: the old score of the member, if it had one, and the new list. -/
def insert (s : SkipChain) (key : Bytes) (value : Float64) (level : Nat) :
    Option Float64 × SkipChain :=
  match s.keyIndex.get? key with
  | some old =>
      let s₁ := s.removeNodeByScore key old
      let s₂ := { s₁ with keyIndex := s₁.keyIndex.set key value }
      (some old, s₂.insertNewNode key value level)
  | none =>
      let s₁ := { s with keyIndex := s.keyIndex.set key value }
      (none, s₁.insertNewNode key value level)

/-- `remove`. -/
def remove (s : SkipChain) (key : Bytes) : Option Float64 × SkipChain :=
  match s.keyIndex.get? key with
  | some score =>
      let s₁ := { s with keyIndex := s.keyIndex.del key }
      (some score, s₁.removeNodeByScore key score)
  | none => (none, s)

/-- `get_score`. -/
def getScore (s : SkipChain) (key : Bytes) : Option Float64 := s.keyIndex.get? key

/-- `get_rank`. -/
def getRank (s : SkipChain) (key : Bytes) : Option Nat :=
  match s.keyIndex.get? key with
  | none => none
  | some score =>
      match s.chain.dropWhile (isBefore score key) with
      | [] => none
      | n :: _ =>
          if compareNodes n.value n.key score key = .eq then
            some (s.chain.takeWhile (isBefore score key)).length
          else none

/-- The (member, score) pairs of the chain. -/
def items (s : SkipChain) : List (Bytes × Float64) := s.chain.map fun n => (n.key, n.value)

/-- `range_by_rank`, both ends included. -/
def rangeByRank (s : SkipChain) (startRank endRank : Nat) : List (Bytes × Float64) :=
  if s.length ≤ startRank then []
  else (s.items.drop startRank).take (min (endRank + 1) s.length - startRank)

/-- `range_by_score`, both ends included. -/
def rangeByScore (s : SkipChain) (minScore maxScore : Float64) : List (Bytes × Float64) :=
  (s.items.dropWhile fun p => p.2.lt minScore).takeWhile fun p => p.2.le maxScore

/-- `len`. -/
def len (s : SkipChain) : Nat := s.length

/-- `is_empty`. -/
def isEmpty (s : SkipChain) : Bool := s.len == 0

/-! ## The order of the chain -/

/-- Place of a score on the line, the NaNs past its end. -/
def grade (v : Float64) : Int := if v.isNaN then 2 ^ 63 else v.rank

theorem rank_lt (v : Float64) : v.rank < 2 ^ 63 := by
  have hm : v.magnitude < 2 ^ 63 := Nat.mod_lt _ (by decide)
  unfold Float64.rank
  split <;> omega

theorem compareBytes_eq (a b : Bytes) :
    compareBytes a b = compare (a.map (·.toNat)) (b.map (·.toNat)) := by
  induction a generalizing b with
  | nil => cases b <;> rfl
  | cons x xs ih =>
      cases b with
      | nil => rfl
      | cons y ys =>
          rw [compareBytes, ih, List.map_cons, List.map_cons, List.compare_cons_cons]

/-- The comparison is the lexicographic one of (grade, member). -/
theorem compareNodes_eq (v₁ : Float64) (k₁ : Bytes) (v₂ : Float64) (k₂ : Bytes) :
    compareNodes v₁ k₁ v₂ k₂ = (compare (grade v₁) (grade v₂)).then (compareBytes k₁ k₂) := by
  unfold compareNodes Float64.partialCmp grade
  cases h₁ : v₁.isNaN <;> cases h₂ : v₂.isNaN
  · simp only [Bool.or_self, Bool.false_eq_true, if_false]
    cases compare v₁.rank v₂.rank <;> rfl
  · have h : compare v₁.rank (2 ^ 63) = .lt := compare_lt_iff_lt.mpr (rank_lt v₁)
    simp only [Bool.or_true, Bool.false_and, Bool.false_eq_true, if_true, if_false, h]
    rfl
  · have h : compare (2 ^ 63) v₂.rank = .gt := compare_gt_iff_gt.mpr (rank_lt v₂)
    simp only [Bool.or_false, Bool.and_false, Bool.false_eq_true, if_true, if_false, h]
    rfl
  · have h : compare (2 ^ 63 : Int) (2 ^ 63) = .eq := compare_eq_iff_eq.mpr rfl
    simp only [Bool.or_self, Bool.and_self, if_true, h]
    rfl

/-- `compare_nodes` on two nodes. -/
def compareOf (a b : SkipNode) : Ordering := compareNodes a.value a.key b.value b.key

theorem compareOf_eq : compareOf =
    compareLex (compareOn fun n => grade n.value) (compareOn fun n => n.key.map (·.toNat)) := by
  funext a b
  rw [compareOf, compareNodes_eq, compareBytes_eq]
  rfl

instance : Std.TransCmp compareOf := by
  rw [compareOf_eq]
  infer_instance

/-- The order the chain is kept in. -/
def Precedes (a b : SkipNode) : Prop := (compareOf a b).isLE

instance : DecidableRel Precedes := fun a b => inferInstanceAs (Decidable ((compareOf a b).isLE = true))

instance : IsTrans SkipNode Precedes := ⟨fun _ _ _ => Std.TransCmp.isLE_trans⟩

theorem compareOf_swap (a b : SkipNode) : compareOf a b = (compareOf b a).swap :=
  Std.OrientedCmp.eq_swap

instance : Std.Total Precedes := ⟨fun a b => by
  unfold Precedes
  rw [compareOf_swap b a]
  cases compareOf a b <;> simp⟩

/-- A node comes before another exactly if the other does not precede it. -/
theorem isBefore_eq (n : SkipNode) : isBefore n.value n.key = fun m => decide ¬ Precedes n m := by
  funext m
  have hp : Precedes n m ↔ compareOf m n ≠ .lt := by
    rw [Precedes, compareOf_swap]
    cases compareOf m n <;> decide
  show (compareOf m n == .lt) = decide ¬ Precedes n m
  rw [beq_eq_decide]
  exact decide_eq_decide.mpr (by rw [hp, not_not])

theorem key_eq_of_compareOf_eq {a b : SkipNode} (h : compareOf a b = .eq) : a.key = b.key := by
  rw [compareOf, compareNodes_eq, compareBytes_eq, Ordering.then_eq_eq] at h
  have hk := Std.LawfulEqCmp.eq_of_compare h.2
  exact List.map_injective_iff.mpr (fun x y hxy => UInt8.toNat_inj.mp hxy) hk

/-! ## Chain and index agree -/

/-- No score in the chain is a NaN. -/
def NaNFree (s : SkipChain) : Prop := ∀ n ∈ s.chain, n.value.isNaN = false

/-- The chain is sorted and as long as `length` says; without NaNs its members
are distinct and the index holds exactly their scores. -/
structure Sound (s : SkipChain) : Prop where
  length_eq : s.length = s.chain.length
  sorted : s.chain.Pairwise Precedes
  nodup : s.NaNFree → (s.chain.map (·.key)).Nodup
  indexed : s.NaNFree → ∀ k v, s.keyIndex.get? k = some v ↔ ∃ n ∈ s.chain, n.key = k ∧ n.value = v

theorem Sound.new : SkipChain.new.Sound where
  length_eq := rfl
  sorted := List.Pairwise.nil
  nodup := fun _ => List.nodup_nil
  indexed := fun _ k v => by simp [SkipChain.new]

/-- The chain with a node put in its place. -/
theorem insertNewNode_chain (s : SkipChain) (key : Bytes) (value : Float64) (level : Nat) :
    (s.insertNewNode key value level).chain =
      s.chain.orderedInsert Precedes ⟨key, value, level + 1⟩ := by
  rw [List.orderedInsert_eq_take_drop, ← isBefore_eq]
  rfl

theorem mem_insertNewNode {s : SkipChain} {key : Bytes} {value : Float64} {level : Nat}
    {n : SkipNode} :
    n ∈ (s.insertNewNode key value level).chain ↔ n = ⟨key, value, level + 1⟩ ∨ n ∈ s.chain := by
  rw [insertNewNode_chain, List.mem_orderedInsert]

/-- A node put into a chain that does not have its member. -/
theorem Sound.insertNewNode {s : SkipChain} {key : Bytes} {value : Float64} (level : Nat)
    {index : Map Bytes Float64} (hl : s.length = s.chain.length) (hs : s.chain.Pairwise Precedes)
    (hn : s.NaNFree → (s.chain.map (·.key)).Nodup ∧ key ∉ s.chain.map (·.key))
    (hi : s.NaNFree → ∀ k v, k ≠ key →
      (index.get? k = some v ↔ ∃ n ∈ s.chain, n.key = k ∧ n.value = v)) :
    ({ s with keyIndex := index.set key value }.insertNewNode key value level).Sound := by
  have hperm : (s.insertNewNode key value level).chain.Perm (⟨key, value, level + 1⟩ :: s.chain) := by
    rw [insertNewNode_chain]
    exact List.perm_orderedInsert _ _ _
  have hfree : (s.insertNewNode key value level).NaNFree → s.NaNFree :=
    fun h n hm => h n (mem_insertNewNode.mpr (.inr hm))
  refine ⟨?_, ?_, fun h => ?_, fun h k v => ?_⟩
  · show s.length + 1 = (s.insertNewNode key value level).chain.length
    rw [hperm.length_eq, List.length_cons, hl]
  · show (s.insertNewNode key value level).chain.Pairwise Precedes
    rw [insertNewNode_chain]
    exact List.Pairwise.orderedInsert _ _ hs
  · have hn' := hn (hfree h)
    exact (hperm.map (·.key)).nodup_iff.mpr (List.nodup_cons.mpr ⟨hn'.2, hn'.1⟩)
  · show (index.set key value).get? k = some v ↔
      ∃ n ∈ (s.insertNewNode key value level).chain, n.key = k ∧ n.value = v
    rw [Map.get?_set]
    have hnew : ∀ n ∈ s.chain, n.key ≠ key :=
      fun n hm he => (hn (hfree h)).2 (he ▸ List.mem_map_of_mem hm)
    split
    · next hk =>
        subst hk
        constructor
        · intro hv
          exact ⟨_, mem_insertNewNode.mpr (.inl rfl), rfl, Option.some.inj hv⟩
        · rintro ⟨n, hm, hnk, rfl⟩
          rcases mem_insertNewNode.mp hm with rfl | hm'
          · rfl
          · exact absurd hnk (hnew n hm')
    · next hk =>
        rw [hi (hfree h) k v hk]
        constructor
        · rintro ⟨n, hm, hnk⟩
          exact ⟨n, mem_insertNewNode.mpr (.inr hm), hnk⟩
        · rintro ⟨n, hm, hnk⟩
          rcases mem_insertNewNode.mp hm with rfl | hm'
          · exact absurd hnk.1.symm hk
          · exact ⟨n, hm', hnk⟩

/-- The removal by score either takes one node of the member out of the chain,
one whose score is a number, or changes nothing. -/
theorem removeNodeByScore_cases (s : SkipChain) (key : Bytes) (score : Float64) :
    (∃ pre t post, s.chain = pre ++ t :: post ∧ t.key = key ∧ t.value.isNaN = false ∧
      s.removeNodeByScore key score =
        { s with
          chain := pre ++ post
          length := s.length - 1
          memoryUsage := s.memoryUsage - calculateNodeSize t.levels }) ∨
    (s.removeNodeByScore key score = s ∧ ∀ t post, s.chain.dropWhile (isBefore score key) =
      t :: post → ¬ (t.key = key ∧ t.value.numEq score)) := by
  unfold removeNodeByScore
  split
  · next h => exact .inr ⟨rfl, fun t post h' => by rw [h] at h'; cases h'⟩
  · next t post h =>
      split
      · next ht =>
          refine .inl ⟨_, t, post, ?_, ht.1, ?_, rfl⟩
          · rw [← h, List.takeWhile_append_dropWhile]
          · simp only [Float64.numEq, Bool.and_eq_true, Bool.not_eq_true'] at ht
            exact ht.2.1.1
      · next ht =>
          refine .inr ⟨rfl, fun t' post' h' => ?_⟩
          rw [h] at h'
          cases h'
          exact ht

/-- The removal from the chain does not look at the index, whose row may go
first. -/
theorem removeNodeByScore_index (s : SkipChain) (key : Bytes) (score : Float64) (index : Map Bytes Float64) :
    ({ s with keyIndex := index } : SkipChain).removeNodeByScore key score =
      { s.removeNodeByScore key score with keyIndex := index } := by
  unfold removeNodeByScore
  dsimp only
  split
  · rfl
  · split <;> rfl

theorem removeNodeByScore_keyIndex (s : SkipChain) (key : Bytes) (score : Float64) :
    (s.removeNodeByScore key score).keyIndex = s.keyIndex := by
  unfold removeNodeByScore
  split
  · rfl
  · split <;> rfl

/-- The search for the indexed score of a member finds its node. -/
theorem Sound.dropWhile_isBefore {s : SkipChain} (h : s.Sound) (hf : s.NaNFree) {key : Bytes}
    {score : Float64} (hk : s.keyIndex.get? key = some score) :
    ∃ t post, s.chain.dropWhile (isBefore score key) = t :: post ∧ t.key = key ∧ t.value = score := by
  obtain ⟨n, hm, rfl, rfl⟩ := (h.indexed hf key score).mp hk
  have hsplit := List.takeWhile_append_dropWhile (p := isBefore n.value n.key) (l := s.chain)
  have hself : ¬ isBefore n.value n.key n = true := by
    have hn : compareOf n n = .eq := Std.ReflCmp.compare_self
    show ¬ (compareOf n n == .lt) = true
    rw [hn]
    decide
  cases hd : s.chain.dropWhile (isBefore n.value n.key) with
  | nil =>
      -- the node itself is not before itself, so the search stops at it at the latest
      rw [hd, List.append_nil] at hsplit
      rw [← hsplit] at hm
      exact absurd (List.mem_takeWhile_imp hm) hself
  | cons t post =>
      have ht : ¬ isBefore n.value n.key t = true := by
        have := List.head_dropWhile_not (isBefore n.value n.key) (l := s.chain) (by rw [hd]; simp)
        simpa [hd] using this
      have hmem : n ∈ t :: post := by
        rw [← hsplit, hd] at hm
        rcases List.mem_append.mp hm with hm' | hm'
        · exact absurd (List.mem_takeWhile_imp hm') hself
        · exact hm'
      have htn : t = n := by
        rcases List.mem_cons.mp hmem with rfl | hpost
        · rfl
        · -- both orders hold between `t` and `n`, so they share the member
          have hle : Precedes t n := by
            have hp := h.sorted
            rw [← hsplit, hd] at hp
            exact (List.pairwise_cons.mp (List.pairwise_append.mp hp).2.1).1 n hpost
          have hge : ¬ compareOf t n = .lt := fun hlt => ht (by
            show (compareOf t n == .lt) = true
            rw [hlt]
            rfl)
          have heq : compareOf t n = .eq := by
            unfold Precedes at hle
            cases hc : compareOf t n with
            | lt => exact absurd hc hge
            | eq => rfl
            | gt => rw [hc] at hle; cases hle
          have hnd := h.nodup hf
          rw [← hsplit, hd, List.map_append, List.map_cons] at hnd
          have hnot := (List.nodup_cons.mp (List.nodup_append.mp hnd).2.1).1
          exact absurd (List.mem_map_of_mem (f := fun m => m.key) hpost)
            (key_eq_of_compareOf_eq heq ▸ hnot)
      exact ⟨t, post, rfl, by rw [htn], by rw [htn]⟩

/-- What the removal by the indexed score leaves: the rest of a sorted chain,
and without NaNs a chain from which exactly the member is gone. -/
theorem Sound.removeNodeByScore {s : SkipChain} (h : s.Sound) {key : Bytes} {score : Float64}
    (hk : s.keyIndex.get? key = some score) {s' : SkipChain}
    (hs' : s.removeNodeByScore key score = s') :
    s'.keyIndex = s.keyIndex ∧ s'.length = s'.chain.length ∧ s'.chain.Pairwise Precedes ∧
      (s'.NaNFree → (s'.chain.map (·.key)).Nodup ∧ key ∉ s'.chain.map (·.key)) ∧
      (s'.NaNFree → ∀ k v, k ≠ key →
        (s.keyIndex.get? k = some v ↔ ∃ n ∈ s'.chain, n.key = k ∧ n.value = v)) := by
  subst hs'
  rcases removeNodeByScore_cases s key score with ⟨pre, t, post, hc, htk, htn, hr⟩ | ⟨hr, hno⟩
  · rw [hr]
    have hsub : (pre ++ post).Sublist s.chain := by
      rw [hc]
      exact (List.sublist_cons_self t post).append_left pre
    -- the node taken out is not a NaN, so the chain had none to begin with
    have hfree : (∀ n ∈ pre ++ post, n.value.isNaN = false) → s.NaNFree := by
      intro hf n hn
      rw [hc] at hn
      rcases List.mem_append.mp hn with hn | hn
      · exact hf n (List.mem_append_left _ hn)
      · rcases List.mem_cons.mp hn with rfl | hn
        · exact htn
        · exact hf n (List.mem_append_right _ hn)
    refine ⟨rfl, ?_, h.sorted.sublist hsub, fun hf => ?_, fun hf k v hne => ?_⟩
    · show s.length - 1 = (pre ++ post).length
      rw [h.length_eq, hc]
      simp only [List.length_append, List.length_cons]
      omega
    · have hnd := h.nodup (hfree hf)
      refine ⟨hnd.sublist (hsub.map _), ?_⟩
      rw [hc, List.map_append, List.map_cons] at hnd
      have hnot := (List.nodup_cons.mp (List.nodup_middle.mp hnd)).1
      rwa [htk, ← List.map_append] at hnot
    · rw [h.indexed (hfree hf)]
      constructor
      · rintro ⟨n, hn, hnk, hnv⟩
        refine ⟨n, ?_, hnk, hnv⟩
        rw [hc] at hn
        rcases List.mem_append.mp hn with hn | hn
        · exact List.mem_append_left _ hn
        · rcases List.mem_cons.mp hn with rfl | hn
          · exact absurd (hnk.symm.trans htk) hne
          · exact List.mem_append_right _ hn
      · rintro ⟨n, hn, hnk, hnv⟩
        exact ⟨n, hsub.subset hn, hnk, hnv⟩
  · rw [hr]
    -- without NaNs the search cannot have missed the node
    have hnan : ¬ s.NaNFree := by
      intro hf
      obtain ⟨t, post, hd, htk, htv⟩ := h.dropWhile_isBefore hf hk
      refine hno t post hd ⟨htk, ?_⟩
      have htm : t ∈ s.chain := (List.dropWhile_suffix _).subset (hd ▸ List.mem_cons_self)
      rw [← htv, Float64.numEq, hf t htm]
      simp
    exact ⟨rfl, h.length_eq, h.sorted, fun hf => absurd hf hnan, fun hf => absurd hf hnan⟩

theorem Sound.insert {s : SkipChain} (h : s.Sound) (key : Bytes) (value : Float64) (level : Nat) :
    (s.insert key value level).2.Sound := by
  unfold SkipChain.insert
  cases hk : s.keyIndex.get? key with
  | none =>
      refine Sound.insertNewNode level h.length_eq h.sorted (fun hf => ⟨h.nodup hf, ?_⟩)
        fun hf k v _ => h.indexed hf k v
      intro hm
      obtain ⟨n, hn, hnk⟩ := List.mem_map.mp hm
      have := (h.indexed hf key n.value).mpr ⟨n, hn, hnk, rfl⟩
      rw [hk] at this
      cases this
  | some old =>
      obtain ⟨hi, hl, hs, hn, hx⟩ := h.removeNodeByScore hk rfl
      refine Sound.insertNewNode level hl hs hn fun hf k v hne => ?_
      rw [hi]
      exact hx hf k v hne

theorem Sound.remove {s : SkipChain} (h : s.Sound) (key : Bytes) : (s.remove key).2.Sound := by
  unfold SkipChain.remove
  cases hk : s.keyIndex.get? key with
  | none => exact h
  | some score =>
      obtain ⟨hi, hl, hs, hn, hx⟩ := h.removeNodeByScore hk rfl
      dsimp only
      rw [removeNodeByScore_index]
      refine ⟨hl, hs, fun hf => (hn hf).1, fun hf k v => ?_⟩
      show (s.keyIndex.del key).get? k = some v ↔ _
      rw [Map.get?_del]
      split
      · next hkk =>
          subst hkk
          refine ⟨by rintro ⟨⟩, ?_⟩
          rintro ⟨n, hm, hnk, -⟩
          exact absurd (List.mem_map.mpr ⟨n, hm, hnk⟩) (hn hf).2
      · next hne => exact hx hf k v hne

end SkipChain

/-! ## Sorted sets -/

/-- A sorted set (`SkipList<Vec<u8>, f64>`): chain and index agree. -/
def SkipList := { s : SkipChain // s.Sound }

instance : DecidableEq SkipList := inferInstanceAs (DecidableEq { s : SkipChain // s.Sound })

namespace SkipList

export SkipChain (maxLevel compareBytes)

@[inherit_doc SkipChain.new]
def new : SkipList := ⟨SkipChain.new, .new⟩

@[inherit_doc SkipChain.insert]
def insert (s : SkipList) (key : Bytes) (value : Float64) (level : Nat) :
    Option Float64 × SkipList :=
  ((s.1.insert key value level).1, ⟨(s.1.insert key value level).2, s.2.insert key value level⟩)

@[inherit_doc SkipChain.remove]
def remove (s : SkipList) (key : Bytes) : Option Float64 × SkipList :=
  ((s.1.remove key).1, ⟨(s.1.remove key).2, s.2.remove key⟩)

def memoryUsage (s : SkipList) : Nat := s.1.memoryUsage

@[inherit_doc SkipChain.getScore]
def getScore (s : SkipList) : Bytes → Option Float64 := s.1.getScore

@[inherit_doc SkipChain.getRank]
def getRank (s : SkipList) : Bytes → Option Nat := s.1.getRank

@[inherit_doc SkipChain.items]
def items (s : SkipList) : List (Bytes × Float64) := s.1.items

@[inherit_doc SkipChain.rangeByRank]
def rangeByRank (s : SkipList) : Nat → Nat → List (Bytes × Float64) := s.1.rangeByRank

@[inherit_doc SkipChain.rangeByScore]
def rangeByScore (s : SkipList) : Float64 → Float64 → List (Bytes × Float64) := s.1.rangeByScore

@[inherit_doc SkipChain.len]
def len (s : SkipList) : Nat := s.1.len

@[inherit_doc SkipChain.isEmpty]
def isEmpty (s : SkipList) : Bool := s.1.isEmpty

theorem length_items (s : SkipList) : s.items.length = s.len := by
  show (s.1.chain.map _).length = s.1.length
  rw [List.length_map, s.2.length_eq]

end SkipList

end Ferrous
