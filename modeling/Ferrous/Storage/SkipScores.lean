/-
# `Storage.SkipScores` — sorted sets with NaN scores among them

Only `new`, `insert` and `remove` build a sorted set.  A NaN is never found
again by the search, so its node stays for good, but the nodes with numbers are
still the ones the index speaks of (`Exact`).  Two sets with the same NaN nodes
and the same scores therefore list the same members.
-/
import Ferrous.Storage.SkipList

namespace Ferrous

open Lib

namespace SkipChain

/-- The nodes whose score is a number. -/
def numbers (s : SkipChain) : List SkipNode := s.chain.filter fun n => !n.value.isNaN

/-- The nodes whose score is a NaN. -/
def nans (s : SkipChain) : List SkipNode := s.chain.filter fun n => n.value.isNaN

theorem mem_numbers {s : SkipChain} {n : SkipNode} :
    n ∈ s.numbers ↔ n ∈ s.chain ∧ n.value.isNaN = false := by
  simp [numbers]

/-- The nodes with numbers have distinct members, and the index holds exactly
their scores. -/
structure Exact (s : SkipChain) : Prop where
  nodup : (s.numbers.map (·.key)).Nodup
  indexed : ∀ k v, v.isNaN = false →
    (s.keyIndex.get? k = some v ↔ ∃ n ∈ s.chain, n.key = k ∧ n.value = v)

theorem Exact.new : SkipChain.new.Exact where
  nodup := List.nodup_nil
  indexed := fun _ v _ => by simp [SkipChain.new]

/-- A node with a number that its member indexes is the one the search finds. -/
theorem Exact.dropWhile_isBefore {s : SkipChain} (h : s.Exact) (hs : s.Sound) {n : SkipNode}
    (hm : n ∈ s.chain) (hn : n.value.isNaN = false) :
    ∃ post, s.chain.dropWhile (isBefore n.value n.key) = n :: post := by
  have hsplit := List.takeWhile_append_dropWhile (p := isBefore n.value n.key) (l := s.chain)
  have hself : ¬ isBefore n.value n.key n = true := by
    have hnn : compareOf n n = .eq := Std.ReflCmp.compare_self
    show ¬ (compareOf n n == .lt) = true
    rw [hnn]
    decide
  cases hd : s.chain.dropWhile (isBefore n.value n.key) with
  | nil =>
      rw [hd, List.append_nil] at hsplit
      rw [← hsplit] at hm
      exact absurd (List.mem_takeWhile_imp hm) hself
  | cons t post =>
      have ht : ¬ isBefore n.value n.key t = true := by
        have := List.head_dropWhile_not (isBefore n.value n.key) (l := s.chain) (by rw [hd]; simp)
        simpa [hd] using this
      have hmem : n ∈ t :: post := by
        rw [← hsplit, hd] at hm
        rcases List.mem_append.mp hm with hm' | hm'
        · exact absurd (List.mem_takeWhile_imp hm') hself
        · exact hm'
      rcases List.mem_cons.mp hmem with rfl | hpost
      · exact ⟨post, rfl⟩
      · -- both orders hold between `t` and `n`, so `t` has the member and a number too
        exfalso
        have hle : Precedes t n := by
          have hp := hs.sorted
          rw [← hsplit, hd] at hp
          exact (List.pairwise_cons.mp (List.pairwise_append.mp hp).2.1).1 n hpost
        have heq : compareOf t n = .eq := by
          unfold Precedes at hle
          cases hc : compareOf t n with
          | lt =>
              refine absurd ?_ ht
              show (compareOf t n == .lt) = true
              rw [hc]
              rfl
          | eq => rfl
          | gt => rw [hc] at hle; cases hle
        have hkey := key_eq_of_compareOf_eq heq
        have htn : t.value.isNaN = false := by
          rw [compareOf, compareNodes_eq, Ordering.then_eq_eq] at heq
          have hgrade : grade t.value = grade n.value := Std.LawfulEqCmp.eq_of_compare heq.1
          cases hx : t.value.isNaN with
          | false => rfl
          | true =>
              have hlt := rank_lt n.value
              rw [grade, grade, if_pos hx, hn] at hgrade
              simp only [Bool.false_eq_true, if_false] at hgrade
              omega
        have hnd := h.nodup
        rw [numbers, ← hsplit, hd, List.filter_append, List.filter_cons_of_pos (by simp [htn]),
          List.map_append, List.map_cons] at hnd
        have hnot := (List.nodup_cons.mp (List.nodup_append.mp hnd).2.1).1
        exact hnot (hkey ▸ List.mem_map_of_mem (List.mem_filter.mpr ⟨hpost, by simp [hn]⟩))

/-- The removal by the indexed score takes the member's number out, if it has
one, and leaves every NaN. -/
theorem Exact.removeNodeByScore {s : SkipChain} (h : s.Exact) (hs : s.Sound) {key : Bytes}
    {score : Float64} (hk : s.keyIndex.get? key = some score) {s' : SkipChain}
    (hs' : s.removeNodeByScore key score = s') :
    s'.keyIndex = s.keyIndex ∧ s'.nans = s.nans ∧ (s'.numbers.map (·.key)).Nodup ∧
      (∀ n ∈ s'.numbers, n.key ≠ key) ∧
      ∀ n, n.key ≠ key → (n ∈ s'.chain ↔ n ∈ s.chain) := by
  subst hs'
  rcases removeNodeByScore_cases s key score with ⟨pre, t, post, hc, htk, htn, hr⟩ | ⟨hr, hno⟩
  · rw [hr]
    have hnums : s.numbers = (pre.filter fun n => !n.value.isNaN) ++
        t :: post.filter fun n => !n.value.isNaN := by
      rw [numbers, hc, List.filter_append, List.filter_cons_of_pos (by simp [htn])]
    have hnd := h.nodup
    rw [hnums, List.map_append, List.map_cons, List.nodup_middle, List.nodup_cons,
      ← List.map_append, ← List.filter_append] at hnd
    refine ⟨rfl, ?_, hnd.2, fun n hn hkey => ?_, fun n hne => ?_⟩
    · rw [nans, nans, hc, List.filter_append, List.filter_append,
        List.filter_cons_of_neg (by simp [htn])]
    · exact hnd.1 (htk ▸ hkey ▸ List.mem_map_of_mem hn)
    · rw [hc, List.mem_append, List.mem_append, List.mem_cons]
      have hnt : n ≠ t := fun e => hne (e ▸ htk)
      simp [hnt]
  · rw [hr]
    refine ⟨rfl, rfl, h.nodup, fun n hn hkey => ?_, fun _ _ => Iff.rfl⟩
    -- a number of the member is indexed, and the search would have found its node
    obtain ⟨hmem, hnum⟩ := mem_numbers.mp hn
    have hidx := (h.indexed key n.value hnum).mpr ⟨n, hmem, hkey, rfl⟩
    rw [hk] at hidx
    obtain rfl := Option.some.inj hidx
    obtain ⟨post, hd⟩ := h.dropWhile_isBefore hs hmem hnum
    rw [hkey] at hd
    refine hno n post hd ⟨hkey, ?_⟩
    rw [Float64.numEq, hnum]
    simp

/-- A node put into a chain that has no number of its member. -/
theorem Exact.insertNewNode {s : SkipChain} {key : Bytes} {value : Float64} (level : Nat)
    {index : Map Bytes Float64} (hnd : (s.numbers.map (·.key)).Nodup)
    (hnew : ∀ n ∈ s.numbers, n.key ≠ key)
    (hi : ∀ k v, v.isNaN = false → k ≠ key →
      (index.get? k = some v ↔ ∃ n ∈ s.chain, n.key = k ∧ n.value = v)) :
    ({ s with keyIndex := index.set key value }.insertNewNode key value level).Exact := by
  have hmem (n : SkipNode) : n ∈ (s.insertNewNode key value level).chain ↔
      n = ⟨key, value, level + 1⟩ ∨ n ∈ s.chain := mem_insertNewNode
  refine ⟨?_, fun k v hv => ?_⟩
  · have hperm : ({ s with keyIndex := index.set key value }.insertNewNode key value level).numbers.Perm
        (((⟨key, value, level + 1⟩ : SkipNode) :: s.chain).filter fun n => !n.value.isNaN) := by
      have hp : (s.insertNewNode key value level).chain.Perm (⟨key, value, level + 1⟩ :: s.chain) := by
        rw [insertNewNode_chain]
        exact List.perm_orderedInsert _ _ _
      exact hp.filter _
    refine (hperm.map fun n => n.key).nodup_iff.mpr ?_
    rw [List.filter_cons]
    split
    · refine List.nodup_cons.mpr ⟨fun hin => ?_, hnd⟩
      obtain ⟨n, hn, hkey⟩ := List.mem_map.mp hin
      exact hnew n hn hkey
    · exact hnd
  · show (index.set key value).get? k = some v ↔
      ∃ n ∈ (s.insertNewNode key value level).chain, n.key = k ∧ n.value = v
    rw [Map.get?_set]
    split
    · next hk =>
        subst hk
        constructor
        · intro h
          exact ⟨_, (hmem _).mpr (.inl rfl), rfl, Option.some.inj h⟩
        · rintro ⟨n, hn, hnk, rfl⟩
          rcases (hmem n).mp hn with rfl | hn'
          · rfl
          · exact absurd hnk (hnew n (mem_numbers.mpr ⟨hn', hv⟩))
    · next hk =>
        rw [hi k v hv hk]
        constructor
        · rintro ⟨n, hn, hnk⟩
          exact ⟨n, (hmem n).mpr (.inr hn), hnk⟩
        · rintro ⟨n, hn, hnk⟩
          rcases (hmem n).mp hn with rfl | hn'
          · exact absurd hnk.1.symm hk
          · exact ⟨n, hn', hnk⟩

theorem Exact.insert {s : SkipChain} (h : s.Exact) (hs : s.Sound) (key : Bytes) (value : Float64)
    (level : Nat) : (s.insert key value level).2.Exact := by
  unfold SkipChain.insert
  cases hk : s.keyIndex.get? key with
  | none =>
      refine Exact.insertNewNode level h.nodup (fun n hn hkey => ?_) fun k v hv _ => h.indexed k v hv
      obtain ⟨hmem, hnum⟩ := mem_numbers.mp hn
      have hidx := (h.indexed key n.value hnum).mpr ⟨n, hmem, hkey, rfl⟩
      rw [hk] at hidx
      cases hidx
  | some old =>
      obtain ⟨hi, -, hnd, hnew, hin⟩ := h.removeNodeByScore hs hk rfl
      refine Exact.insertNewNode level hnd hnew fun k v hv hne => ?_
      rw [hi, h.indexed k v hv]
      constructor
      · rintro ⟨n, hn, rfl, hnv⟩
        exact ⟨n, (hin n hne).mpr hn, rfl, hnv⟩
      · rintro ⟨n, hn, rfl, hnv⟩
        exact ⟨n, (hin n hne).mp hn, rfl, hnv⟩

theorem Exact.remove {s : SkipChain} (h : s.Exact) (hs : s.Sound) (key : Bytes) :
    (s.remove key).2.Exact := by
  unfold SkipChain.remove
  cases hk : s.keyIndex.get? key with
  | none => exact h
  | some score =>
      obtain ⟨hi, -, hnd, hnew, hin⟩ := h.removeNodeByScore hs hk rfl
      dsimp only
      rw [removeNodeByScore_index]
      refine ⟨hnd, fun k v hv => ?_⟩
      show (s.keyIndex.del key).get? k = some v ↔ _
      rw [Map.get?_del]
      split
      · next hkk =>
          subst hkk
          refine ⟨by rintro ⟨⟩, ?_⟩
          rintro ⟨n, hm, hnk, rfl⟩
          exact absurd hnk (hnew n (mem_numbers.mpr ⟨hm, hv⟩))
      · next hne =>
          rw [h.indexed k v hv]
          constructor
          · rintro ⟨n, hn, rfl, hnv⟩
            exact ⟨n, (hin n hne).mpr hn, rfl, hnv⟩
          · rintro ⟨n, hn, rfl, hnv⟩
            exact ⟨n, (hin n hne).mp hn, rfl, hnv⟩

/-! ## What an insertion does -/

theorem insert_keyIndex (s : SkipChain) (key : Bytes) (value : Float64) (level : Nat) (m : Bytes) :
    (s.insert key value level).2.keyIndex.get? m =
      if m = key then some value else s.keyIndex.get? m := by
  unfold SkipChain.insert
  split
  · simp only [SkipChain.insertNewNode, removeNodeByScore_keyIndex, Map.get?_set]
  · simp only [SkipChain.insertNewNode, Map.get?_set]

/-- The NaN nodes stay, and a NaN adds one. -/
theorem Exact.insert_nans {s : SkipChain} (h : s.Exact) (hs : s.Sound) (key : Bytes)
    (value : Float64) (level : Nat) :
    (value.isNaN = false → (s.insert key value level).2.nans = s.nans) ∧
      (value.isNaN = true → (s.insert key value level).2.nans.length = s.nans.length + 1) := by
  have hput (t : SkipChain) : (value.isNaN = false → (t.insertNewNode key value level).nans = t.nans) ∧
      (value.isNaN = true → (t.insertNewNode key value level).nans.length = t.nans.length + 1) := by
    have hsplit := List.takeWhile_append_dropWhile (p := isBefore value key) (l := t.chain)
    have hnans : t.nans = (t.chain.takeWhile (isBefore value key)).filter (fun n => n.value.isNaN) ++
        (t.chain.dropWhile (isBefore value key)).filter fun n => n.value.isNaN := by
      rw [← List.filter_append, hsplit, nans]
    rw [hnans]
    simp only [SkipChain.insertNewNode, nans, List.filter_append]
    constructor
    · intro hv
      rw [List.filter_cons_of_neg (by simp [hv])]
    · intro hv
      rw [List.filter_cons_of_pos (by simp [hv])]
      simp only [List.length_append, List.length_cons]
      omega
  unfold SkipChain.insert
  cases hk : s.keyIndex.get? key with
  | none => exact hput { s with keyIndex := s.keyIndex.set key value }
  | some old =>
      obtain ⟨-, hn, -⟩ := h.removeNodeByScore hs hk rfl
      have hp := hput { s.removeNodeByScore key old with
        keyIndex := (s.removeNodeByScore key old).keyIndex.set key value }
      rw [show SkipChain.nans { s.removeNodeByScore key old with
        keyIndex := (s.removeNodeByScore key old).keyIndex.set key value } = s.nans from hn] at hp
      exact hp

/-! ## Sets with the same scores -/

/-- The numbers come first, the NaNs last. -/
theorem chain_eq {l : List SkipNode} (h : l.Pairwise Precedes) :
    l = (l.filter fun n => !n.value.isNaN) ++ l.filter fun n => n.value.isNaN := by
  induction l with
  | nil => rfl
  | cons a l ih =>
      obtain ⟨ha, hl⟩ := List.pairwise_cons.mp h
      cases hn : a.value.isNaN with
      | false =>
          rw [List.filter_cons_of_pos (by simp [hn]), List.filter_cons_of_neg (by simp [hn]),
            List.cons_append, ← ih hl]
      | true =>
          -- nothing but NaNs comes after a NaN
          have hall : ∀ b ∈ l, b.value.isNaN = true := by
            intro b hb
            cases hbn : b.value.isNaN with
            | true => rfl
            | false =>
                have hle := ha b hb
                have hlt := rank_lt b.value
                rw [Precedes, compareOf, compareNodes_eq, grade, grade, if_pos hn, hbn] at hle
                simp only [Bool.false_eq_true, if_false] at hle
                rw [show compare (2 ^ 63 : Int) b.value.rank = .gt from
                  Int.compare_eq_gt.mpr hlt] at hle
                cases hle
          rw [List.filter_eq_nil_iff.mpr fun b hb => ?_, List.filter_eq_self.mpr fun b hb => ?_]
          · rfl
          · rcases List.mem_cons.mp hb with rfl | hb
            · exact hn
            · exact hall b hb
          · rcases List.mem_cons.mp hb with rfl | hb
            · simp [hn]
            · simp [hall b hb]

/-- Same NaN nodes and same scores: the same members in the same order. -/
theorem items_eq_of_scores {a b : SkipChain} (ha : a.Exact) (hb : b.Exact) (hsa : a.Sound)
    (hsb : b.Sound) (hn : a.nans = b.nans) (hk : ∀ m, a.keyIndex.get? m = b.keyIndex.get? m) :
    a.items = b.items := by
  let pair : SkipNode → Bytes × Float64 := fun n => (n.key, n.value)
  have hmem (s : SkipChain) (hs : s.Exact) (p : Bytes × Float64) :
      p ∈ s.numbers.map pair ↔ p.2.isNaN = false ∧ s.keyIndex.get? p.1 = some p.2 := by
    constructor
    · intro h
      obtain ⟨n, hn, rfl⟩ := List.mem_map.mp h
      obtain ⟨hc, hv⟩ := mem_numbers.mp hn
      exact ⟨hv, (hs.indexed _ _ hv).mpr ⟨n, hc, rfl, rfl⟩⟩
    · rintro ⟨hv, h⟩
      obtain ⟨n, hc, hnk, hnv⟩ := (hs.indexed _ _ hv).mp h
      exact List.mem_map.mpr ⟨n, mem_numbers.mpr ⟨hc, hnv ▸ hv⟩, Prod.ext hnk hnv⟩
  have hnodup (s : SkipChain) (hs : s.Exact) : (s.numbers.map pair).Nodup := by
    have h := hs.nodup
    rw [show (s.numbers.map fun n => n.key) = (s.numbers.map pair).map Prod.fst by
      rw [List.map_map]; rfl] at h
    exact h.of_map _
  have hperm : (a.numbers.map pair).Perm (b.numbers.map pair) :=
    (List.perm_ext_iff_of_nodup (hnodup a ha) (hnodup b hb)).mpr fun p => by
      rw [hmem a ha, hmem b hb, hk]
  have hsorted (s : SkipChain) (hs : s.Sound) : (s.numbers.map pair).Pairwise fun p q =>
      (compareNodes p.2 p.1 q.2 q.1).isLE := by
    rw [List.pairwise_map]
    exact hs.sorted.sublist List.filter_sublist
  have heq : a.numbers.map pair = b.numbers.map pair := by
    refine hperm.eq_of_pairwise (fun p q hp hq hpq hqp => ?_) (hsorted a hsa) (hsorted b hsb)
    -- two entries that are in each other's place have one member, so one score
    have hkey : p.1 = q.1 := by
      let np : SkipNode := ⟨p.1, p.2, 0⟩
      let nq : SkipNode := ⟨q.1, q.2, 0⟩
      have hle : (compareOf np nq).isLE := hpq
      have hge : (compareOf nq np).isLE := hqp
      rw [compareOf_swap] at hge
      have heq : compareOf np nq = .eq := by
        cases hc : compareOf np nq with
        | lt => rw [hc] at hge; cases hge
        | eq => rfl
        | gt => rw [hc] at hle; cases hle
      exact key_eq_of_compareOf_eq heq
    have hp' := ((hmem a ha p).mp hp).2
    have hq' := ((hmem b hb q).mp hq).2
    rw [hk, hkey, hq'] at hp'
    exact Prod.ext hkey (Option.some.inj hp').symm
  have hitems (s : SkipChain) (hs : s.Sound) :
      s.items = s.numbers.map pair ++ s.nans.map pair := by
    rw [items, ← List.map_append]
    exact congrArg _ (chain_eq hs.sorted)
  rw [hitems a hsa, hitems b hsb, heq, hn]

end SkipChain

namespace SkipList

/-- The sets that `new`, `insert` and `remove` build. -/
inductive Built : SkipList → Prop
  | new : Built SkipList.new
  | insert {z : SkipList} (key : Bytes) (value : Float64) (level : Nat) :
      Built z → Built (z.insert key value level).2
  | remove {z : SkipList} (key : Bytes) : Built z → Built (z.remove key).2

theorem Built.exact {z : SkipList} (h : z.Built) : z.1.Exact := by
  induction h with
  | new => exact .new
  | insert key value level _ ih => exact ih.insert (Subtype.property _) key value level
  | remove key _ ih => exact ih.remove (Subtype.property _) key

/-- The set after some members were given scores, one after the other. -/
inductive Scored : SkipList → List (Bytes × Float64) → SkipList → Prop
  | nil (z : SkipList) : Scored z [] z
  | cons {z z' : SkipList} {m : Bytes} {s : Float64} {ps : List (Bytes × Float64)} (level : Nat) :
      Scored (z.insert m s level).2 ps z' → Scored z ((m, s) :: ps) z'

/-- The last value a list of pairs gives a key. -/
def lastFor {V : Type} (pairs : List (Bytes × V)) (key : Bytes) : Option V :=
  pairs.reverse.lookup key

theorem lastFor_cons {V : Type} (k : Bytes) (v : V) (ps : List (Bytes × V)) (key : Bytes) :
    lastFor ((k, v) :: ps) key = (lastFor ps key).or (if key = k then some v else none) := by
  rw [lastFor, List.reverse_cons, List.lookup_append, lastFor]
  congr 1
  by_cases h : key = k
  · rw [if_pos h, h, List.lookup_cons_self]
  · rw [if_neg h, List.lookup_cons, beq_eq_false_iff_ne.mpr h]
    rfl

namespace Scored

variable {z z' : SkipList} {ps : List (Bytes × Float64)}

theorem built (h : Scored z ps z') (hz : z.Built) : z'.Built := by
  induction h with
  | nil z => exact hz
  | cons level _ ih => exact ih (hz.insert _ _ level)

theorem getScore (h : Scored z ps z') (m : Bytes) :
    z'.getScore m = (lastFor ps m).or (z.getScore m) := by
  induction h with
  | nil z => rfl
  | cons level _ ih =>
      rw [ih, lastFor_cons, Option.or_assoc]
      congr 1
      show (SkipChain.insert _ _ _ _).2.keyIndex.get? m = _
      rw [SkipChain.insert_keyIndex]
      split <;> rfl

/-- Numbers leave the NaN nodes alone. -/
theorem nans_eq (h : Scored z ps z') (hz : z.Built) (hps : ∀ p ∈ ps, p.2.isNaN = false) :
    z'.1.nans = z.1.nans := by
  induction h with
  | nil z => rfl
  | @cons z z' m s ps level _ ih =>
      rw [ih (hz.insert m s level) fun p hp => hps p (List.mem_cons_of_mem _ hp)]
      exact (hz.exact.insert_nans z.2 m s level).1 (hps (m, s) List.mem_cons_self)

theorem nans_le (h : Scored z ps z') (hz : z.Built) : z.1.nans.length ≤ z'.1.nans.length := by
  induction h with
  | nil z => exact le_rfl
  | @cons z z' m s ps level _ ih =>
      refine le_trans ?_ (ih (hz.insert m s level))
      obtain ⟨hnum, hnan⟩ := hz.exact.insert_nans z.2 m s level
      show _ ≤ (z.1.insert m s level).2.nans.length
      cases hs : s.isNaN with
      | false => rw [hnum hs]
      | true => rw [hnan hs]; exact Nat.le_succ _

/-- A NaN leaves a node for good. -/
theorem nans_lt (h : Scored z ps z') (hz : z.Built) {p : Bytes × Float64} (hp : p ∈ ps)
    (hn : p.2.isNaN = true) : z.1.nans.length < z'.1.nans.length := by
  induction h with
  | nil z => cases hp
  | @cons z z' m s ps level hrest ih =>
      obtain ⟨hnum, hnan⟩ := hz.exact.insert_nans z.2 m s level
      rcases List.mem_cons.mp hp with rfl | hp
      · refine lt_of_lt_of_le ?_ (hrest.nans_le (hz.insert m s level))
        show _ < (z.1.insert m s level).2.nans.length
        rw [hnan hn]
        exact Nat.lt_succ_self _
      · refine lt_of_le_of_lt ?_ (ih (hz.insert m s level) hp)
        show _ ≤ (z.1.insert m s level).2.nans.length
        cases hs : s.isNaN with
        | false => rw [hnum hs]
        | true => rw [hnan hs]; exact Nat.le_succ _

theorem length_nans (z : SkipList) :
    z.1.nans.length = (z.items.filter fun p => p.2.isNaN).length := by
  show _ = ((z.1.chain.map fun n => (n.key, n.value)).filter fun p => p.2.isNaN).length
  rw [List.filter_map, List.length_map]
  rfl

/-- Giving scores changes nothing exactly if they are numbers and the last one
for each member is the score it has. -/
theorem same_iff (h : Scored z ps z') (hz : z.Built) :
    (z.items = z'.items ∧ ∀ m, z.getScore m = z'.getScore m) ↔
      (∀ p ∈ ps, p.2.isNaN = false) ∧ ∀ m s, lastFor ps m = some s → z.getScore m = some s := by
  constructor
  · rintro ⟨hi, hs⟩
    refine ⟨fun p hp => ?_, fun m s hm => ?_⟩
    · cases hn : p.2.isNaN with
      | false => rfl
      | true =>
          have hlt := h.nans_lt hz hp hn
          rw [length_nans, length_nans, hi] at hlt
          exact absurd hlt (lt_irrefl _)
    · rw [hs, h.getScore, hm]
      rfl
  · rintro ⟨hps, hlast⟩
    have hs : ∀ m, z.getScore m = z'.getScore m := by
      intro m
      rw [h.getScore]
      cases hm : lastFor ps m with
      | none => rfl
      | some s => exact hlast m s hm
    exact ⟨SkipChain.items_eq_of_scores hz.exact (h.built hz).exact z.2 z'.2 (h.nans_eq hz hps).symm hs,
      hs⟩

end Scored

end SkipList

end Ferrous
