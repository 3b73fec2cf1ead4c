/-
# `Storage.SkipAgreement` — chain and member index of a sorted set in step

`Agrees` says that the chain holds one node for each member of the index, with
its score, and nothing else.  Numbers and NaNs are put in alike, and a node with
a number is taken out again.  A node with a NaN is not: its removal compares the
scores with `==`.  So an insertion or a removal keeps `Agrees` exactly if the
score its member had is not a NaN.
-/
import Ferrous.Storage.SkipScores

namespace Ferrous

open Lib

namespace SkipChain

/-- The members of the chain are those of the index, each once and with its
score, and the length counts them. -/
structure Agrees (s : SkipChain) : Prop where
  nodup : (s.chain.map (·.key)).Nodup
  indexed : ∀ k v, s.keyIndex.get? k = some v ↔ ∃ n ∈ s.chain, n.key = k ∧ n.value = v
  counted : s.len = s.keyIndex.size

/-- The score a member has, if any, is a number. -/
def Refinds (s : SkipChain) (key : Bytes) : Prop :=
  ∀ old, s.keyIndex.get? key = some old → old.isNaN = false

variable {s : SkipChain} {key : Bytes}

/-- The length needs no proof of its own. -/
theorem Agrees.of_nodes (hs : s.Sound) (hnd : (s.chain.map (·.key)).Nodup)
    (hi : ∀ k v, s.keyIndex.get? k = some v ↔ ∃ n ∈ s.chain, n.key = k ∧ n.value = v) : s.Agrees where
  nodup := hnd
  indexed := hi
  counted := by
    have hperm : (s.chain.map (·.key)).Perm s.keyIndex.keyList := by
      refine (List.perm_ext_iff_of_nodup hnd s.keyIndex.nodup_keyList).mpr fun k => ?_
      rw [Map.mem_keyList, List.mem_map]
      constructor
      · rintro ⟨n, hn, rfl⟩
        exact ⟨n.value, (hi _ _).mpr ⟨n, hn, rfl, rfl⟩⟩
      · rintro ⟨v, hv⟩
        obtain ⟨n, hn, hk, -⟩ := (hi k v).mp hv
        exact ⟨n, hn, hk⟩
    have hlen := hperm.length_eq
    rw [List.length_map, Map.keyList, List.length_map] at hlen
    exact hs.length_eq.trans hlen

theorem Agrees.new : SkipChain.new.Agrees :=
  .of_nodes .new List.nodup_nil fun k v => by simp [SkipChain.new]

/-- What agrees does so in particular on the numbers. -/
theorem Agrees.exact (h : s.Agrees) : s.Exact where
  nodup := h.nodup.sublist (List.filter_sublist.map _)
  indexed := fun k v _ => h.indexed k v

/-- The node of a member whose score is a number goes, and no other. -/
theorem Agrees.removeNodeByScore (h : s.Agrees) (hs : s.Sound) {score : Float64}
    (hk : s.keyIndex.get? key = some score) (hnum : score.isNaN = false) :
    ((s.removeNodeByScore key score).chain.map (·.key)).Nodup ∧
      ∀ n, n ∈ (s.removeNodeByScore key score).chain ↔ n ∈ s.chain ∧ n.key ≠ key := by
  rcases removeNodeByScore_cases s key score with ⟨pre, t, post, hc, htk, -, hr⟩ | ⟨-, hno⟩
  · rw [hr]
    have hnd := h.nodup
    rw [hc, List.map_append, List.map_cons, List.nodup_middle, List.nodup_cons, ← List.map_append] at hnd
    refine ⟨hnd.2, fun n => ?_⟩
    rw [hc, List.mem_append, List.mem_append, List.mem_cons]
    constructor
    · intro hn
      refine ⟨hn.imp_right .inr, fun hkey => hnd.1 ?_⟩
      exact htk ▸ hkey ▸ List.mem_map_of_mem (List.mem_append.mpr hn)
    · rintro ⟨hpre | rfl | hpost, hne⟩
      · exact .inl hpre
      · exact absurd htk hne
      · exact .inr hpost
  · -- the search for a number finds its node
    obtain ⟨n, hn, hnk, hnv⟩ := (h.indexed key score).mp hk
    subst hnk hnv
    obtain ⟨post, hd⟩ := h.exact.dropWhile_isBefore hs hn hnum
    refine absurd ⟨rfl, ?_⟩ (hno n post hd)
    rw [Float64.numEq, hnum]
    simp

/-- A NaN is not found, so nothing is taken out. -/
theorem removeNodeByScore_nan {score : Float64} (hnan : score.isNaN = true) :
    s.removeNodeByScore key score = s := by
  have hne (v : Float64) : v.numEq score = false := by simp [Float64.numEq, hnan]
  unfold SkipChain.removeNodeByScore
  split
  · rfl
  · simp [hne]

/-- A node put into a chain without its member, under a new row of the index. -/
theorem agrees_insertNewNode {value : Float64} {level : Nat} {index : Map Bytes Float64}
    (hs : ({ s with keyIndex := index.set key value }.insertNewNode key value level).Sound)
    (hnd : (s.chain.map (·.key)).Nodup) (hnew : ∀ n ∈ s.chain, n.key ≠ key)
    (hi : ∀ k v, k ≠ key → (index.get? k = some v ↔ ∃ n ∈ s.chain, n.key = k ∧ n.value = v)) :
    ({ s with keyIndex := index.set key value }.insertNewNode key value level).Agrees := by
  have hmem (n : SkipNode) : n ∈ (s.insertNewNode key value level).chain ↔
      n = ⟨key, value, level + 1⟩ ∨ n ∈ s.chain := mem_insertNewNode
  refine .of_nodes hs ?_ fun k v => ?_
  · have hperm : (s.insertNewNode key value level).chain.Perm (⟨key, value, level + 1⟩ :: s.chain) := by
      rw [insertNewNode_chain]
      exact List.perm_orderedInsert _ _ _
    refine (hperm.map (·.key)).nodup_iff.mpr (List.nodup_cons.mpr ⟨fun hin => ?_, hnd⟩)
    obtain ⟨n, hn, hkey⟩ := List.mem_map.mp hin
    exact hnew n hn hkey
  · show (index.set key value).get? k = some v ↔
      ∃ n ∈ (s.insertNewNode key value level).chain, n.key = k ∧ n.value = v
    rw [Map.get?_set]
    split
    · next hk =>
        subst hk
        constructor
        · intro h
          exact ⟨_, (hmem _).mpr (.inl rfl), rfl, Option.some.inj h⟩
        · rintro ⟨n, hn, hnk, rfl⟩
          rcases (hmem n).mp hn with rfl | hn'
          · rfl
          · exact absurd hnk (hnew n hn')
    · next hk =>
        rw [hi k v hk]
        constructor
        · rintro ⟨n, hn, hnk⟩
          exact ⟨n, (hmem n).mpr (.inr hn), hnk⟩
        · rintro ⟨n, hn, hnk⟩
          rcases (hmem n).mp hn with rfl | hn'
          · exact absurd hnk.1.symm hk
          · exact ⟨n, hn', hnk⟩

/-- An insertion keeps chain and index in step exactly if the score the member
had is not a NaN. -/
theorem Agrees.insert_iff (h : s.Agrees) (hs : s.Sound) (key : Bytes) (value : Float64) (level : Nat) :
    (s.insert key value level).2.Agrees ↔ s.Refinds key := by
  have hsound := hs.insert key value level
  unfold SkipChain.insert at hsound ⊢
  unfold Refinds
  cases hk : s.keyIndex.get? key with
  | none =>
      rw [hk] at hsound
      refine iff_of_true (agrees_insertNewNode hsound h.nodup (fun n hn hkey => ?_)
        fun k v _ => h.indexed k v) nofun
      have hidx := (h.indexed key n.value).mpr ⟨n, hn, hkey, rfl⟩
      rw [hk] at hidx
      cases hidx
  | some old =>
      rw [hk] at hsound
      simp only [Option.some.injEq, forall_eq']
      cases hnum : old.isNaN with
      | false =>
          obtain ⟨hnd, hmem⟩ := h.removeNodeByScore hs hk hnum
          refine iff_of_true (agrees_insertNewNode hsound hnd (fun n hn => ((hmem n).mp hn).2)
            fun k v hne => ?_) rfl
          rw [removeNodeByScore_keyIndex, h.indexed k v]
          constructor
          · rintro ⟨n, hn, rfl, hv⟩
            exact ⟨n, (hmem n).mpr ⟨hn, hne⟩, rfl, hv⟩
          · rintro ⟨n, hn, hnk⟩
            exact ⟨n, ((hmem n).mp hn).1, hnk⟩
      | true =>
          -- the old node stays in the chain beside the new one
          refine iff_of_false (fun hafter => ?_) nofun
          obtain ⟨n, hn, hnk, -⟩ := (h.indexed key old).mp hk
          have hnd := hafter.nodup
          rw [removeNodeByScore_nan hnum] at hnd
          have hperm : (s.insertNewNode key value level).chain.Perm (⟨key, value, level + 1⟩ :: s.chain) := by
            rw [insertNewNode_chain]
            exact List.perm_orderedInsert _ _ _
          have hnd' := (hperm.map (·.key)).nodup_iff.mp hnd
          exact (List.nodup_cons.mp hnd').1 (List.mem_map.mpr ⟨n, hn, hnk⟩)

/-- So does a removal. -/
theorem Agrees.remove_iff (h : s.Agrees) (hs : s.Sound) (key : Bytes) :
    (s.remove key).2.Agrees ↔ s.Refinds key := by
  have hsound := hs.remove key
  unfold SkipChain.remove at hsound ⊢
  unfold Refinds
  cases hk : s.keyIndex.get? key with
  | none => exact iff_of_true h (by rintro _ ⟨⟩)
  | some score =>
      rw [hk] at hsound
      simp only [Option.some.injEq, forall_eq']
      dsimp only at hsound ⊢
      rw [removeNodeByScore_index] at hsound ⊢
      cases hnum : score.isNaN with
      | false =>
          obtain ⟨hnd, hmem⟩ := h.removeNodeByScore hs hk hnum
          refine iff_of_true (.of_nodes hsound hnd fun k v => ?_) rfl
          show (s.keyIndex.del key).get? k = some v ↔
            ∃ n ∈ (s.removeNodeByScore key score).chain, n.key = k ∧ n.value = v
          rw [Map.get?_del]
          split
          · next hkk =>
              subst hkk
              refine ⟨by rintro ⟨⟩, ?_⟩
              rintro ⟨n, hn, hnk, -⟩
              exact absurd hnk ((hmem n).mp hn).2
          · next hne =>
              rw [h.indexed k v]
              constructor
              · rintro ⟨n, hn, rfl, hv⟩
                exact ⟨n, (hmem n).mpr ⟨hn, hne⟩, rfl, hv⟩
              · rintro ⟨n, hn, hnk⟩
                exact ⟨n, ((hmem n).mp hn).1, hnk⟩
      | true =>
          -- the node stays in the chain without a row in the index
          refine iff_of_false (fun hafter => ?_) (by rintro ⟨⟩)
          obtain ⟨n, hn, hnk, hnv⟩ := (h.indexed key score).mp hk
          have hrow : (s.keyIndex.del key).get? key = some score := by
            refine (hafter.indexed key score).mpr ⟨n, ?_, hnk, hnv⟩
            show n ∈ (s.removeNodeByScore key score).chain
            rw [removeNodeByScore_nan hnum]
            exact hn
          rw [Map.get?_del_self] at hrow
          cases hrow

end SkipChain

end Ferrous
