/-
# `Lib.Selection` — the elements of a list at given positions

`select l P` is what is left of a list when only the positions in `P` stay.  A
range of signed ends, each counted from the back when negative, denotes the
positions of `positions`; `slice_eq` computes the selection by cutting the list
twice.
-/
import Mathlib.Data.List.Basic
import Mathlib.Data.Set.Basic

namespace Lib

section Selection

variable {α : Type}

/-- The elements at the positions that satisfy `P`, in the order of the list. -/
def select (l : List α) (P : Nat → Prop) [DecidablePred P] : List α :=
  (l.zipIdx.filter fun p => decide (P p.2)).map Prod.fst

theorem filter_zipIdx_interval (l : List α) (k a b : Nat) :
    ((l.zipIdx k).filter fun p => decide (a ≤ p.2 ∧ p.2 < b)).map Prod.fst =
      (l.take (b - k)).drop (a - k) := by
  induction l generalizing k with
  | nil => simp
  | cons x l ih =>
      rw [List.zipIdx_cons, List.filter_cons, apply_ite (List.map Prod.fst), List.map_cons, ih (k + 1)]
      simp only [decide_eq_true_eq]
      by_cases hb : k < b
      · obtain ⟨n, hn⟩ : ∃ n, b - k = n + 1 := ⟨b - k - 1, by omega⟩
        have hrest : b - (k + 1) = n := by omega
        rw [hn, hrest, List.take_succ_cons]
        by_cases ha : a ≤ k
        · have hdrop : a - k = 0 := by omega
          have hdrop' : a - (k + 1) = 0 := by omega
          rw [if_pos ⟨ha, hb⟩, hdrop, hdrop', List.drop_zero, List.drop_zero]
        · obtain ⟨m, hm⟩ : ∃ m, a - k = m + 1 := ⟨a - k - 1, by omega⟩
          have hrest' : a - (k + 1) = m := by omega
          rw [if_neg fun h => ha h.1, hm, hrest', List.drop_succ_cons]
      · have hend : b - k = 0 := by omega
        have hend' : b - (k + 1) = 0 := by omega
        rw [if_neg fun h => hb h.2, hend, hend', List.take_zero, List.take_zero, List.drop_nil,
          List.drop_nil]

/-- Selecting an interval of positions cuts the list at both ends. -/
theorem select_interval {l : List α} {P : Nat → Prop} [DecidablePred P] {a b : Nat}
    (h : ∀ i < l.length, P i ↔ a ≤ i ∧ i < b) : select l P = (l.take b).drop a := by
  have hsame : (l.zipIdx.filter fun p => decide (P p.2)) =
      l.zipIdx.filter fun p => decide (a ≤ p.2 ∧ p.2 < b) := by
    refine List.filter_congr fun p hp => ?_
    have hlt : p.2 < l.length := by
      obtain ⟨i, hi, rfl⟩ := List.getElem_of_mem hp
      simpa using hi
    exact decide_eq_decide.mpr (h p.2 hlt)
  rw [select, hsame, filter_zipIdx_interval]
  rfl

/-- An end of a range: counted from the back when it is negative. -/
def fromBack (len : Nat) (i : Int) : Int := if i < 0 then i + len else i

/-- The positions between two ends, both included. -/
def positions (len : Nat) (start stop : Int) (i : Nat) : Prop :=
  max 0 (fromBack len start) ≤ i ∧ (i : Int) ≤ min ((len : Int) - 1) (fromBack len stop)

instance (len : Nat) (start stop : Int) : DecidablePred (positions len start stop) :=
  fun _ => inferInstanceAs (Decidable (_ ∧ _))

/-- The elements between two ends of a list. -/
def slice (l : List α) (start stop : Int) : List α := select l (positions l.length start stop)

theorem slice_eq (l : List α) (start stop : Int) :
    slice l start stop =
      (l.take (fromBack l.length stop + 1).toNat).drop (fromBack l.length start).toNat := by
  refine select_interval fun i hi => ?_
  unfold positions
  omega

/-- An end in front of the first position selects nothing. -/
theorem slice_eq_nil {l : List α} {start stop : Int} (h : fromBack l.length stop < 0) :
    slice l start stop = [] := by
  have hend : (fromBack l.length stop + 1).toNat = 0 := by omega
  rw [slice_eq, hend, List.take_zero, List.drop_nil]

end Selection

end Lib
