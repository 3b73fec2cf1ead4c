/-
# `Lib.Paging` — walking a sorted list by position while it changes

A walk looks at stretches of a sorted list, each from the position where the one
before it ended; between two looks the list may change.  An element the walk has
not come to is missed only if it slides in front of that position.
-/
import Mathlib.Data.List.Chain
import Mathlib.Data.List.Count
import Mathlib.Data.List.Sort

namespace Lib

section Paging

variable {α : Type*} [Ord α]

/-- Each element sorts before those behind it, or is equal to them. -/
def Ascending (l : List α) : Prop := l.Pairwise fun a b => compare a b ≠ .gt

/-- How many elements sort before `k`. -/
def ahead (l : List α) (k : α) : Nat := l.countP fun x => decide (compare x k = .lt)

variable [Std.TransOrd α]

theorem compare_refl (a : α) : compare a a = .eq := Std.ReflCmp.compare_self

theorem compare_lt_of_le {a b c : α} (hab : compare a b ≠ .gt) (hbc : compare b c = .lt) :
    compare a c = .lt :=
  Std.TransCmp.lt_of_isLE_of_lt (Ordering.isLE_iff_ne_gt.mpr hab) hbc

theorem ahead_lt {l : List α} {k : α} (hk : k ∈ l) : ahead l k < l.length := by
  refine List.countP_lt_length_iff.mpr ⟨k, hk, decide_eq_false ?_⟩
  rw [compare_refl]
  exact nofun

/-- In a sorted list the position of an element is the number of those before it. -/
theorem getElem?_ahead [Std.LawfulEqOrd α] {l : List α} (hs : Ascending l) {k : α} (hk : k ∈ l) :
    l[ahead l k]? = some k := by
  induction l with
  | nil => cases hk
  | cons x xs ih =>
      obtain ⟨hx, hxs⟩ := List.pairwise_cons.mp hs
      by_cases hlt : compare x k = .lt
      · have hne : k ≠ x := by
          rintro rfl
          rw [compare_refl] at hlt
          cases hlt
        have hnext : ahead (x :: xs) k = ahead xs k + 1 := List.countP_cons_of_pos (decide_eq_true hlt)
        rw [hnext, List.getElem?_cons_succ]
        exact ih hxs ((List.mem_cons.mp hk).resolve_left hne)
      · have hle (y : α) (hy : y ∈ x :: xs) : compare x y ≠ .gt := by
          rcases List.mem_cons.mp hy with rfl | h
          · rw [compare_refl]
            exact nofun
          · exact hx y h
        have hnone : ahead (x :: xs) k = 0 :=
          List.countP_eq_zero.mpr fun y hy h => hlt (compare_lt_of_le (hle y hy) (of_decide_eq_true h))
        have heq : x = k := by
          apply Std.LawfulEqOrd.eq_of_compare
          cases hc : compare x k with
          | lt => exact absurd hc hlt
          | eq => rfl
          | gt => exact absurd hc (hle k hk)
        rw [hnone, heq]
        rfl

/-- An element is found in the stretch that covers its position. -/
theorem mem_stretch [Std.LawfulEqOrd α] {l : List α} (hs : Ascending l) {k : α} (hk : k ∈ l)
    {start n : Nat} (hlow : start ≤ ahead l k) (hhigh : ahead l k < start + n) : k ∈ (l.drop start).take n := by
  have hat : ((l.drop start).take n)[ahead l k - start]? = some k := by
    rw [List.getElem?_take_of_lt (by omega), List.getElem?_drop, Nat.add_sub_of_le hlow]
    exact getElem?_ahead hs hk
  exact List.mem_of_getElem? hat

/-- What lies in front of the position of an element sorts before it. -/
theorem lt_of_mem_take {l : List α} (hs : Ascending l) {n : Nat} {k : α} (hn : n ≤ ahead l k) {x : α}
    (hx : x ∈ l.take n) : compare x k = .lt := by
  by_contra hnot
  have hsplit : Ascending (l.take n ++ l.drop n) := by rwa [List.take_append_drop]
  have hzero : (l.drop n).countP (fun y => decide (compare y k = .lt)) = 0 := by
    refine List.countP_eq_zero.mpr fun y hy h => hnot ?_
    exact compare_lt_of_le ((List.pairwise_append.mp hsplit).2.2 x hx y hy) (of_decide_eq_true h)
  have hfew : (l.take n).countP (fun y => decide (compare y k = .lt)) < (l.take n).length :=
    List.countP_lt_length_iff.mpr ⟨x, hx, decide_eq_false hnot⟩
  have hsum : ahead l k = (l.take n).countP (fun y => decide (compare y k = .lt)) +
      (l.drop n).countP (fun y => decide (compare y k = .lt)) := by
    rw [ahead, ← List.countP_append, List.take_append_drop]
  have hshort : (l.take n).length ≤ n := List.length_take_le n l
  omega

/-- If the first elements stay, whatever sorts behind them has as many before it. -/
theorem le_ahead_of_kept {l l' : List α} (hs : Ascending l) (hd : l.Nodup) {n : Nat} {k : α}
    (hn : n ≤ ahead l k) (hkept : ∀ x ∈ l.take n, x ∈ l') : n ≤ ahead l' k := by
  have hlen : n ≤ l.length := Nat.le_trans hn List.countP_le_length
  have hsub : (l.take n).Subperm (l'.filter fun x => decide (compare x k = .lt)) := by
    refine List.subperm_of_subset (hd.sublist (List.take_sublist n l)) fun x hx => ?_
    exact List.mem_filter.mpr ⟨hkept x hx, decide_eq_true (lt_of_mem_take hs hn hx)⟩
  calc n = (l.take n).length := (List.length_take_of_le hlen).symm
    _ ≤ (l'.filter fun x => decide (compare x k = .lt)).length := hsub.length_le
    _ = ahead l' k := List.countP_eq_length_filter.symm

/-! ## The walk -/

/-- One look: the list at that time, and the stretch that was looked at. -/
structure Look (α : Type*) where
  items : List α
  start : Nat
  length : Nat

/-- The stretch of a look covers an element. -/
def Look.Covers (v : Look α) (k : α) : Prop :=
  v.start ≤ ahead v.items k ∧ ahead v.items k < v.start + v.length

/-- Each look starts where the one before it ended, the first at `pos`, and the
last ends at the end of its list. -/
def Walks : Nat → List (Look α) → Prop
  | _, [] => False
  | pos, [v] => v.start = pos ∧ v.items.length ≤ v.start + v.length
  | pos, v :: w :: vs => v.start = pos ∧ Walks (v.start + v.length) (w :: vs)

/-- The element does not slide in front of the position the second look starts at. -/
def Stays (k : α) (v w : Look α) : Prop := w.start ≤ ahead v.items k → w.start ≤ ahead w.items k

/-- An element that is in every list and never slides is covered by some look. -/
theorem Walks.covers {pos : Nat} {vs : List (Look α)} {k : α} (h : Walks pos vs)
    (hk : ∀ v ∈ vs, k ∈ v.items) (hfirst : ∀ v ∈ vs.head?, pos ≤ ahead v.items k)
    (hstays : vs.IsChain (Stays k)) : ∃ v ∈ vs, v.Covers k := by
  -- the walk has not passed the element, until a look covers it
  induction vs generalizing pos with
  | nil => cases h
  | cons v vs ih =>
      have hlow : v.start ≤ ahead v.items k := by
        have hstart : v.start = pos := by
          cases vs with
          | nil => exact h.1
          | cons w vs => exact h.1
        rw [hstart]
        exact hfirst v rfl
      by_cases hhigh : ahead v.items k < v.start + v.length
      · exact ⟨v, List.mem_cons_self, hlow, hhigh⟩
      · cases vs with
        | nil => exact absurd (Nat.lt_of_lt_of_le (ahead_lt (hk v List.mem_cons_self)) h.2) hhigh
        | cons w vs =>
            have hw : w.start = v.start + v.length := by
              cases vs with
              | nil => exact h.2.1
              | cons x vs => exact h.2.1
            have hnext : ∀ u ∈ (w :: vs).head?, v.start + v.length ≤ ahead u.items k := by
              rintro u ⟨⟩
              rw [← hw]
              exact (List.isChain_cons_cons.mp hstays).1 (hw ▸ Nat.le_of_not_lt hhigh)
            obtain ⟨u, hu, hc⟩ := ih h.2 (fun u hu => hk u (List.mem_cons_of_mem v hu)) hnext
              (List.isChain_cons_cons.mp hstays).2
            exact ⟨u, List.mem_cons_of_mem v hu, hc⟩

end Paging

end Lib
