/-
# `Lib.Cuts` — cutting a list where a property ends

A property that, once lost along a list, stays lost cuts the list in two: what
comes before the cut is what has the property.  On a sorted list that is every
property of being below a bound.
-/
import Mathlib.Data.List.Basic

namespace Lib

variable {α : Type*}

/-- Whatever has an element with the property behind it has it too. -/
def Initially (p : α → Bool) (l : List α) : Prop := l.Pairwise fun a b => p b = true → p a = true

/-- The number of elements in front of the cut. -/
def cut (p : α → Bool) (l : List α) : Nat := (l.takeWhile p).length

theorem cut_cons_of_pos {p : α → Bool} {a : α} {l : List α} (h : p a = true) :
    cut p (a :: l) = cut p l + 1 := by
  rw [cut, List.takeWhile_cons_of_pos h, List.length_cons, cut]

theorem cut_cons_of_neg {p : α → Bool} {a : α} {l : List α} (h : p a = false) : cut p (a :: l) = 0 := by
  rw [cut, List.takeWhile_cons_of_neg (Bool.eq_false_iff.mp h), List.length_nil]

theorem cut_le (p : α → Bool) (l : List α) : cut p l ≤ l.length := List.Sublist.length_le (List.takeWhile_sublist p)

namespace Initially

variable {p : α → Bool} {l : List α}

theorem of_cons {a : α} (h : Initially p (a :: l)) : Initially p l := (List.pairwise_cons.mp h).2

/-- Where the first has not got it, none has. -/
theorem none_of_head {a : α} (h : Initially p (a :: l)) (ha : p a = false) : ∀ b ∈ l, p b = false := by
  intro b hb
  cases hp : p b with
  | false => rfl
  | true => exact ((List.pairwise_cons.mp h).1 b hb hp).symm.trans ha

theorem take_cut (h : Initially p l) : l.take (cut p l) = l.filter p := by
  induction l with
  | nil => rfl
  | cons a l ih =>
      cases ha : p a with
      | true =>
          rw [cut_cons_of_pos ha, List.take_succ_cons, List.filter_cons_of_pos ha, ih h.of_cons]
      | false =>
          have hnone : (a :: l).filter p = [] := List.filter_eq_nil_iff.mpr fun b hb => by
            rcases List.mem_cons.mp hb with rfl | hb
            · exact Bool.eq_false_iff.mp ha
            · exact Bool.eq_false_iff.mp (h.none_of_head ha b hb)
          rw [hnone, cut_cons_of_neg ha, List.take_zero]

theorem drop_cut (h : Initially p l) : l.drop (cut p l) = l.filter fun a => !p a := by
  induction l with
  | nil => rfl
  | cons a l ih =>
      cases ha : p a with
      | true =>
          rw [cut_cons_of_pos ha, List.drop_succ_cons, List.filter_cons_of_neg (by simp [ha]), ih h.of_cons]
      | false =>
          have hall : ∀ b ∈ a :: l, (!p b) = true := fun b hb => by
            rcases List.mem_cons.mp hb with rfl | hb
            · rw [ha, Bool.not_false]
            · rw [h.none_of_head ha b hb, Bool.not_false]
          rw [List.filter_eq_self.mpr hall, cut_cons_of_neg ha, List.drop_zero]

/-- The cut of what is left behind a position. -/
theorem cut_drop (h : Initially p l) (n : Nat) : cut p (l.drop n) = cut p l - n := by
  induction l generalizing n with
  | nil => simp [cut]
  | cons a l ih =>
      cases n with
      | zero => rfl
      | succ n =>
          rw [List.drop_succ_cons, ih h.of_cons]
          cases ha : p a with
          | true =>
              rw [cut_cons_of_pos ha, Nat.add_sub_add_right]
          | false =>
              have hzero : cut p l = 0 := by
                cases l with
                | nil => rfl
                | cons b l =>
                    exact cut_cons_of_neg (h.none_of_head ha b List.mem_cons_self)
              rw [hzero, cut_cons_of_neg ha, Nat.zero_sub, Nat.zero_sub]

/-- What lies between two cuts. -/
theorem drop_take_cut {q : α → Bool} (hp : Initially p l) (hq : Initially q l) :
    (l.take (cut q l)).drop (cut p l) = l.filter fun a => !p a && q a := by
  have hrest : Initially q (l.drop (cut p l)) := List.Pairwise.drop hq
  rw [List.drop_take, ← hq.cut_drop, hrest.take_cut, hp.drop_cut, List.filter_filter]
  exact List.filter_congr fun a _ => Bool.and_comm _ _

end Initially

end Lib
