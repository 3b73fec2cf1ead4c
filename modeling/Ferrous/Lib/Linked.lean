/-
# `Lib.Linked` — singly linked chains in a memory

A memory is given by where each cell points: `next p` is `none` if there is no
such cell, `some none` at the end of a chain and `some (some q)` in front of
`q`.  `Linked next p xs` says that the chain from `p` goes through the cells
`xs` and ends.  Inserting and taking out one cell, and the loop that walks
along a chain, are stated against it.
-/
import Mathlib.Data.List.Basic

namespace Lib

section Linked

variable {P : Type}

/-- From `p` the cells `xs` follow one another. -/
def Path (next : P → Option (Option P)) : P → List P → Prop
  | _, [] => True
  | p, q :: qs => next p = some (some q) ∧ Path next q qs

/-- From `p` the chain goes through `xs` and ends. -/
def Linked (next : P → Option (Option P)) (p : P) (xs : List P) : Prop :=
  Path next p xs ∧ next (xs.getLastD p) = some none

variable {next next' : P → Option (Option P)} {p : P} {xs ys : List P}

theorem getLastD_append (xs ys : List P) (p : P) :
    (xs ++ ys).getLastD p = ys.getLastD (xs.getLastD p) := by
  induction xs generalizing p with
  | nil => rfl
  | cons x xs ih => simp only [List.cons_append, List.getLastD_cons, ih]

theorem getLastD_mem (xs : List P) (p : P) : xs.getLastD p ∈ p :: xs := by
  induction xs generalizing p with
  | nil => exact List.mem_singleton_self p
  | cons x xs ih =>
      rw [List.getLastD_cons]
      exact List.mem_cons_of_mem p (ih x)

theorem path_append : Path next p (xs ++ ys) ↔ Path next p xs ∧ Path next (xs.getLastD p) ys := by
  induction xs generalizing p with
  | nil => simp [Path]
  | cons x xs ih =>
      rw [List.cons_append, Path, Path, ih, List.getLastD_cons, and_assoc]

theorem linked_append : Linked next p (xs ++ ys) ↔ Path next p xs ∧ Linked next (xs.getLastD p) ys := by
  rw [Linked, Linked, path_append, getLastD_append, and_assoc]

theorem linked_cons {q : P} : Linked next p (q :: ys) ↔ next p = some (some q) ∧ Linked next q ys := by
  rw [Linked, Linked, Path, List.getLastD_cons, and_assoc]

/-- What a cell in front of the rest of a chain points to. -/
theorem Linked.next_eq (h : Linked next p ys) : next p = some ys.head? := by
  cases ys with
  | nil => exact h.2
  | cons y ys => exact h.1.1

/-- A path depends on where its cells point, its last one apart. -/
theorem Path.congr (h : Path next p xs) (heq : ∀ q ∈ (p :: xs).dropLast, next' q = next q) :
    Path next' p xs := by
  induction xs generalizing p with
  | nil => trivial
  | cons x xs ih =>
      refine ⟨(heq p (by simp [List.dropLast])).trans h.1, ih h.2 fun q hq => heq q ?_⟩
      rw [List.dropLast_cons_of_ne_nil (by simp)]
      exact List.mem_cons_of_mem p hq

/-- A chain depends on where its cells point. -/
theorem Linked.congr (h : Linked next p xs) (heq : ∀ q ∈ p :: xs, next' q = next q) :
    Linked next' p xs :=
  ⟨h.1.congr fun q hq => heq q (List.dropLast_subset _ hq), (heq _ (getLastD_mem xs p)).trans h.2⟩

/-- The cells of a path before its last one are not the last one. -/
theorem mem_dropLast_ne (hn : (p :: xs).Nodup) {q : P} (hq : q ∈ (p :: xs).dropLast) :
    q ≠ xs.getLastD p := by
  induction xs generalizing p with
  | nil => simp at hq
  | cons x xs ih =>
      rw [List.dropLast_cons_of_ne_nil (by simp)] at hq
      rw [List.getLastD_cons]
      rcases List.mem_cons.mp hq with rfl | hq
      · intro heq
        exact (List.nodup_cons.mp hn).1 (heq ▸ getLastD_mem xs x)
      · exact ih (List.nodup_cons.mp hn).2 hq

/-- Put a cell into a chain: it points to where its predecessor pointed, which
now points to it. -/
theorem Linked.insert (h : Linked next p (xs ++ ys)) {new : P} (hn : (p :: (xs ++ ys)).Nodup)
    (hnew : new ∉ p :: (xs ++ ys)) (hat : next' new = next (xs.getLastD p))
    (hpred : next' (xs.getLastD p) = some (some new))
    (heq : ∀ q, q ≠ new → q ≠ xs.getLastD p → next' q = next q) :
    Linked next' p (xs ++ new :: ys) := by
  obtain ⟨hpath, hrest⟩ := linked_append.mp h
  have hnx : (p :: xs).Nodup := hn.sublist ((List.sublist_append_left xs ys).cons_cons p)
  refine linked_append.mpr ⟨hpath.congr fun q hq => ?_, linked_cons.mpr ⟨hpred, ?_⟩⟩
  · refine heq q ?_ (mem_dropLast_ne hnx hq)
    rintro rfl
    refine hnew ?_
    rcases List.mem_cons.mp (List.dropLast_subset _ hq) with rfl | hq
    · exact List.mem_cons_self
    · exact List.mem_cons_of_mem _ (List.mem_append_left _ hq)
  · have hys : ∀ y ∈ ys, next' y = next y := by
      intro y hy
      refine heq y ?_ ?_
      · rintro rfl
        exact hnew (List.mem_cons_of_mem _ (List.mem_append_right _ hy))
      · intro hlast
        have hmem := getLastD_mem xs p
        rw [← hlast] at hmem
        have hdisj := (List.nodup_append.mp (List.cons_append ▸ hn : (p :: xs ++ ys).Nodup)).2.2
        exact hdisj y hmem y hy rfl
    cases ys with
    | nil => exact ⟨trivial, hat.trans hrest.2⟩
    | cons y ys =>
        obtain ⟨hnext, htail⟩ := linked_cons.mp hrest
        exact linked_cons.mpr ⟨hat.trans hnext, htail.congr hys⟩

/-- Take a cell out of a chain: its predecessor points to where it pointed. -/
theorem Linked.unlink {t : P} (h : Linked next p (xs ++ t :: ys)) (hn : (p :: (xs ++ t :: ys)).Nodup)
    (hpred : next' (xs.getLastD p) = next t)
    (heq : ∀ q, q ≠ t → q ≠ xs.getLastD p → next' q = next q) : Linked next' p (xs ++ ys) := by
  obtain ⟨hpath, hrest⟩ := linked_append.mp h
  obtain ⟨-, htail⟩ := linked_cons.mp hrest
  have hnx : (p :: xs).Nodup := hn.sublist ((List.sublist_append_left xs _).cons_cons p)
  have hsplit := List.nodup_append.mp (List.cons_append ▸ hn : (p :: xs ++ t :: ys).Nodup)
  have hbefore : ∀ q ∈ p :: xs, q ≠ t := fun q hq => hsplit.2.2 q hq t List.mem_cons_self
  refine linked_append.mpr ⟨hpath.congr fun q hq => ?_, ?_⟩
  · exact heq q (hbefore q (List.dropLast_subset _ hq)) (mem_dropLast_ne hnx hq)
  · have hys : ∀ y ∈ ys, next' y = next y := by
      intro y hy
      refine heq y ?_ ?_
      · rintro rfl
        exact (List.nodup_cons.mp hsplit.2.1).1 hy
      · intro hlast
        have hmem := getLastD_mem xs p
        rw [← hlast] at hmem
        exact hsplit.2.2 y hmem y (List.mem_cons_of_mem t hy) rfl
    cases ys with
    | nil => exact ⟨trivial, hpred.trans htail.2⟩
    | cons y ys =>
        obtain ⟨hnext, htail⟩ := linked_cons.mp htail
        exact linked_cons.mpr ⟨hpred.trans hnext, htail.congr hys⟩

/-! ## Walking -/

/-- Go on along a chain while the next cell passes the test. -/
def advance (next : P → Option (Option P)) (go : P → Option Bool) : Nat → P → Option P
  | 0, _ => none
  | fuel + 1, p => do
      match ← next p with
      | none => some p
      | some q => if ← go q then advance next go fuel q else some p

/-- It stops at the last cell of the part that passes. -/
theorem Linked.advance {go : P → Option Bool} (h : Linked next p (xs ++ ys))
    (hxs : ∀ x ∈ xs, go x = some true) (hys : ∀ y ∈ ys, go y = some false) {fuel : Nat}
    (hfuel : xs.length < fuel) : advance next go fuel p = some (xs.getLastD p) := by
  induction xs generalizing p fuel with
  | nil =>
      obtain ⟨fuel, rfl⟩ := Nat.exists_eq_succ_of_ne_zero (Nat.ne_of_gt hfuel)
      rw [Lib.advance, Linked.next_eq h]
      cases ys with
      | nil => rfl
      | cons y ys => simp [hys y List.mem_cons_self]
  | cons x xs ih =>
      obtain ⟨fuel, rfl⟩ := Nat.exists_eq_succ_of_ne_zero (Nat.ne_of_gt (Nat.zero_lt_of_lt hfuel))
      obtain ⟨hnext, hrest⟩ := linked_cons.mp h
      have hwalk := ih hrest (fun z hz => hxs z (List.mem_cons_of_mem x hz))
        (Nat.lt_of_succ_lt_succ hfuel)
      rw [Lib.advance, hnext, List.getLastD_cons, ← hwalk]
      simp [hxs x List.mem_cons_self]

end Linked

end Lib
