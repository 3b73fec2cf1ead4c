/-
# `Lib.Queues` — queues by key, seen as one log

A log is a list of pairs of a key and an element, the oldest first, and the queue
of a key is what the log has for it.  Appending to a log, filtering it and
dropping the first pair of a key act on each queue alone, and all the queues
together are the log in another order.  Elements whose positions are known are
taken out of a queue from the last position to the first.
-/
import Mathlib.Data.List.Perm.Basic

namespace Lib

section Log

variable {K A B : Type} [DecidableEq K]

/-- The queue of a key. -/
def queueOf (log : List (K × A)) (k : K) : List A := (log.filter fun e => e.1 = k).map Prod.snd

/-- The log without the first pair of a key. -/
def dropFirst (log : List (K × A)) (k : K) : List (K × A) := log.eraseP fun e => e.1 = k

@[simp] theorem queueOf_nil (k : K) : queueOf ([] : List (K × A)) k = [] := rfl

theorem queueOf_cons (e : K × A) (log : List (K × A)) (k : K) :
    queueOf (e :: log) k = if e.1 = k then e.2 :: queueOf log k else queueOf log k := by
  unfold queueOf
  by_cases h : e.1 = k
  · rw [List.filter_cons_of_pos (by simpa using h), if_pos h, List.map_cons]
  · rw [List.filter_cons_of_neg (by simpa using h), if_neg h]

theorem queueOf_append (log log' : List (K × A)) (k : K) :
    queueOf (log ++ log') k = queueOf log k ++ queueOf log' k := by
  rw [queueOf, List.filter_append, List.map_append]
  rfl

theorem queueOf_filter (keep : A → Bool) (log : List (K × A)) (k : K) :
    queueOf (log.filter fun e => keep e.2) k = (queueOf log k).filter keep := by
  rw [queueOf, queueOf, List.filter_map, List.filter_filter, List.filter_filter]
  simp only [Function.comp_def, Bool.and_comm]

theorem queueOf_dropFirst (log : List (K × A)) (k k' : K) :
    queueOf (dropFirst log k) k' = if k' = k then (queueOf log k').tail else queueOf log k' := by
  unfold dropFirst
  induction log with
  | nil => simp
  | cons e log ih =>
      by_cases he : e.1 = k
      · rw [List.eraseP_cons_of_pos (by simpa using he), queueOf_cons]
        by_cases hk : k' = k
        · rw [if_pos hk, if_pos (he.trans hk.symm), List.tail_cons]
        · rw [if_neg hk, if_neg (fun h => hk (h.symm.trans he))]
      · rw [List.eraseP_cons_of_neg (by simpa using he), queueOf_cons, queueOf_cons, ih]
        by_cases hk : k' = k
        · have hek : ¬ e.1 = k' := fun h => he (h.trans hk)
          rw [if_pos hk, if_neg hek, if_pos hk, if_neg hek]
        · rw [if_neg hk, if_neg hk]

theorem queueOf_eq_nil {log : List (K × A)} {k : K} : queueOf log k = [] ↔ ∀ e ∈ log, e.1 ≠ k := by
  rw [queueOf, List.map_eq_nil_iff, List.filter_eq_nil_iff]
  simp only [decide_eq_true_eq, ne_eq]

/-- The first of a queue is the first of its key in the log. -/
theorem head?_queueOf (log : List (K × A)) (k : K) :
    (queueOf log k).head? = (log.find? fun e => e.1 = k).map Prod.snd := by
  rw [queueOf, List.head?_map, List.head?_filter]

/-- The queues of all keys, one behind the other, are the log in another order.
By induction on the keys: the pairs of the first key are split off. -/
theorem perm_queueOf {keys : List K} (hn : keys.Nodup) {log : List (K × A)}
    (hcover : ∀ e ∈ log, e.1 ∈ keys) : (keys.flatMap (queueOf log)).Perm (log.map Prod.snd) := by
  induction keys generalizing log with
  | nil =>
      have hlog : log = [] := List.eq_nil_iff_forall_not_mem.mpr fun e he => nomatch hcover e he
      rw [hlog]
      exact List.Perm.refl _
  | cons k keys ih =>
      obtain ⟨hk, hn⟩ := List.nodup_cons.mp hn
      let rest := log.filter fun e => !decide (e.1 = k)
      have hrest : ∀ e ∈ rest, e.1 ∈ keys := by
        intro e he
        obtain ⟨he, hne⟩ := List.mem_filter.mp he
        exact (List.mem_cons.mp (hcover e he)).resolve_left (by simpa using hne)
      have hsame : keys.flatMap (queueOf log) = keys.flatMap (queueOf rest) := by
        refine List.flatMap_congr fun k' hk' => ?_
        have hne : k' ≠ k := fun h => hk (h ▸ hk')
        rw [queueOf, queueOf, List.filter_filter]
        congr 1
        refine List.filter_congr fun e _ => ?_
        by_cases he : e.1 = k'
        · simp [he, hne]
        · simp [he]
      have hsplit := (List.filter_append_perm (fun e : K × A => decide (e.1 = k)) log).map Prod.snd
      rw [List.map_append] at hsplit
      rw [List.flatMap_cons, hsame]
      exact ((ih hn hrest).append_left _).trans hsplit

end Log

/-! ## Positions -/

section Positions

variable {A B : Type}

/-- Take an element out by its position, if there is one, and note it. -/
def takeOut (note : A → B) (s : List A × List B) (i : Nat) : List A × List B :=
  match s.1[i]? with
  | some a => (s.1.eraseIdx i, s.2 ++ [note a])
  | none => s

/-- Behind other elements, by induction on the queue: the positions of its tail
are taken first, and leave the position of its head where it was. -/
theorem foldl_takeOut_append (note : A → B) (p : A → Bool) (front l : List A) (noted : List B) :
    (l.findIdxs p front.length).reverse.foldl (takeOut note) (front ++ l, noted) =
      (front ++ l.filter fun a => !p a, noted ++ ((l.filter p).map note).reverse) := by
  induction l generalizing front with
  | nil => simp
  | cons a l ih =>
      have hih := ih (front ++ [a])
      rw [List.length_append, List.length_singleton, List.append_assoc, List.append_assoc] at hih
      rw [List.findIdxs_cons]
      cases ha : p a with
      | true =>
          rw [if_pos rfl, List.reverse_cons, List.foldl_append]
          change takeOut note
            ((l.findIdxs p (front.length + 1)).reverse.foldl (takeOut note)
              (front ++ ([a] ++ l), noted)) front.length = _
          rw [hih, takeOut]
          simp [ha, List.eraseIdx_append]
      | false =>
          rw [if_neg nofun]
          change (l.findIdxs p (front.length + 1)).reverse.foldl (takeOut note)
            (front ++ ([a] ++ l), noted) = _
          rw [hih]
          simp [ha]

/-- Taking out by their positions the elements that satisfy a test leaves the
others in their order. -/
theorem foldl_takeOut (note : A → B) (p : A → Bool) (l : List A) :
    (l.findIdxs p).reverse.foldl (takeOut note) (l, []) =
      (l.filter fun a => !p a, ((l.filter p).map note).reverse) :=
  foldl_takeOut_append note p [] l []

end Positions

end Lib
