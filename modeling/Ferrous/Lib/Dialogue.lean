/-
# `Lib.Dialogue` — what is done for one client, in order

The requests of a client are numbered as they are carried out.  A server may
fall asleep over one of them and answer it later; until then it is to carry out
none and answer no later one.  `follow` reads a record of such events and stops
at the first that is out of place; a record it reads to the end is quiet while
asleep and has its replies in order.
-/
import Mathlib.Data.List.Basic

namespace Lib

/-- What is done for a client. -/
inductive Event
  | executed (n : Nat)
  | asleep (n : Nat)
  | replied (n : Nat)
  deriving DecidableEq, Repr

namespace Event

/-- The number of the request that is answered. -/
def reply? : Event → Option Nat
  | replied n => some n
  | _ => none

/-- The number of the request that is slept over. -/
def asleep? : Event → Option Nat
  | asleep n => some n
  | _ => none

/-- Whether a request is carried out. -/
def isExecuted : Event → Bool
  | executed _ => true
  | _ => false

end Event

namespace Dialogue

open Event

/-- Between falling asleep over a request and its answer, only earlier requests
are answered, and none is carried out. -/
def Quiet (l : List Event) : Prop :=
  ∀ before n after, l = before ++ .asleep n :: after →
    ∀ e ∈ after.takeWhile (· != .replied n), ∃ m < n, e = .replied m

/-- The replies come in the order of the requests. -/
def InOrder (l : List Event) : Prop := (l.filterMap reply?).Pairwise (· ≤ ·)

/-- How many requests have been carried out. -/
def executed (l : List Event) : Nat := l.countP isExecuted

/-- The request that was slept over last. -/
def lastAsleep (l : List Event) : Option Nat := l.foldl (fun last e => e.asleep?.or last) none

/-! ## Reading a record -/

/-- Where a dialogue stands: the requests carried out, the one slept over, and
the last one answered. -/
structure Standing where
  executed : Nat := 0
  waiting : Option Nat := none
  answered : Nat := 0
  deriving DecidableEq, Repr

/-- One event, if it is in place. -/
def Standing.step (d : Standing) : Event → Option Standing
  | .executed n =>
      if n = d.executed ∧ d.waiting = none then some { d with executed := n + 1 } else none
  | .asleep n =>
      if n + 1 = d.executed ∧ d.waiting = none then some { d with waiting := some n } else none
  | .replied n =>
      if d.answered ≤ n ∧ n < d.executed ∧ ∀ w ∈ d.waiting, n ≤ w then
        some { d with answered := n, waiting := d.waiting.filter (· != n) }
      else none

/-- Read a record. -/
def Standing.follow (d : Standing) (l : List Event) : Option Standing := l.foldlM Standing.step d

theorem follow_cons {d d' : Standing} {e : Event} {l : List Event} :
    d.follow (e :: l) = some d' ↔ ∃ d₁, d.step e = some d₁ ∧ d₁.follow l = some d' := by
  rw [Standing.follow, List.foldlM_cons]
  exact Option.bind_eq_some_iff

theorem follow_append {d d' : Standing} {l₁ l₂ : List Event} :
    d.follow (l₁ ++ l₂) = some d' ↔ ∃ d₁, d.follow l₁ = some d₁ ∧ d₁.follow l₂ = some d' := by
  rw [Standing.follow, List.foldlM_append]
  exact Option.bind_eq_some_iff

section Steps

variable {d d' : Standing} {n : Nat}

theorem step_executed : d.step (.executed n) = some d' ↔
    n = d.executed ∧ d.waiting = none ∧ d' = { d with executed := n + 1 } := by
  rw [Standing.step, Option.ite_none_right_eq_some, and_assoc, Option.some.injEq, eq_comm (b := d')]

theorem step_asleep : d.step (.asleep n) = some d' ↔
    n + 1 = d.executed ∧ d.waiting = none ∧ d' = { d with waiting := some n } := by
  rw [Standing.step, Option.ite_none_right_eq_some, and_assoc, Option.some.injEq, eq_comm (b := d')]

theorem step_replied : d.step (.replied n) = some d' ↔
    d.answered ≤ n ∧ n < d.executed ∧ (∀ w ∈ d.waiting, n ≤ w) ∧
      d' = { d with answered := n, waiting := d.waiting.filter (· != n) } := by
  rw [Standing.step, Option.ite_none_right_eq_some, and_assoc, and_assoc, Option.some.injEq,
    eq_comm (b := d')]

end Steps

/-! ## What a record that can be read says -/

variable {d d' : Standing} {l : List Event}

/-- Asleep over a request, only earlier ones are answered. -/
theorem quiet_of_waiting {n : Nat} (hw : d.waiting = some n) (h : d.follow l = some d') :
    ∀ e ∈ l.takeWhile (· != .replied n), ∃ m < n, e = .replied m := by
  induction l generalizing d with
  | nil => exact fun e he => absurd he List.not_mem_nil
  | cons e l ih =>
      obtain ⟨d₁, hstep, hrest⟩ := follow_cons.mp h
      cases e with
      | executed m =>
          rw [(step_executed.mp hstep).2.1] at hw
          cases hw
      | asleep m =>
          rw [(step_asleep.mp hstep).2.1] at hw
          cases hw
      | replied m =>
          obtain ⟨-, -, hle, rfl⟩ := step_replied.mp hstep
          by_cases hm : m = n
          · simp [hm]
          · have hlt : m < n := Nat.lt_of_le_of_ne (hle n hw) hm
            have hkeep : d.waiting.filter (· != m) = some n := by simp [hw, Ne.symm hm]
            intro e he
            rw [List.takeWhile_cons_of_pos (by simp [hm]), List.mem_cons] at he
            rcases he with rfl | he
            · exact ⟨m, hlt, rfl⟩
            · exact ih hkeep hrest e he

theorem quiet_of_follow (h : d.follow l = some d') : Quiet l := by
  rintro before n after rfl
  obtain ⟨d₁, -, hrest⟩ := follow_append.mp h
  obtain ⟨d₂, hstep, hafter⟩ := follow_cons.mp hrest
  obtain ⟨-, -, rfl⟩ := step_asleep.mp hstep
  exact quiet_of_waiting rfl hafter

theorem answered_le (h : d.follow l = some d') : ∀ n ∈ l.filterMap reply?, d.answered ≤ n := by
  induction l generalizing d with
  | nil => exact fun n hn => absurd hn List.not_mem_nil
  | cons e l ih =>
      obtain ⟨d₁, hstep, hrest⟩ := follow_cons.mp h
      intro n hn
      cases e with
      | executed m =>
          obtain ⟨-, -, rfl⟩ := step_executed.mp hstep
          exact ih hrest n hn
      | asleep m =>
          obtain ⟨-, -, rfl⟩ := step_asleep.mp hstep
          exact ih hrest n hn
      | replied m =>
          obtain ⟨hle, -, -, rfl⟩ := step_replied.mp hstep
          rcases List.mem_cons.mp hn with rfl | hn
          · exact hle
          · exact Nat.le_trans hle (ih hrest n hn)

theorem inOrder_of_follow (h : d.follow l = some d') : InOrder l := by
  induction l generalizing d with
  | nil => exact List.Pairwise.nil
  | cons e l ih =>
      obtain ⟨d₁, hstep, hrest⟩ := follow_cons.mp h
      cases e with
      | executed m => exact ih hrest
      | asleep m => exact ih hrest
      | replied m =>
          obtain ⟨-, -, -, rfl⟩ := step_replied.mp hstep
          exact List.Pairwise.cons (answered_le hrest) (ih hrest)

/-- The number of requests is counted. -/
theorem executed_of_follow (h : d.follow l = some d') : d'.executed = d.executed + executed l := by
  induction l generalizing d with
  | nil => exact (Option.some.inj h) ▸ rfl
  | cons e l ih =>
      obtain ⟨d₁, hstep, hrest⟩ := follow_cons.mp h
      rw [ih hrest]
      cases e with
      | executed m =>
          obtain ⟨rfl, -, rfl⟩ := step_executed.mp hstep
          simp only [executed, List.countP_cons, isExecuted, if_true]
          omega
      | asleep m =>
          obtain ⟨-, -, rfl⟩ := step_asleep.mp hstep
          rfl
      | replied m =>
          obtain ⟨-, -, -, rfl⟩ := step_replied.mp hstep
          rfl

/-- Nothing is answered ahead of time, and only the last request is slept over. -/
structure Standing.WellPlaced (d : Standing) : Prop where
  answered : d.answered ≤ d.executed - 1
  waiting : ∀ n ∈ d.waiting, n + 1 = d.executed

theorem wellPlaced_of_follow (hd : d.WellPlaced) (h : d.follow l = some d') : d'.WellPlaced := by
  induction l generalizing d with
  | nil => exact (Option.some.inj h) ▸ hd
  | cons e l ih =>
      obtain ⟨d₁, hstep, hrest⟩ := follow_cons.mp h
      refine ih ?_ hrest
      cases e with
      | executed m =>
          obtain ⟨rfl, hw, rfl⟩ := step_executed.mp hstep
          refine ⟨Nat.le_trans hd.answered (Nat.sub_le _ _), fun n hn => ?_⟩
          rw [hw] at hn
          cases hn
      | asleep m =>
          obtain ⟨hm, -, rfl⟩ := step_asleep.mp hstep
          exact ⟨hd.answered, fun n hn => Option.some.inj hn ▸ hm⟩
      | replied m =>
          obtain ⟨-, hlt, -, rfl⟩ := step_replied.mp hstep
          refine ⟨Nat.le_sub_one_of_lt hlt, fun n hn => hd.waiting n ?_⟩
          exact Option.eq_some_of_filter_eq_some hn

theorem Standing.wellPlaced_initial : ({} : Standing).WellPlaced :=
  ⟨Nat.le_refl _, fun _ h => by cases h⟩

/-- The request slept over is the last of which the record says so. -/
theorem foldl_asleep_of_follow {last : Option Nat} (hlast : ∀ n, d.waiting = some n → last = some n)
    (h : d.follow l = some d') (n : Nat) (hw : d'.waiting = some n) :
    l.foldl (fun last e => e.asleep?.or last) last = some n := by
  induction l generalizing d last with
  | nil =>
      obtain rfl := Option.some.inj h
      exact hlast n hw
  | cons e l ih =>
      obtain ⟨d₁, hstep, hrest⟩ := follow_cons.mp h
      rw [List.foldl_cons]
      cases e with
      | executed m =>
          obtain ⟨-, -, rfl⟩ := step_executed.mp hstep
          refine ih ?_ hrest
          exact hlast
      | asleep m =>
          obtain ⟨-, -, rfl⟩ := step_asleep.mp hstep
          refine ih ?_ hrest
          exact fun k hk => hk
      | replied m =>
          obtain ⟨-, -, -, rfl⟩ := step_replied.mp hstep
          refine ih ?_ hrest
          exact fun k hk => hlast k (Option.eq_some_of_filter_eq_some hk)

theorem lastAsleep_of_follow {n : Nat} (h : Standing.follow {} l = some d') (hw : d'.waiting = some n) :
    lastAsleep l = some n :=
  foldl_asleep_of_follow (fun _ h => by cases h) h n hw

end Dialogue

end Lib
