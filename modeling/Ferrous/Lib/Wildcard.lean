/-
# `Lib.Wildcard` — matching with one remembered star

A pattern is read piece by piece: a star stands for any text, an item for one
symbol it accepts.  The matcher walks pattern and text together and remembers
the last star with the text it was met at; on a mismatch the star gets one
symbol more.  It decides the language of the pattern, because an earlier star
never needs more than it took: what it could give, the later star can take.
-/
import Mathlib.Data.List.Basic

namespace Lib

/-- How a pattern goes on. -/
inductive Piece (π α : Type*)
  | done
  | star (rest : π)
  | item (accepts : α → Bool) (rest : π)

/-- Patterns that are read piece by piece and get shorter; `ends` says that only
stars are left. -/
structure Reader (π α : Type*) where
  read : π → Piece π α
  ends : π → Bool
  size : π → Nat
  star_lt : ∀ {p q}, read p = .star q → size q < size p
  item_lt : ∀ {p a q}, read p = .item a q → size q < size p
  ends_done : ∀ {p}, read p = .done → ends p = true
  ends_star : ∀ {p q}, read p = .star q → ends p = ends q
  ends_item : ∀ {p a q}, read p = .item a q → ends p = false

namespace Reader

variable {π α : Type*} (R : Reader π α)

/-! ## The language -/

/-- The texts of a pattern. -/
inductive Language : π → List α → Prop
  | done {p : π} : R.read p = .done → Language p []
  | star {p q : π} (u : List α) {v : List α} : R.read p = .star q → Language q v → Language p (u ++ v)
  | item {p q : π} {a : α → Bool} {t : α} {v : List α} :
      R.read p = .item a q → a t = true → Language q v → Language p (t :: v)

variable {R} {p q : π}

theorem language_done (h : R.read p = .done) {v : List α} : R.Language p v ↔ v = [] := by
  constructor
  · intro hv
    cases hv with
    | done => rfl
    | star u hstar _ => cases h.symm.trans hstar
    | item hitem _ _ => cases h.symm.trans hitem
  · rintro rfl
    exact .done h

/-- A star takes some of the text. -/
theorem language_star (h : R.read p = .star q) {v : List α} :
    R.Language p v ↔ ∃ k, k ≤ v.length ∧ R.Language q (v.drop k) := by
  constructor
  · intro hv
    cases hv with
    | done hdone => cases h.symm.trans hdone
    | @star _ q' u v hstar hrest =>
        cases h.symm.trans hstar
        refine ⟨u.length, by simp, ?_⟩
        rwa [List.drop_left]
    | item hitem _ _ => cases h.symm.trans hitem
  · rintro ⟨k, -, hk⟩
    rw [← List.take_append_drop k v]
    exact .star _ h hk

theorem language_item {a : α → Bool} (h : R.read p = .item a q) {t : α} {v : List α} :
    R.Language p (t :: v) ↔ a t = true ∧ R.Language q v := by
  constructor
  · intro hv
    generalize htv : t :: v = tv at hv
    cases hv with
    | done => cases htv
    | star u hstar _ => cases h.symm.trans hstar
    | item hitem ht hrest =>
        cases h.symm.trans hitem
        cases htv
        exact ⟨ht, hrest⟩
  · exact fun ⟨ht, hv⟩ => .item h ht hv

theorem not_language_item_nil {a : α → Bool} (h : R.read p = .item a q) : ¬ R.Language p [] := by
  intro hv
  generalize hnil : [] = v at hv
  cases hv with
  | done hdone => cases h.symm.trans hdone
  | star u hstar _ => cases h.symm.trans hstar
  | item => cases hnil

/-- Nothing is a text of the patterns of which only stars are left. -/
theorem ends_iff (p : π) : R.ends p = true ↔ R.Language p [] := by
  induction hn : R.size p using Nat.strongRecOn generalizing p with
  | ind n ih =>
      cases hr : R.read p with
      | done => exact iff_of_true (R.ends_done hr) (.done hr)
      | star q =>
          rw [R.ends_star hr, ih _ (hn ▸ R.star_lt hr) q rfl, language_star hr]
          simp
      | item a q =>
          rw [R.ends_item hr]
          exact iff_of_false Bool.false_ne_true (not_language_item_nil hr)

/-! ## The matcher -/

/-- What is left of pattern and text, and what is behind the last star with the
text it was met at. -/
structure Cursor (π α : Type*) where
  pattern : π
  text : List α
  star : Option (π × List α)

variable (R)

/-- Give the last star one symbol more. -/
def back (star : Option (π × List α)) : Bool ⊕ Cursor π α :=
  match star with
  | some (q, _ :: ts) => .inr ⟨q, ts, some (q, ts)⟩
  | _ => .inl false

/-- One round of the loop: its result or the next state. -/
def turn (c : Cursor π α) : Bool ⊕ Cursor π α :=
  match c.text with
  | [] => .inl (R.ends c.pattern)
  | t :: ts =>
      match R.read c.pattern with
      | .done => back c.star
      | .star q => .inr ⟨q, t :: ts, some (q, t :: ts)⟩
      | .item a q => if a t then .inr ⟨q, ts, c.star⟩ else back c.star

/-- The loop; `none` is a loop that has not ended yet. -/
def run : Nat → Cursor π α → Option Bool
  | 0, _ => none
  | n + 1, c =>
      match R.turn c with
      | .inl b => some b
      | .inr c' => run n c'

variable {R}

theorem run_succ (n : Nat) (c : Cursor π α) : R.run (n + 1) c = (R.turn c).elim some (R.run n) := by
  rw [run]
  cases R.turn c <;> rfl

/-! ## The star that was not chosen -/

/-- The texts that a longer stretch for the last star leads to. -/
def Later (R : Reader π α) : Option (π × List α) → Prop
  | none => False
  | some (q, m) => ∃ k, 0 < k ∧ k ≤ m.length ∧ R.Language q (m.drop k)

/-- Between the last star and the cursor stand items only: whatever the star is
given, they take as much as they took. -/
def Between (R : Reader π α) (c : Cursor π α) : Prop :=
  ∀ q m, c.star = some (q, m) → ∃ d, d ≤ m.length ∧ c.text = m.drop d ∧
    ∀ k, k ≤ m.length → R.Language q (m.drop k) → k + d ≤ m.length ∧ R.Language c.pattern (m.drop (k + d))

/-- What the loop still decides. -/
def Open (R : Reader π α) (c : Cursor π α) : Prop := R.Language c.pattern c.text ∨ R.Later c.star

theorem between_star {t : List α} : R.Between ⟨q, t, some (q, t)⟩ := by
  rintro _ _ ⟨⟩
  exact ⟨0, Nat.zero_le _, rfl, fun k hk h => ⟨hk, h⟩⟩

/-- An item that accepts leads on. -/
theorem Between.item {a : α → Bool} {t : α} {ts : List α} {star : Option (π × List α)}
    (h : R.Between ⟨p, t :: ts, star⟩) (hr : R.read p = .item a q) : R.Between ⟨q, ts, star⟩ := by
  intro q' m hstar
  obtain ⟨d, hd, htext, hlead⟩ := h q' m hstar
  have hlt : d < m.length := by
    by_contra hge
    rw [List.drop_of_length_le (Nat.le_of_not_lt hge)] at htext
    cases htext
  refine ⟨d + 1, hlt, ?_, fun k hk hlang => ?_⟩
  · have htail := congrArg List.tail htext
    rwa [List.tail_drop] at htail
  · obtain ⟨hle, hp⟩ := hlead k hk hlang
    have hlt' : k + d < m.length := by
      by_contra hge
      rw [List.drop_of_length_le (Nat.le_of_not_lt hge)] at hp
      exact not_language_item_nil hr hp
    rw [List.drop_eq_getElem_cons hlt', language_item hr] at hp
    exact ⟨hlt', hp.2⟩

/-- What a longer stretch for the last star leads to, a star at the cursor takes. -/
theorem language_of_later {t : List α} {star : Option (π × List α)} (h : R.Between ⟨p, t, star⟩)
    (hr : R.read p = .star q) (hlater : R.Later star) : ∃ k, 0 < k ∧ k ≤ t.length ∧ R.Language q (t.drop k) := by
  rcases star with _ | ⟨q', m⟩
  · exact hlater.elim
  · obtain ⟨k, hpos, hk, hlang⟩ := hlater
    obtain ⟨d, hd, htext, hlead⟩ := h q' m rfl
    obtain ⟨hle, hp⟩ := hlead k hk hlang
    obtain ⟨j, hj, hq⟩ := (language_star hr).mp hp
    have htext : t = m.drop d := htext
    rw [List.length_drop] at hj
    rw [List.drop_drop] at hq
    refine ⟨k + j, Nat.add_pos_left hpos j, ?_, ?_⟩
    · rw [htext, List.length_drop]
      omega
    · rw [htext, List.drop_drop]
      convert hq using 2
      omega

/-- Going back decides what the longer stretches lead to. -/
theorem back_spec {c : Cursor π α} (h : R.Between c) (hne : c.text ≠ []) :
    (∀ b, back c.star = .inl b → (b = true ↔ R.Later c.star)) ∧
      ∀ c', back c.star = .inr c' → (R.Open c' ↔ R.Later c.star) ∧ R.Between c' := by
  obtain ⟨p, t, star⟩ := c
  rcases star with _ | ⟨q, _ | ⟨x, ts⟩⟩
  · refine ⟨fun b hb => ?_, nofun⟩
    cases hb
    exact iff_of_false Bool.false_ne_true id
  · obtain ⟨d, -, htext, -⟩ := h q [] rfl
    exact absurd (htext.trans List.drop_nil) hne
  · refine ⟨nofun, fun c' hc => ?_⟩
    cases hc
    refine ⟨⟨?_, ?_⟩, between_star⟩
    · rintro (hlang | ⟨k, hpos, hk, hlang⟩)
      · exact ⟨1, Nat.one_pos, Nat.succ_le_succ (Nat.zero_le _), hlang⟩
      · exact ⟨k + 1, Nat.succ_pos k, Nat.succ_le_succ hk, hlang⟩
    · rintro ⟨k, hpos, hk, hlang⟩
      obtain ⟨j, rfl⟩ : ∃ j, k = j + 1 := ⟨k - 1, by omega⟩
      rw [List.drop_succ_cons] at hlang
      rcases Nat.eq_zero_or_pos j with rfl | hj
      · exact .inl hlang
      · exact .inr ⟨j, hj, Nat.le_of_succ_le_succ hk, hlang⟩

/-- A round decides what was to be decided, or leaves it to the next one. -/
theorem turn_spec {c : Cursor π α} (h : R.Between c) :
    (∀ b, R.turn c = .inl b → (b = true ↔ R.Open c)) ∧
      ∀ c', R.turn c = .inr c' → (R.Open c' ↔ R.Open c) ∧ R.Between c' := by
  obtain ⟨p, t, star⟩ := c
  cases t with
  | nil =>
      refine ⟨fun b hb => ?_, nofun⟩
      cases hb
      have hnone : ¬ R.Later star := by
        intro hlater
        rcases star with _ | ⟨q, m⟩
        · exact hlater
        · obtain ⟨k, hpos, hk, hlang⟩ := hlater
          obtain ⟨d, hd, htext, hlead⟩ := h q m rfl
          have hend : m.length ≤ d := List.drop_eq_nil_iff.mp htext.symm
          have := (hlead k hk hlang).1
          omega
      exact (ends_iff p).trans (or_iff_left hnone).symm
  | cons t ts =>
      have hback := back_spec h (List.cons_ne_nil t ts)
      -- where the pattern does not go on with the text, only longer stretches are left
      have hstuck (hno : ¬ R.Language p (t :: ts)) (ht : R.turn ⟨p, t :: ts, star⟩ = back star) :
          (∀ b, R.turn ⟨p, t :: ts, star⟩ = .inl b → (b = true ↔ R.Open ⟨p, t :: ts, star⟩)) ∧
            ∀ c', R.turn ⟨p, t :: ts, star⟩ = .inr c' →
              (R.Open c' ↔ R.Open ⟨p, t :: ts, star⟩) ∧ R.Between c' := by
        have hopen : R.Open ⟨p, t :: ts, star⟩ ↔ R.Later star := or_iff_right hno
        rw [ht, hopen]
        exact hback
      cases hr : R.read p with
      | done =>
          refine hstuck (fun hlang => List.cons_ne_nil t ts ((language_done hr).mp hlang)) ?_
          simp only [turn, hr]
      | star q =>
          have ht : R.turn ⟨p, t :: ts, star⟩ = .inr ⟨q, t :: ts, some (q, t :: ts)⟩ := by
            simp only [turn, hr]
          rw [ht]
          refine ⟨nofun, fun c' hc => ?_⟩
          cases hc
          refine ⟨⟨?_, ?_⟩, between_star⟩
          · rintro (hlang | ⟨k, -, hk, hlang⟩)
            · exact .inl ((language_star hr).mpr ⟨0, Nat.zero_le _, hlang⟩)
            · exact .inl ((language_star hr).mpr ⟨k, hk, hlang⟩)
          · rintro (hlang | hlater)
            · obtain ⟨k, hk, hlang⟩ := (language_star hr).mp hlang
              rcases Nat.eq_zero_or_pos k with rfl | hpos
              · exact .inl hlang
              · exact .inr ⟨k, hpos, hk, hlang⟩
            · exact .inr (language_of_later h hr hlater)
      | item a q =>
          cases hat : a t with
          | false =>
              refine hstuck (fun hlang => ?_) ?_
              · rw [language_item hr, hat] at hlang
                exact Bool.false_ne_true hlang.1
              · simp only [turn, hr, hat, Bool.false_eq_true, if_false]
          | true =>
              have ht : R.turn ⟨p, t :: ts, star⟩ = .inr ⟨q, ts, star⟩ := by
                simp only [turn, hr, hat, if_true]
              rw [ht]
              refine ⟨nofun, fun c' hc => ?_⟩
              cases hc
              refine ⟨?_, h.item hr⟩
              have hlang := (language_item hr (t := t) (v := ts)).trans (and_iff_right hat)
              exact (or_congr_left hlang).symm

/-! ## Termination -/

/-- How many rounds are left at most, with patterns of size `n`: the pattern at
hand once, and a pattern for every symbol behind the last star. -/
def effort (R : Reader π α) (n : Nat) (c : Cursor π α) : Nat :=
  ((c.star.map fun s => s.2.length).getD c.text.length) * (n + 1) + R.size c.pattern

/-- The sizes stay below the first, and the text is no longer than the one the
last star was met at. -/
def Bounded (R : Reader π α) (n : Nat) (c : Cursor π α) : Prop :=
  R.size c.pattern ≤ n ∧ ∀ q m, c.star = some (q, m) → R.size q ≤ n ∧ c.text.length ≤ m.length

/-- A round that does not end makes less effort necessary. -/
theorem turn_effort {n : Nat} {c c' : Cursor π α} (h : R.Bounded n c) (hc : R.turn c = .inr c') :
    R.Bounded n c' ∧ R.effort n c' < R.effort n c := by
  obtain ⟨p, t, star⟩ := c
  have hback : ∀ {c' : Cursor π α}, back star = .inr c' →
      R.Bounded n c' ∧ R.effort n c' < R.effort n ⟨p, t, star⟩ := by
    intro c' hb
    rcases star with _ | ⟨q, _ | ⟨x, ts⟩⟩
    · cases hb
    · cases hb
    · cases hb
      have hq := (h.2 q _ rfl).1
      refine ⟨⟨hq, ?_⟩, ?_⟩
      · rintro _ _ ⟨⟩
        exact ⟨hq, Nat.le_refl _⟩
      · simp only [effort, Option.map_some, Option.getD_some, List.length_cons, Nat.succ_mul]
        omega
  cases t with
  | nil => cases hc
  | cons t ts =>
      cases hr : R.read p with
      | done =>
          simp only [turn, hr] at hc
          exact hback hc
      | star q =>
          simp only [turn, hr, Sum.inr.injEq] at hc
          subst hc
          have hlt := R.star_lt hr
          have hp : R.size p ≤ n := h.1
          have hq : R.size q ≤ n := by omega
          refine ⟨⟨hq, ?_⟩, ?_⟩
          · rintro _ _ ⟨⟩
            exact ⟨hq, Nat.le_refl _⟩
          · have hmul : (t :: ts).length * (n + 1) ≤
                ((star.map fun s => s.2.length).getD (t :: ts).length) * (n + 1) := by
              refine Nat.mul_le_mul_right _ ?_
              cases star with
              | none => exact Nat.le_refl _
              | some s => exact (h.2 s.1 s.2 rfl).2
            simp only [effort, Option.map_some, Option.getD_some]
            omega
      | item a q =>
          simp only [turn, hr] at hc
          split at hc
          · simp only [Sum.inr.injEq] at hc
            subst hc
            have hlt := R.item_lt hr
            have hp : R.size p ≤ n := h.1
            have hq : R.size q ≤ n := by omega
            refine ⟨⟨hq, fun q' m hstar => ?_⟩, ?_⟩
            · have hm := h.2 q' m hstar
              exact ⟨hm.1, Nat.le_trans (Nat.le_succ _) hm.2⟩
            · cases star with
              | none =>
                  simp only [effort, Option.map_none, Option.getD_none, List.length_cons, Nat.succ_mul]
                  omega
              | some s =>
                  simp only [effort, Option.map_some, Option.getD_some]
                  omega
          · exact hback hc

/-- With enough rounds the loop ends, and decides what is open. -/
theorem run_spec {n fuel : Nat} {c : Cursor π α} (hb : R.Bounded n c) (h : R.Between c)
    (hfuel : R.effort n c < fuel) : ∃ b, R.run fuel c = some b ∧ (b = true ↔ R.Open c) := by
  induction fuel generalizing c with
  | zero => exact absurd hfuel (Nat.not_lt_zero _)
  | succ fuel ih =>
      rw [run]
      cases ht : R.turn c with
      | inl b => exact ⟨b, rfl, (turn_spec h).1 b ht⟩
      | inr c' =>
          obtain ⟨hopen, hbetween⟩ := (turn_spec h).2 c' ht
          obtain ⟨hbound, hlt⟩ := turn_effort hb ht
          obtain ⟨b, hrun, hiff⟩ := ih hbound hbetween (by omega)
          exact ⟨b, hrun, hiff.trans hopen⟩

/-- The matcher decides the language of every pattern. -/
theorem run_decides (R : Reader π α) (p : π) (t : List α) {fuel : Nat}
    (hfuel : t.length * (R.size p + 1) + R.size p < fuel) :
    ∃ b, R.run fuel ⟨p, t, none⟩ = some b ∧ (b = true ↔ R.Language p t) := by
  obtain ⟨b, hrun, hiff⟩ := @run_spec π α R (R.size p) fuel ⟨p, t, none⟩ ⟨Nat.le_refl _, nofun⟩ nofun hfuel
  exact ⟨b, hrun, hiff.trans (or_iff_left id)⟩

/-- So does the loop with a fixed number of rounds that is large enough, and it
gives what any longer loop gives. -/
theorem decides_of_fuel (R : Reader π α) {p : π} {t : List α} {b : Bool}
    (h : b = (R.run ((t.length + 1) * (R.size p + 2)) ⟨p, t, none⟩).getD false) :
    (∃ n, ∀ fuel, n < fuel → R.run fuel ⟨p, t, none⟩ = some b) ∧ (b = true ↔ R.Language p t) := by
  have henough : t.length * (R.size p + 1) + R.size p < (t.length + 1) * (R.size p + 2) := by
    rw [Nat.succ_mul, Nat.mul_add, Nat.mul_add]
    omega
  obtain ⟨b', hrun, hiff⟩ := R.run_decides p t henough
  rw [hrun, Option.getD_some] at h
  subst h
  refine ⟨⟨t.length * (R.size p + 1) + R.size p, fun fuel hfuel => ?_⟩, hiff⟩
  obtain ⟨b', hrun', hiff'⟩ := R.run_decides p t hfuel
  rw [hrun', Bool.eq_iff_iff.mpr (hiff'.trans hiff.symm)]

end Reader

end Lib
