/-
# `Lib.Truncation` — readers of a list that is cut off

A reader whose list is cut off goes the way it goes on the whole list, until it asks for what
was cut off.  `Prog.Cut` says so of two programs, and of the whole list's program that it leaves
less than the part cut off wherever the other falls short; `Truncates` says it of a reader, whose
rules follow its shape.  From one `Cut` both sides of a truncation can be read: how much of a list
is enough, and that less of it is refused.
-/
import Ferrous.Lib.Codec

namespace Lib

variable {Op : Type → Type} {ε α β γ σ : Type}

namespace Prog

/-- Wherever the program ends with a value, `P` holds of it. -/
abbrev Ends (P : α → Prop) (p : Prog Op ε α) : Prop :=
  p.Returns (fun _ _ _ => True) (fun _ => True) P

theorem ends_true (p : Prog Op ε α) : p.Ends fun _ => True := by
  induction p with
  | ret a => trivial
  | fail e => trivial
  | panic => trivial
  | call op k ih => exact fun r _ => ih r

/-- What a run answers, the program may end with. -/
theorem Returns.of_run {P : α → Prop} {p : Prog Op ε α} (h : p.Ends P)
    {step : ∀ δ : Type, Op δ → σ → Outcome ε δ × σ} {s s' : σ} {a : α}
    (hrun : p.run step s = (.ok a, s')) : P a := by
  have hstep : ∀ (δ : Type) (op : Op δ) (s : σ), Afterwards (step δ op s) fun _ _ => True := by
    intro δ op s
    unfold Afterwards
    split <;> trivial
  have hafter := h.run hstep s
  rw [hrun] at hafter
  exact hafter

/-- `p` reads a list to whose end `tail` is missing, and `q` the whole of it. -/
inductive Cut (short : ε) (tail : List β) :
    Prog Op ε (α × List β) → Prog Op ε (α × List β) → Prop
  | ret (a : α) (rest : List β) : Cut short tail (.ret (a, rest)) (.ret (a, rest ++ tail))
  | short {q : Prog Op ε (α × List β)} (h : q.Ends fun x => x.2.length < tail.length) :
      Cut short tail (.fail short) q
  | fail (e : ε) : Cut short tail (.fail e) (.fail e)
  | panic : Cut short tail .panic .panic
  | call {δ : Type} (op : Op δ) {k k' : Except ε δ → Prog Op ε (α × List β)}
      (h : ∀ r, Cut short tail (k r) (k' r)) : Cut short tail (.call op k) (.call op k')

namespace Cut

variable {short : ε} {tail : List β} {p q : Prog Op ε (α × List β)}

protected theorem bind {P : α × List β → Prop} {f g : α × List β → Prog Op ε (γ × List β)}
    (h : Cut short tail p q) (hp : p.Ends P)
    (hf : ∀ a rest, P (a, rest) → Cut short tail (f (a, rest)) (g (a, rest ++ tail)))
    (hg : ∀ x, (g x).Ends fun y => y.2.length ≤ x.2.length) :
    Cut short tail (p.bind f) (q.bind g) := by
  induction h with
  | ret a rest => exact hf a rest hp
  | short hq => exact .short (hq.bind fun x hx => (hg x).mono fun y hy => Nat.lt_of_le_of_lt hy hx)
  | fail e => exact .fail e
  | panic => exact .panic
  | call op h ih => exact .call op fun r => ih r (hp r trivial)

section Run

variable {step : ∀ δ : Type, Op δ → σ → Outcome ε δ × σ}

/-- What is enough stays enough, whatever stands behind it. -/
theorem run_append (h : Cut short tail p q) {a : α} {rest : List β} {s s' : σ}
    (hp : p.run step s = (.ok (a, rest), s')) : q.run step s = (.ok (a, rest ++ tail), s') := by
  induction h generalizing s with
  | ret b rest' =>
      cases hp
      rfl
  | short hq => cases hp
  | fail e => cases hp
  | panic => cases hp
  | call op h ih =>
      rw [run_call] at hp ⊢
      rcases hop : step _ op s with ⟨b | e | _, t⟩
      all_goals rw [hop] at hp
      case ok => exact ih _ hp
      case err => exact ih _ hp
      case panic => cases hp

/-- The list without its tail is read as the whole is read, if that leaves the tail unread. -/
theorem run_enough (h : Cut short tail p q) {a : α} {rest : List β} {s s' : σ}
    (hq : q.run step s = (.ok (a, rest), s')) (hle : tail.length ≤ rest.length) :
    ∃ rest', rest = rest' ++ tail ∧ p.run step s = (.ok (a, rest'), s') := by
  induction h generalizing s with
  | ret b rest' =>
      cases hq
      exact ⟨rest', rfl, rfl⟩
  | short hends => exact absurd (hends.of_run hq) (Nat.not_lt.mpr hle)
  | fail e => cases hq
  | panic => cases hq
  | call op h ih =>
      simp only [run_call] at hq ⊢
      rcases hop : step _ op s with ⟨b | e | _, t⟩
      all_goals rw [hop] at hq
      case ok => exact ih _ hq
      case err => exact ih _ hq
      case panic => cases hq

/-- If the whole list is read into its tail, without the tail it is too short. -/
theorem run_short (h : Cut short tail p q) {a : α} {rest : List β} {s s' : σ}
    (hq : q.run step s = (.ok (a, rest), s')) (hlt : rest.length < tail.length) :
    ∃ s'', p.run step s = (.err short, s'') := by
  induction h generalizing s with
  | ret b rest' =>
      cases hq
      rw [List.length_append] at hlt
      omega
  | short hends => exact ⟨s, rfl⟩
  | fail e => cases hq
  | panic => cases hq
  | call op h ih =>
      simp only [run_call] at hq ⊢
      rcases hop : step _ op s with ⟨b | e | _, t⟩
      all_goals rw [hop] at hq
      case ok => exact ih _ hq
      case err => exact ih _ hq
      case panic => cases hq

end Run

end Cut

end Prog

/-! ## Readers -/

/-- The reader leaves a part of its list, and reads a list that is cut off as it reads the whole. -/
structure Truncates (short : ε) (d : StateT (List β) (Prog Op ε) α) : Prop where
  leaves : ∀ bs, (d bs).Ends fun x => x.2.length ≤ bs.length
  cut : ∀ bs tail, Prog.Cut short tail (d bs) (d (bs ++ tail))

namespace Truncates

variable {short : ε}

theorem pure (a : α) : Truncates short (Pure.pure a : StateT (List β) (Prog Op ε) α) where
  leaves _ := Nat.le_refl _
  cut bs _ := .ret a bs

theorem fails (e : ε) : Truncates short (fun _ => .fail e : StateT (List β) (Prog Op ε) α) where
  leaves _ := trivial
  cut _ _ := .fail e

theorem panics : Truncates short (fun _ => .panic : StateT (List β) (Prog Op ε) α) where
  leaves _ := trivial
  cut _ _ := .panic

/-- What reads nothing is the same on every list. -/
theorem lift (p : Prog Op ε α) : Truncates short (StateT.lift p : StateT (List β) (Prog Op ε) α) where
  leaves bs := (Prog.ends_true p).bind fun _ _ => Nat.le_refl _
  cut bs tail := by
    show Prog.Cut short tail (p.bind fun a => .ret (a, bs)) (p.bind fun a => .ret (a, bs ++ tail))
    induction p with
    | ret a => exact .ret a bs
    | fail e => exact .fail e
    | panic => exact .panic
    | call op k ih => exact .call op ih

protected theorem bind {d : StateT (List β) (Prog Op ε) α} {f : α → StateT (List β) (Prog Op ε) γ}
    (h : Truncates short d) (hf : ∀ a, Truncates short (f a)) : Truncates short (d >>= f) where
  leaves bs := (h.leaves bs).bind fun x hx =>
    ((hf x.1).leaves x.2).mono fun _ hy => Nat.le_trans hy hx
  cut bs tail := by
    show Prog.Cut short tail ((d bs).bind fun x => f x.1 x.2) ((d (bs ++ tail)).bind fun x => f x.1 x.2)
    exact (h.cut bs tail).bind (Prog.ends_true _) (fun a rest _ => (hf a).cut rest tail) fun x =>
      (hf x.1).leaves x.2

theorem times {d : StateT (List β) (Prog Op ε) α} (h : Truncates short d) :
    ∀ n, Truncates short (Lib.times d n)
  | 0 => .pure []
  | n + 1 => h.bind fun _ => (times h n).bind fun _ => .pure _

end Truncates

end Lib
