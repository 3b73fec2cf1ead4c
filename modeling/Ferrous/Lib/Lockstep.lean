/-
# `Lib.Lockstep` — programs that call the same operations

Two programs go in lockstep if, whatever they are answered, they call the same operations in
the same order, and what they end with is related.  Then they leave every state the same.
`translate` carries out the operations of one signature by programs over another.
-/
import Ferrous.Lib.Prog

namespace Lib

namespace Prog

variable {Op Op' : Type → Type} {ε ε' α β γ δ σ : Type}

/-- The program that ends at once. -/
def ending : Outcome ε α → Prog Op ε α
  | .ok a => .ret a
  | .err e => .fail e
  | .panic => .panic

/-- The error a program passes on, as a value. -/
def catching : Prog Op ε α → Prog Op ε (Except ε α)
  | .ret a => .ret (.ok a)
  | .fail e => .ret (.error e)
  | .panic => .panic
  | .call op k => .call op fun r => (k r).catching

/-- The end of a program, whichever, as a value. -/
def reified : Prog Op ε α → Prog Op ε (Outcome ε α)
  | .ret a => .ret (.ok a)
  | .fail e => .ret (.err e)
  | .panic => .ret .panic
  | .call op k => .call op fun r => (k r).reified

/-- Carry out every operation by a program, whose value is the answer or the error. -/
def translate (run : ∀ β : Type, Op β → Prog Op' ε' (Except ε β)) : Prog Op ε α → Prog Op' ε' (Except ε α)
  | .ret a => .ret (.ok a)
  | .fail e => .ret (.error e)
  | .panic => .panic
  | .call op k => (run _ op).bind fun r => (k r).translate run

theorem Uses.catching {P : ∀ β : Type, Op β → Prop} {p : Prog Op ε α} (hp : p.Uses P) : p.catching.Uses P := by
  induction p with
  | ret a => trivial
  | fail e => trivial
  | panic => trivial
  | call op k ih => exact ⟨hp.1, fun r => ih r (hp.2 r)⟩

theorem Uses.reified {P : ∀ β : Type, Op β → Prop} {p : Prog Op ε α} (hp : p.Uses P) : p.reified.Uses P := by
  induction p with
  | ret a => trivial
  | fail e => trivial
  | panic => trivial
  | call op k ih => exact ⟨hp.1, fun r => ih r (hp.2 r)⟩

/-- What the programs for its operations call, the whole calls. -/
theorem Uses.translate {P : ∀ β : Type, Op' β → Prop} {Q : ∀ β : Type, Op β → Prop}
    {run : ∀ β : Type, Op β → Prog Op' ε' (Except ε β)} (hrun : ∀ (β : Type) (op : Op β), Q β op → (run β op).Uses P)
    {p : Prog Op ε α} (hp : p.Uses Q) : (p.translate run).Uses P := by
  induction p with
  | ret a => trivial
  | fail e => trivial
  | panic => trivial
  | call op k ih => exact (hrun _ op hp.1).bind fun r => ih r (hp.2 r)

/-- One program executed from two states: where its operations answer alike and keep a relation
of the states, it ends alike and keeps it. -/
theorem Uses.run_alike {P : ∀ β : Type, Op β → Prop} {step : ∀ β : Type, Op β → σ → Outcome ε β × σ}
    {I : σ → σ → Prop}
    (hstep : ∀ (β : Type) (op : Op β) (s t : σ), P β op → I s t →
      (step β op s).1 = (step β op t).1 ∧ I (step β op s).2 (step β op t).2)
    {p : Prog Op ε α} (hp : p.Uses P) {s t : σ} (h : I s t) :
    (p.run step s).1 = (p.run step t).1 ∧ I (p.run step s).2 (p.run step t).2 := by
  induction p generalizing s t with
  | ret a => exact ⟨rfl, h⟩
  | fail e => exact ⟨rfl, h⟩
  | panic => exact ⟨rfl, h⟩
  | call op k ih =>
      obtain ⟨hanswer, hnext⟩ := hstep _ op s t hp.1 h
      rw [run_call, run_call]
      rcases hs : step _ op s with ⟨b | e | _, s'⟩
      all_goals
        rcases ht : step _ op t with ⟨r, t'⟩
        rw [hs, ht] at hanswer hnext
        cases hanswer
      · exact ih _ (hp.2 _) hnext
      · exact ih _ (hp.2 _) hnext
      · exact ⟨rfl, hnext⟩

/-! ## Lockstep -/

/-- The two programs call the same operations, and their ends are related by `R`. -/
inductive Lockstep (R : Outcome ε α → Outcome ε β → Prop) : Prog Op ε α → Prog Op ε β → Prop
  | ending {a : Outcome ε α} {b : Outcome ε β} (h : R a b) : Lockstep R (.ending a) (.ending b)
  | call {γ : Type} (op : Op γ) {k : Except ε γ → Prog Op ε α} {l : Except ε γ → Prog Op ε β}
      (h : ∀ r, Lockstep R (k r) (l r)) : Lockstep R (.call op k) (.call op l)

namespace Lockstep

variable {R S : Outcome ε α → Outcome ε β → Prop} {p : Prog Op ε α} {q : Prog Op ε β}

theorem ret {a : α} {b : β} (h : R (.ok a) (.ok b)) : @Lockstep Op ε α β R (.ret a) (.ret b) :=
  .ending (a := .ok a) (b := .ok b) h

theorem fail {e e' : ε} (h : R (.err e) (.err e')) : @Lockstep Op ε α β R (.fail e) (.fail e') :=
  .ending (a := .err e) (b := .err e') h

theorem fail_ret {e : ε} {b : β} (h : R (.err e) (.ok b)) : @Lockstep Op ε α β R (.fail e) (.ret b) :=
  .ending (a := .err e) (b := .ok b) h

theorem panic (h : R .panic .panic) : @Lockstep Op ε α β R .panic .panic :=
  .ending (a := .panic) (b := .panic) h

theorem refl {R : Outcome ε α → Outcome ε α → Prop} (hR : ∀ a, R a a) (p : Prog Op ε α) : Lockstep R p p := by
  induction p with
  | ret a => exact ret (hR _)
  | fail e => exact fail (hR _)
  | panic => exact panic (hR _)
  | call op k ih => exact call op ih

theorem mono (hRS : ∀ a b, R a b → S a b) (h : Lockstep R p q) : Lockstep S p q := by
  induction h with
  | ending h => exact ending (hRS _ _ h)
  | call op h ih => exact call op ih

/-- Programs in lockstep, each followed by what its end asks for. -/
theorem bind {S : Outcome ε γ → Outcome ε δ → Prop} {f : α → Prog Op ε γ} {g : β → Prog Op ε δ}
    (h : Lockstep R p q)
    (hf : ∀ a b, R a b → Lockstep S ((Prog.ending a).bind f) ((Prog.ending b).bind g)) :
    Lockstep S (p.bind f) (q.bind g) := by
  induction h with
  | ending h => exact hf _ _ h
  | call op h ih => exact call op ih

/-- An operation whose error both pass on. -/
theorem perform {op : Op γ} {f : γ → Prog Op ε α} {g : γ → Prog Op ε β} (he : ∀ e, R (.err e) (.err e))
    (h : ∀ c, Lockstep R (f c) (g c)) : Lockstep R ((Prog.perform op).bind f) ((Prog.perform op).bind g) := by
  refine call op fun r => ?_
  cases r with
  | ok c => exact h c
  | error e => exact fail (he e)

/-- Executed from one state they leave one state, and end related. -/
theorem run {step : ∀ β : Type, Op β → σ → Outcome ε β × σ} (hpanic : R .panic .panic) (h : Lockstep R p q)
    (s : σ) : (p.run step s).2 = (q.run step s).2 ∧ R (p.run step s).1 (q.run step s).1 := by
  induction h generalizing s with
  | @ending a b h => cases a <;> cases b <;> exact ⟨rfl, h⟩
  | call op h ih =>
      rw [run_call, run_call]
      rcases step _ op s with ⟨_ | _ | _, s'⟩
      · exact ih _ s'
      · exact ih _ s'
      · exact ⟨rfl, hpanic⟩

/-- What one of two programs in lockstep calls, the other calls. -/
theorem uses {P : ∀ β : Type, Op β → Prop} (h : Lockstep R p q) (hq : q.Uses P) : p.Uses P := by
  induction h with
  | @ending a b h => cases a <;> trivial
  | call op h ih => exact ⟨hq.1, fun r => ih r (hq.2 r)⟩

end Lockstep

end Prog

end Lib
