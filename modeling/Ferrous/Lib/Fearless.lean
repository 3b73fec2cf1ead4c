/-
# `Lib.Fearless` — programs that do not panic

A program is `Fearless` if none of its paths panics, whatever its operations answer; what it calls
and what it ends with is said along the way, so that the rules compose.  Over operations that do
not panic, a run of it does not.
-/
import Ferrous.Lib.Codec

namespace Lib

variable {Op : Type → Type} {ε α β γ σ : Type}

namespace Prog

/-- No path panics, every operation called meets `P`, and every value ended with meets `Q`. -/
def Fearless (P : ∀ δ : Type, Op δ → Prop) (Q : α → Prop) : Prog Op ε α → Prop
  | .ret a => Q a
  | .fail _ => True
  | .panic => False
  | .call op k => P _ op ∧ ∀ r, (k r).Fearless P Q

namespace Fearless

variable {P : ∀ δ : Type, Op δ → Prop} {Q : α → Prop} {R : γ → Prop}

protected theorem bind {p : Prog Op ε α} {f : α → Prog Op ε γ} (hp : p.Fearless P Q)
    (hf : ∀ a, Q a → (f a).Fearless P R) : (p.bind f).Fearless P R := by
  induction p with
  | ret a => exact hf a hp
  | fail e => trivial
  | panic => exact hp.elim
  | call op k ih => exact ⟨hp.1, fun r => ih r (hp.2 r)⟩

theorem perform {op : Op α} (h : P α op) : (Prog.perform op : Prog Op ε α).Fearless P fun _ => True := by
  refine ⟨h, fun r => ?_⟩
  cases r <;> trivial

theorem attempt {op : Op α} (h : P α op) :
    (Prog.attempt op : Prog Op ε (Except ε α)).Fearless P fun _ => True :=
  ⟨h, fun _ => trivial⟩

theorem mono {Q' : α → Prop} {p : Prog Op ε α} (hp : p.Fearless P Q) (h : ∀ a, Q a → Q' a) :
    p.Fearless P Q' := by
  induction p with
  | ret a => exact h a hp
  | fail e => trivial
  | panic => exact hp
  | call op k ih => exact ⟨hp.1, fun r => ih r (hp.2 r)⟩

/-- Operations that do not panic make no run panic. -/
theorem run {step : ∀ δ : Type, Op δ → σ → Outcome ε δ × σ}
    (hstep : ∀ (δ : Type) (op : Op δ) (s : σ), P δ op → (step δ op s).1 ≠ .panic)
    {p : Prog Op ε α} (hp : p.Fearless P Q) (s : σ) : (p.run step s).1 ≠ .panic := by
  induction p generalizing s with
  | ret a =>
      intro h
      cases h
  | fail e =>
      intro h
      cases h
  | panic => exact hp.elim
  | call op k ih =>
      have hop := hstep _ op s hp.1
      rw [run_call]
      rcases hr : step _ op s with ⟨b | e | _, t⟩
      case ok => exact ih _ (hp.2 _) t
      case err => exact ih _ (hp.2 _) t
      case panic => exact absurd (congrArg Prod.fst hr) hop

end Fearless

end Prog

/-! ## Readers -/

/-- The reader is fearless on every list, and its answers meet `Q`. -/
def Fearless (P : ∀ δ : Type, Op δ → Prop) (d : StateT (List β) (Prog Op ε) α) (Q : α → Prop) : Prop :=
  ∀ bs, (d bs).Fearless P fun x => Q x.1

namespace Fearless

variable {P : ∀ δ : Type, Op δ → Prop} {Q : α → Prop} {R : γ → Prop}

theorem pure {a : α} (h : Q a) : Fearless P (Pure.pure a : StateT (List β) (Prog Op ε) α) Q := fun _ => h

theorem fails (e : ε) : Fearless P (fun _ => .fail e : StateT (List β) (Prog Op ε) α) Q := fun _ => trivial

theorem lift {p : Prog Op ε α} (h : p.Fearless P Q) :
    Fearless P (StateT.lift p : StateT (List β) (Prog Op ε) α) Q :=
  fun _ => h.bind fun _ ha => ha

protected theorem bind {d : StateT (List β) (Prog Op ε) α} {f : α → StateT (List β) (Prog Op ε) γ}
    (h : Fearless P d Q) (hf : ∀ a, Q a → Fearless P (f a) R) : Fearless P (d >>= f) R :=
  fun bs => (h bs).bind fun x hx => hf x.1 hx x.2

theorem mono {Q' : α → Prop} {d : StateT (List β) (Prog Op ε) α} (h : Fearless P d Q)
    (hQ : ∀ a, Q a → Q' a) : Fearless P d Q' :=
  fun bs => (h bs).mono fun x hx => hQ x.1 hx

theorem times {d : StateT (List β) (Prog Op ε) α} (h : Fearless P d fun _ => True) :
    ∀ n, Fearless P (Lib.times d n) fun _ => True
  | 0 => .pure trivial
  | n + 1 => h.bind fun _ _ => (times h n).bind fun _ _ => .pure trivial

end Fearless

end Lib
