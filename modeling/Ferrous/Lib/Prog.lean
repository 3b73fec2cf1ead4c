/-
# `Lib.Prog` — programs over a signature of fallible operations

A program calls operations of a signature `Op`, each of which answers or fails
with an error of type `ε`, and ends with a value, an error, or a panic.  The
store the operations act on is not part of the program: `Prog.run` executes it
over any state, given what one operation does there.  A fact about every
operation becomes a fact about every program by the rules of this file, so no
program is unfolded for it.
-/
import Mathlib.Data.List.Basic

namespace Lib

/-- How an operation or a program ends. -/
inductive Outcome (ε α : Type) : Type
  | ok (a : α)
  | err (e : ε)
  | panic
  deriving DecidableEq, Repr

/-- The value, if the end is one. -/
def Outcome.value? {ε α : Type} : Outcome ε α → Option α
  | .ok a => some a
  | _ => none

theorem Outcome.value?_eq_some {ε α : Type} {o : Outcome ε α} {a : α} : o.value? = some a ↔ o = .ok a := by
  cases o <;> simp [value?]

/-- A program over the operations `Op`.  The continuation of a call receives
the operation's error as well as its answer. -/
inductive Prog (Op : Type → Type) (ε α : Type) : Type 1
  | ret (a : α)
  | fail (e : ε)
  | panic
  | call {β : Type} (op : Op β) (k : Except ε β → Prog Op ε α)

namespace Prog

variable {Op : Type → Type} {ε α β γ σ : Type}

/-- Sequence: errors and panics of the first program end the whole. -/
def bind : Prog Op ε α → (α → Prog Op ε β) → Prog Op ε β
  | .ret a, f => f a
  | .fail e, _ => .fail e
  | .panic, _ => .panic
  | .call op k, f => .call op fun r => (k r).bind f

instance : Monad (Prog Op ε) where
  pure := .ret
  bind := bind

theorem bind_assoc (p : Prog Op ε α) (f : α → Prog Op ε β) (g : β → Prog Op ε γ) :
    (p.bind f).bind g = p.bind fun a => (f a).bind g := by
  induction p with
  | ret a => rfl
  | fail e => rfl
  | panic => rfl
  | call op k ih => exact congrArg (call op) (funext ih)

theorem bind_ret_id (p : Prog Op ε α) : p.bind ret = p := by
  induction p with
  | ret a => rfl
  | fail e => rfl
  | panic => rfl
  | call op k ih => exact congrArg (call op) (funext ih)

instance : LawfulMonad (Prog Op ε) :=
  LawfulMonad.mk' _ bind_ret_id (fun _ _ => rfl) bind_assoc

/-- Call an operation and receive its error as a value. -/
def attempt (op : Op β) : Prog Op ε (Except ε β) := .call op .ret

/-- Call an operation and pass its error on (`?`). -/
def perform (op : Op β) : Prog Op ε β :=
  .call op fun
    | .ok b => .ret b
    | .error e => .fail e

/-- Go on after an operation with its answer or its error; a panic ends the run. -/
def andThen (r : Outcome ε β × σ) (f : Except ε β → σ → Outcome ε α × σ) : Outcome ε α × σ :=
  match r with
  | (.ok b, s) => f (.ok b) s
  | (.err e, s) => f (.error e) s
  | (.panic, s) => (.panic, s)

/-- Execute a program, given what one operation does to the state. -/
def run (step : ∀ β : Type, Op β → σ → Outcome ε β × σ) : Prog Op ε α → σ → Outcome ε α × σ
  | .ret a, s => (.ok a, s)
  | .fail e, s => (.err e, s)
  | .panic, s => (.panic, s)
  | .call op k, s => andThen (step _ op s) fun r s' => (k r).run step s'

section Rules

variable (step : ∀ β : Type, Op β → σ → Outcome ε β × σ)

@[simp] theorem run_ret (a : α) (s : σ) : (ret a : Prog Op ε α).run step s = (.ok a, s) := rfl

@[simp] theorem run_fail (e : ε) (s : σ) : (fail e : Prog Op ε α).run step s = (.err e, s) := rfl

@[simp] theorem run_panic (s : σ) : (panic : Prog Op ε α).run step s = (.panic, s) := rfl

theorem run_call (op : Op β) (k : Except ε β → Prog Op ε α) (s : σ) :
    (call op k).run step s = andThen (step _ op s) fun r s' => (k r).run step s' := rfl

@[simp] theorem pure_eq_ret (a : α) : (pure a : Prog Op ε α) = .ret a := rfl

@[simp] theorem bind_eq (p : Prog Op ε α) (f : α → Prog Op ε β) : (p >>= f) = p.bind f := rfl

@[simp] theorem bind_ret (a : α) (f : α → Prog Op ε β) : (ret a).bind f = f a := rfl

@[simp] theorem bind_fail (e : ε) (f : α → Prog Op ε β) :
    (fail e : Prog Op ε α).bind f = .fail e := rfl

@[simp] theorem bind_panic (f : α → Prog Op ε β) :
    (panic : Prog Op ε α).bind f = .panic := rfl

@[simp] theorem bind_call (op : Op β) (k : Except ε β → Prog Op ε α) (f : α → Prog Op ε γ) :
    (call op k).bind f = call op fun r => (k r).bind f := rfl

/-- A run of a sequence is the run of its parts. -/
theorem run_bind (p : Prog Op ε α) (f : α → Prog Op ε β) (s : σ) :
    (p.bind f).run step s =
      andThen (p.run step s) fun r s' =>
        match r with
        | .ok a => (f a).run step s'
        | .error e => (.err e, s') := by
  induction p generalizing s with
  | ret a => rfl
  | fail e => rfl
  | panic => rfl
  | call op k ih =>
      simp only [bind, run_call]
      rcases step _ op s with ⟨_ | _ | _, s'⟩
      · exact ih _ s'
      · exact ih _ s'
      · rfl

/-- What follows a program that succeeds starts from the state it leaves. -/
theorem run_bind_of_ok {p : Prog Op ε α} {s s' : σ} {a : α} (h : p.run step s = (.ok a, s'))
    (f : α → Prog Op ε β) : (p.bind f).run step s = (f a).run step s' := by
  rw [run_bind, h]
  rfl

theorem run_perform_of_ok {op : Op β} {s s' : σ} {b : β} (h : step β op s = (.ok b, s')) :
    (perform op).run step s = (.ok b, s') := by
  rw [perform, run_call, h]
  rfl

/-- An operation whose error is passed on, and what follows its answer. -/
theorem run_perform_bind (op : Op β) (f : β → Prog Op ε α) (s : σ) :
    ((perform op).bind f).run step s =
      andThen (step β op s) fun r s' =>
        match r with
        | .ok b => (f b).run step s'
        | .error e => (.err e, s') := by
  rw [perform, bind_call, run_call]
  congr 1
  funext r s'
  cases r <;> rfl

/-- An attempt succeeds with the answer or with the error. -/
theorem run_attempt_of_ok {op : Op β} {s s' : σ} {b : β} (h : step β op s = (.ok b, s')) :
    (attempt op : Prog Op ε (Except ε β)).run step s = (.ok (.ok b), s') := by
  rw [attempt, run_call, h]
  rfl

@[inherit_doc run_attempt_of_ok]
theorem run_attempt_of_err {op : Op β} {s s' : σ} {e : ε} (h : step β op s = (.err e, s')) :
    (attempt op : Prog Op ε (Except ε β)).run step s = (.ok (.error e), s') := by
  rw [attempt, run_call, h]
  rfl

end Rules

/-! ## The operations of a program -/

/-- Every operation a program can call satisfies `P`, whatever it is answered. -/
def Uses (P : ∀ β : Type, Op β → Prop) : Prog Op ε α → Prop
  | .ret _ => True
  | .fail _ => True
  | .panic => True
  | .call op k => P _ op ∧ ∀ r, (k r).Uses P

namespace Uses

variable {P : ∀ β : Type, Op β → Prop}

protected theorem bind {p : Prog Op ε α} {f : α → Prog Op ε β} (hp : p.Uses P)
    (hf : ∀ a, (f a).Uses P) : (p.bind f).Uses P := by
  induction p with
  | ret a => exact hf a
  | fail e => trivial
  | panic => trivial
  | call op k ih => exact ⟨hp.1, fun r => ih r (hp.2 r)⟩

theorem attempt {op : Op β} (h : P β op) : (Prog.attempt op : Prog Op ε (Except ε β)).Uses P :=
  ⟨h, fun _ => trivial⟩

theorem perform {op : Op β} (h : P β op) : (Prog.perform op : Prog Op ε β).Uses P := by
  refine ⟨h, fun r => ?_⟩
  cases r with
  | ok b => trivial
  | error e => trivial

theorem mono {Q : ∀ β : Type, Op β → Prop} (h : ∀ (β : Type) (op : Op β), P β op → Q β op)
    {p : Prog Op ε α} (hp : p.Uses P) : p.Uses Q := by
  induction p with
  | ret a => trivial
  | fail e => trivial
  | panic => trivial
  | call op k ih => exact ⟨h _ op hp.1, fun r => ih r (hp.2 r)⟩

theorem and {Q : ∀ β : Type, Op β → Prop} {p : Prog Op ε α} (hp : p.Uses P) (hq : p.Uses Q) :
    p.Uses fun β op => P β op ∧ Q β op := by
  induction p with
  | ret a => trivial
  | fail e => trivial
  | panic => trivial
  | call op k ih => exact ⟨⟨hp.1, hq.1⟩, fun r => ih r (hp.2 r) (hq.2 r)⟩

/-- A relation between the state before and after that the operations of a
program establish, and that composes, holds across the program. -/
theorem run_rel {step : ∀ β : Type, Op β → σ → Outcome ε β × σ} {R : σ → σ → Prop}
    (hrefl : ∀ s, R s s) (htrans : ∀ s t u, R s t → R t u → R s u)
    (hstep : ∀ (β : Type) (op : Op β) (s : σ), P β op → R s (step β op s).2)
    {p : Prog Op ε α} (hp : p.Uses P) (s : σ) : R s (p.run step s).2 := by
  induction p generalizing s with
  | ret a => exact hrefl s
  | fail e => exact hrefl s
  | panic => exact hrefl s
  | call op k ih =>
      have h := hstep _ op s hp.1
      rw [run_call]
      rcases hop : step _ op s with ⟨_ | _ | _, s'⟩
      · rw [hop] at h
        exact htrans _ _ _ h (ih _ (hp.2 _) s')
      · rw [hop] at h
        exact htrans _ _ _ h (ih _ (hp.2 _) s')
      · rw [hop] at h
        exact h

/-- What the operations of a program keep, the program keeps. -/
theorem run_inv {step : ∀ β : Type, Op β → σ → Outcome ε β × σ} {I : σ → Prop}
    (hstep : ∀ (β : Type) (op : Op β) (s : σ), P β op → I s → I (step β op s).2)
    {p : Prog Op ε α} (hp : p.Uses P) {s : σ} (hs : I s) : I (p.run step s).2 :=
  hp.run_rel (R := fun s t => I s → I t) (fun _ h => h) (fun _ _ _ h g x => g (h x)) hstep s hs

end Uses

/-- What holds after an operation, its answer or its error known; nothing is
asked of a panic. -/
def Afterwards (r : Outcome ε β × σ) (Q : Except ε β → σ → Prop) : Prop :=
  match r with
  | (.ok b, s) => Q (.ok b) s
  | (.err e, s) => Q (.error e) s
  | (.panic, _) => True

/-- Every operation that is carried out from `s` meets `ok` where it is. -/
def Along (step : ∀ β : Type, Op β → σ → Outcome ε β × σ) (ok : ∀ β : Type, Op β → σ → Prop) :
    Prog Op ε α → σ → Prop
  | .ret _, _ => True
  | .fail _, _ => True
  | .panic, _ => True
  | .call op k, s => ok _ op s ∧ Afterwards (step _ op s) fun r s' => (k r).Along step ok s'

instance {r : Outcome ε β × σ} {Q : Except ε β → σ → Prop} [∀ r s, Decidable (Q r s)] :
    Decidable (Afterwards r Q) :=
  match r with
  | (.ok b, s) => inferInstanceAs (Decidable (Q (.ok b) s))
  | (.err e, s) => inferInstanceAs (Decidable (Q (.error e) s))
  | (.panic, _) => .isTrue trivial

instance Along.decidable {step : ∀ β : Type, Op β → σ → Outcome ε β × σ}
    {ok : ∀ β : Type, Op β → σ → Prop} [∀ β op s, Decidable (ok β op s)] :
    (p : Prog Op ε α) → (s : σ) → Decidable (p.Along step ok s)
  | .ret _, _ => .isTrue trivial
  | .fail _, _ => .isTrue trivial
  | .panic, _ => .isTrue trivial
  | .call _ k, _ =>
      have : ∀ r s, Decidable ((k r).Along step ok s) := fun r => Along.decidable (k r)
      inferInstanceAs (Decidable (_ ∧ Afterwards _ _))

/-- What the operations of a program keep where they meet `ok`, the program keeps
along which all do. -/
theorem Uses.along_inv {P : ∀ β : Type, Op β → Prop}
    {step : ∀ β : Type, Op β → σ → Outcome ε β × σ} {ok : ∀ β : Type, Op β → σ → Prop} {I : σ → Prop}
    (hstep : ∀ (β : Type) (op : Op β) (s : σ), P β op → I s → ok β op s → I (step β op s).2)
    {p : Prog Op ε α} (hp : p.Uses P) {s : σ} (h : p.Along step ok s) (hs : I s) :
    I (p.run step s).2 := by
  induction p generalizing s with
  | ret a => exact hs
  | fail e => exact hs
  | panic => exact hs
  | call op k ih =>
      obtain ⟨hop, hrest⟩ := h
      have hnext := hstep _ op s hp.1 hs hop
      rw [run_call]
      rcases hr : step _ op s with ⟨b | e | _, s'⟩
      all_goals rw [hr] at hrest hnext
      · exact ih _ (hp.2 _) hrest hnext
      · exact ih _ (hp.2 _) hrest hnext
      · exact hnext

theorem uses_true (p : Prog Op ε α) : p.Uses fun _ _ => True := by
  induction p with
  | ret a => trivial
  | fail e => trivial
  | panic => trivial
  | call op k ih => exact ⟨trivial, ih⟩

/-- What every operation that meets `ok` keeps, a program keeps along which all do. -/
theorem Along.inv {step : ∀ β : Type, Op β → σ → Outcome ε β × σ}
    {ok : ∀ β : Type, Op β → σ → Prop} {I : σ → Prop}
    (hstep : ∀ (β : Type) (op : Op β) (s : σ), I s → ok β op s → I (step β op s).2)
    {p : Prog Op ε α} {s : σ} (h : p.Along step ok s) (hs : I s) : I (p.run step s).2 :=
  (uses_true p).along_inv (fun β op s _ => hstep β op s) h hs

/-- A relation between the state before and after that every operation
establishes, and that composes, holds across every program. -/
theorem run_rel (step : ∀ β : Type, Op β → σ → Outcome ε β × σ) {R : σ → σ → Prop}
    (hrefl : ∀ s, R s s) (htrans : ∀ s t u, R s t → R t u → R s u)
    (hstep : ∀ (β : Type) (op : Op β) (s : σ), R s (step β op s).2)
    (p : Prog Op ε α) (s : σ) : R s (p.run step s).2 :=
  (uses_true p).run_rel hrefl htrans (fun β op s _ => hstep β op s) s

/-- What every operation keeps, every program keeps. -/
theorem run_inv (step : ∀ β : Type, Op β → σ → Outcome ε β × σ) {I : σ → Prop}
    (hstep : ∀ (β : Type) (op : Op β) (s : σ), I s → I (step β op s).2)
    (p : Prog Op ε α) {s : σ} (hs : I s) : I (p.run step s).2 :=
  (uses_true p).run_inv (fun β op s _ => hstep β op s) hs

/-! ## The results of a program -/

/-- Whatever the operations are answered, as far as `A` admits it, the values of
the program meet `P` and the errors it passes on meet `E`. -/
def Returns (A : ∀ β : Type, Op β → Except ε β → Prop) (E : ε → Prop) (P : α → Prop) :
    Prog Op ε α → Prop
  | .ret a => P a
  | .fail e => E e
  | .panic => True
  | .call op k => ∀ r, A _ op r → (k r).Returns A E P

namespace Returns

variable {A : ∀ β : Type, Op β → Except ε β → Prop} {E : ε → Prop} {P : α → Prop} {Q : β → Prop}

protected theorem bind {p : Prog Op ε α} {f : α → Prog Op ε β} (hp : p.Returns A E P)
    (hf : ∀ a, P a → (f a).Returns A E Q) : (p.bind f).Returns A E Q := by
  induction p with
  | ret a => exact hf a hp
  | fail e => exact hp
  | panic => trivial
  | call op k ih => exact fun r hr => ih r (hp r hr)

theorem attempt {op : Op β} :
    (Prog.attempt op : Prog Op ε (Except ε β)).Returns A E (fun r => A β op r) :=
  fun _ hr => hr

theorem perform {op : Op β} (h : ∀ e, A β op (.error e) → E e) :
    (Prog.perform op : Prog Op ε β).Returns A E (fun b => A β op (.ok b)) := by
  intro r hr
  cases r with
  | ok b => exact hr
  | error e => exact h e hr

theorem mono {P' : α → Prop} {p : Prog Op ε α} (hp : p.Returns A E P) (h : ∀ a, P a → P' a) :
    p.Returns A E P' := by
  induction p with
  | ret a => exact h a hp
  | fail e => exact hp
  | panic => trivial
  | call op k ih => exact fun r hr => ih r (hp r hr)

/-- An execution in which the operations answer as admitted ends accordingly. -/
theorem run {step : ∀ β : Type, Op β → σ → Outcome ε β × σ}
    (hstep : ∀ (β : Type) (op : Op β) (s : σ), Afterwards (step β op s) fun r _ => A β op r)
    {p : Prog Op ε α} (hp : p.Returns A E P) (s : σ) :
    Afterwards (p.run step s) fun r _ =>
      match r with
      | .ok a => P a
      | .error e => E e := by
  induction p generalizing s with
  | ret a => exact hp
  | fail e => exact hp
  | panic => trivial
  | call op k ih =>
      have hop := hstep _ op s
      rw [run_call]
      rcases hr : step _ op s with ⟨b | e | _, s'⟩
      all_goals rw [hr] at hop
      · exact ih _ (hp _ hop) s'
      · exact ih _ (hp _ hop) s'
      · trivial

end Returns

end Prog

end Lib
