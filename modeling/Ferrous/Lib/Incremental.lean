/-
# `Lib.Incremental` — decoders that are fed piece by piece

A decoder looks at the bytes it has and takes an item off their front, waits,
or crashes.  `exhaust` lets it work until it waits; `inPieces` does so after each
piece that arrives.  If what a decoder has decided is not changed by bytes that
come later, the pieces do not matter: `inPieces_eq`.
-/
import Mathlib.Data.List.Basic

namespace Lib

/-- What a decoder does with the bytes it has. -/
inductive Decoded (α β : Type)
  | item (a : α) (rest : List β)
  | wait
  | crash

/-- The items taken, whether the decoder crashed, and what is left. -/
structure Exhausted (α β : Type) where
  items : List α
  crashed : Bool
  rest : List β

section Exhaust

variable {α β : Type} (dec : List β → Decoded α β)

/-- Take items until the decoder waits or crashes, `n` at most. -/
def exhaust : Nat → List β → Exhausted α β
  | 0, l => ⟨[], false, l⟩
  | n + 1, l =>
      match dec l with
      | .item a rest => { exhaust n rest with items := a :: (exhaust n rest).items }
      | .wait => ⟨[], false, l⟩
      | .crash => ⟨[], true, l⟩

/-- A round of `exhaust` for all there is. -/
def exhaustAll (l : List β) : Exhausted α β := exhaust dec (l.length + 1) l

/-- Exhaust after each piece; a crash ends it. -/
def inPieces : List β → List (List β) → Exhausted α β
  | held, [] => ⟨[], false, held⟩
  | held, piece :: pieces =>
      let d := exhaustAll dec (held ++ piece)
      if d.crashed then ⟨d.items, true, d.rest ++ pieces.flatten⟩
      else
        let t := inPieces d.rest pieces
        { t with items := d.items ++ t.items }

/-- An item takes something, and what is decided stays decided. -/
structure Steady : Prop where
  shrinks : ∀ l a rest, dec l = .item a rest → rest.length < l.length
  item : ∀ l a rest more, dec l = .item a rest → dec (l ++ more) = .item a (rest ++ more)
  crash : ∀ l more, dec l = .crash → dec (l ++ more) = .crash

variable {dec}

/-- More rounds than elements change nothing. -/
theorem Steady.exhaust_eq (h : Steady dec) {n m : Nat} {l : List β} (hn : l.length < n)
    (hm : l.length < m) : exhaust dec n l = exhaust dec m l := by
  induction n generalizing m l with
  | zero => omega
  | succ n ih =>
      obtain ⟨m, rfl⟩ : ∃ k, m = k + 1 := ⟨m - 1, by omega⟩
      rw [exhaust, exhaust]
      cases hd : dec l with
      | wait => rfl
      | crash => rfl
      | item a rest =>
          have hlt := h.shrinks l a rest hd
          have hrest : exhaust dec n rest = exhaust dec m rest := ih (by omega) (by omega)
          simp only [hrest]

theorem Steady.exhaustAll_item (h : Steady dec) {l : List β} {a : α} {rest : List β}
    (hd : dec l = .item a rest) :
    exhaustAll dec l = { exhaustAll dec rest with items := a :: (exhaustAll dec rest).items } := by
  have hlt := h.shrinks l a rest hd
  have hrest : exhaust dec l.length rest = exhaust dec (rest.length + 1) rest :=
    h.exhaust_eq hlt (Nat.lt_succ_self _)
  simp only [exhaustAll, exhaust, hd, hrest]

theorem exhaustAll_wait {l : List β} (hd : dec l = .wait) : exhaustAll dec l = ⟨[], false, l⟩ := by
  simp only [exhaustAll, exhaust, hd]

theorem exhaustAll_crash {l : List β} (hd : dec l = .crash) : exhaustAll dec l = ⟨[], true, l⟩ := by
  simp only [exhaustAll, exhaust, hd]

/-- Exhausting what has come first, and then what is left of it with the rest, is
exhausting everything. -/
theorem Steady.exhaustAll_append (h : Steady dec) (l more : List β) :
    exhaustAll dec (l ++ more) =
      if (exhaustAll dec l).crashed then
        ⟨(exhaustAll dec l).items, true, (exhaustAll dec l).rest ++ more⟩
      else
        { exhaustAll dec ((exhaustAll dec l).rest ++ more) with
          items := (exhaustAll dec l).items ++
            (exhaustAll dec ((exhaustAll dec l).rest ++ more)).items } := by
  -- each item taken off the front leaves less
  induction hlen : l.length using Nat.strongRecOn generalizing l with
  | _ n ih =>
      cases hd : dec l with
      | wait => simp [exhaustAll_wait hd]
      | crash => simp [exhaustAll_crash hd, exhaustAll_crash (h.crash l more hd)]
      | item a rest =>
          have hlt := h.shrinks l a rest hd
          have hrest := ih rest.length (by omega) rest rfl
          rw [h.exhaustAll_item (h.item l a rest more hd), h.exhaustAll_item hd, hrest]
          by_cases hc : (exhaustAll dec rest).crashed <;> simp [hc]

/-- What is left without a crash is waited on. -/
theorem Steady.wait_rest (h : Steady dec) (l : List β) (hc : (exhaustAll dec l).crashed = false) :
    dec (exhaustAll dec l).rest = .wait := by
  induction hlen : l.length using Nat.strongRecOn generalizing l with
  | _ n ih =>
      cases hd : dec l with
      | wait => rwa [exhaustAll_wait hd]
      | crash => simp [exhaustAll_crash hd] at hc
      | item a rest =>
          have hlt := h.shrinks l a rest hd
          rw [h.exhaustAll_item hd] at hc ⊢
          exact ih rest.length (by omega) rest hc rfl

/-- However the input is cut into pieces, the same items come out. -/
theorem Steady.inPieces_eq (h : Steady dec) (held : List β) (pieces : List (List β))
    (hheld : dec held = .wait) :
    inPieces dec held pieces = exhaustAll dec (held ++ pieces.flatten) := by
  induction pieces generalizing held with
  | nil => rw [inPieces, List.flatten_nil, List.append_nil, exhaustAll_wait hheld]
  | cons piece pieces ih =>
      rw [inPieces, List.flatten_cons, ← List.append_assoc,
        h.exhaustAll_append (held ++ piece) pieces.flatten]
      cases hc : (exhaustAll dec (held ++ piece)).crashed with
      | true => simp only [if_true]
      | false =>
          simp only [Bool.false_eq_true, if_false]
          rw [ih _ (h.wait_rest _ hc)]

end Exhaust

end Lib
