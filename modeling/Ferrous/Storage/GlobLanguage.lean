/-
# `Storage.GlobLanguage` — what the glob matcher decides

The language of a pattern, rule by rule, and the matcher of the engine as an
instance of the matcher with one remembered star: it reads a pattern as stars
and items, a closed class being one item.
-/
import Ferrous.Lib.Wildcard
import Ferrous.Storage.Glob
import Mathlib.Data.List.TakeWhile

namespace Ferrous

open Lib

namespace Glob

/-! ## The language -/

/-- The ranges of a class body; a member is a range of its own. -/
def classRanges : List Char → List (Char × Char)
  | a :: '-' :: b :: rest => (a, b) :: classRanges rest
  | a :: rest => (a, a) :: classRanges rest
  | [] => []

/-- The character is in a range of the body. -/
def ClassMember (t : Char) (body : List Char) : Prop := ∃ r ∈ classRanges body, r.1 ≤ t ∧ t ≤ r.2

/-- The texts of a pattern.  A `[` without a `]` behind it has none. -/
inductive Denotes : List Char → List Char → Prop
  | nil : Denotes [] []
  | star {p v : List Char} (u : List Char) : Denotes p v → Denotes ('*' :: p) (u ++ v)
  | any {p v : List Char} (t : Char) : Denotes p v → Denotes ('?' :: p) (t :: v)
  | positive {body p v : List Char} {t : Char} : ']' ∉ body → body.head? ≠ some '^' → ClassMember t body →
      Denotes p v → Denotes ('[' :: (body ++ ']' :: p)) (t :: v)
  | negative {body p v : List Char} {t : Char} : ']' ∉ body → ¬ ClassMember t body →
      Denotes p v → Denotes ('[' :: '^' :: (body ++ ']' :: p)) (t :: v)
  | escaped {p v : List Char} (c : Char) : Denotes p v → Denotes ('\\' :: c :: p) (c :: v)
  | backslash : Denotes ['\\'] ['\\']
  | itself {p v : List Char} (c : Char) : c ∉ ['*', '?', '[', '\\'] → Denotes p v → Denotes (c :: p) (c :: v)

/-! ## Pieces of a pattern -/

/-- What stands behind the class that starts after `[`. -/
def behindClass (ps : List Char) : List Char := (ps.dropWhile (· ≠ ']')).tail

/-- How a pattern goes on. -/
def piece : List Char → Piece (List Char) Char
  | [] => .done
  | p :: ps =>
      if p = '?' then .item (fun _ => true) ps
      else if p = '*' then .star ps
      else if p = '[' then .item (fun t => (matchClass ps t).isSome) (behindClass ps)
      else
        match p, ps with
        | '\\', c :: ps => .item (c == ·) ps
        | _, _ => .item (p == ·) ps

theorem length_behindClass (ps : List Char) : (behindClass ps).length ≤ ps.length := by
  rw [behindClass, List.length_tail]
  exact Nat.le_trans (Nat.sub_le _ _) (List.dropWhile_sublist _).length_le

theorem piece_star {p q : List Char} (h : piece p = .star q) : p = '*' :: q := by
  unfold piece at h
  split at h
  · cases h
  · split at h
    · cases h
    · split at h
      · next hp =>
          cases h
          rw [hp]
      · split at h
        · cases h
        · split at h <;> cases h

theorem piece_item {p q : List Char} {a : Char → Bool} (h : piece p = .item a q) : q.length < p.length := by
  unfold piece at h
  split at h
  · cases h
  · next p ps =>
      split at h
      · cases h
        exact Nat.lt_succ_self _
      · split at h
        · cases h
        · split at h
          · cases h
            exact Nat.lt_succ_of_le (length_behindClass ps)
          · split at h
            · cases h
              simp only [List.length_cons]
              omega
            · cases h
              exact Nat.lt_succ_self _

theorem piece_done {p : List Char} (h : piece p = .done) : p = [] := by
  unfold piece at h
  split at h
  · rfl
  · split at h
    · cases h
    · split at h
      · cases h
      · split at h
        · cases h
        · split at h <;> cases h

/-- The engine's patterns, read piece by piece. -/
def reader : Reader (List Char) Char where
  read := piece
  ends ps := ps.all (· == '*')
  size := List.length
  star_lt h := piece_star h ▸ Nat.lt_succ_self _
  item_lt h := piece_item h
  ends_done h := by rw [piece_done h, List.all_nil]
  ends_star h := by rw [piece_star h, List.all_cons, beq_self_eq_true, Bool.true_and]
  ends_item {p a q} h := by
    cases p with
    | nil => cases h
    | cons p ps =>
        by_cases hp : p = '*'
        · subst hp
          cases h
        · rw [List.all_cons, beq_eq_false_iff_ne.mpr hp, Bool.false_and]

/-! ## The loop -/

theorem matchClass_eq_some {ps rest : List Char} {t : Char} (h : matchClass ps t = some rest) :
    rest = behindClass ps := by
  unfold matchClass at h
  unfold behindClass
  cases hd : ps.dropWhile (· ≠ ']') with
  | nil =>
      rw [hd] at h
      cases h
  | cons x rest' =>
      rw [hd] at h
      dsimp only at h
      split at h
      · split at h
        · exact (Option.some.inj h).symm
        · cases h
      · split at h
        · exact (Option.some.inj h).symm
        · cases h

/-- Going back to the last star, one character further on. -/
def goBack (fuel : Nat) : Option (List Char × List Char) → Bool
  | some (ps, _ :: ts) => loop fuel ps ts (some (ps, ts))
  | _ => false

/-- One round of the loop, by the piece it meets. -/
theorem loop_cons (fuel : Nat) (ps : List Char) (t : Char) (ts : List Char)
    (star : Option (List Char × List Char)) :
    loop (fuel + 1) ps (t :: ts) star =
      match piece ps with
      | .done => goBack fuel star
      | .star q => loop fuel q (t :: ts) (some (q, t :: ts))
      | .item a q => if a t then loop fuel q ts star else goBack fuel star := by
  conv_lhs => unfold loop
  unfold piece
  dsimp only
  cases ps with
  | nil => rfl
  | cons p ps =>
      dsimp only
      split
      · rfl
      · split
        · rfl
        · split
          · split
            · next rest hm =>
                simp only [hm, Option.isSome_some, if_true, matchClass_eq_some hm]
            · next hm =>
                simp only [hm, Option.isSome_none, Bool.false_eq_true, if_false]
                rfl
          · split
            · simp only [beq_iff_eq]
              rfl
            · simp only [beq_iff_eq]
              rfl

/-- The loop of the source is the matcher with one remembered star. -/
theorem loop_eq_run (fuel : Nat) (ps ts : List Char) (star : Option (List Char × List Char)) :
    loop fuel ps ts star = (reader.run fuel ⟨ps, ts, star⟩).getD false := by
  induction fuel generalizing ps ts star with
  | zero => rfl
  | succ fuel ih =>
      cases ts with
      | nil => rfl
      | cons t ts =>
          have hback : goBack fuel star =
              ((Reader.back star).elim some (reader.run fuel)).getD false := by
            rcases star with _ | ⟨q, _ | ⟨x, ts'⟩⟩
            · rfl
            · rfl
            · exact ih _ _ _
          have hread : reader.read ps = piece ps := rfl
          rw [loop_cons, Reader.run_succ]
          cases hp : piece ps with
          | done =>
              simp only [Reader.turn, hread, hp]
              exact hback
          | star q =>
              simp only [Reader.turn, hread, hp]
              exact ih _ _ _
          | item a q =>
              simp only [Reader.turn, hread, hp]
              cases a t with
              | true => exact ih _ _ _
              | false => exact hback

/-! ## The two languages are one -/

theorem inClass_iff (t : Char) (body : List Char) : inClass t body = true ↔ ClassMember t body := by
  unfold ClassMember
  fun_induction inClass t body with
  | case1 a b rest ih =>
      rw [Bool.or_eq_true, Bool.and_eq_true, decide_eq_true_eq, decide_eq_true_eq, ih, classRanges,
        List.exists_mem_cons_iff]
  | case2 a rest hne ih =>
      have hmember : a == t ↔ a ≤ t ∧ t ≤ a := by
        rw [beq_iff_eq]
        exact ⟨fun h => h ▸ ⟨Char.le_refl a, Char.le_refl a⟩, fun h => Char.le_antisymm h.1 h.2⟩
      rw [Bool.or_eq_true, ih, classRanges, List.exists_mem_cons_iff]
      · exact or_congr_left hmember
      · exact hne
  | case3 => simp [classRanges]

/-- A class ends at the first `]`. -/
theorem dropWhile_class {body rest : List Char} (h : ']' ∉ body) :
    (body ++ ']' :: rest).dropWhile (· ≠ ']') = ']' :: rest ∧
      (body ++ ']' :: rest).takeWhile (· ≠ ']') = body := by
  have hne : ∀ c ∈ body, decide (c ≠ ']') = true := fun c hc => decide_eq_true fun heq => h (heq ▸ hc)
  rw [List.dropWhile_append_of_pos hne, List.takeWhile_append_of_pos hne]
  simp

/-- A closed class accepts its members, or with `^` in front what is none of them. -/
theorem matchClass_closed {body rest : List Char} (h : ']' ∉ body) (t : Char) :
    (matchClass (body ++ ']' :: rest) t).isSome = true ↔
      body.head? ≠ some '^' ∧ ClassMember t body ∨ ∃ body', body = '^' :: body' ∧ ¬ ClassMember t body' := by
  obtain ⟨hdrop, htake⟩ := @dropWhile_class body rest h
  unfold matchClass
  rw [hdrop, htake]
  dsimp only
  split
  · next body' =>
      simp only [List.head?_cons, ne_eq, not_true_eq_false, false_and, false_or, List.cons.injEq, true_and,
        exists_eq_left', ← inClass_iff]
      cases inClass t body' <;> simp
  · next hne =>
      have hhead : body.head? ≠ some '^' := by
        intro hhead
        obtain ⟨body', hbody⟩ := List.head?_eq_some_iff.mp hhead
        exact hne body' hbody
      have hno : ¬ ∃ body', body = '^' :: body' ∧ ¬ ClassMember t body' := fun ⟨body', hbody, _⟩ => hne body' hbody
      rw [or_iff_left hno, and_iff_right hhead, ← inClass_iff]
      cases inClass t body <;> simp

/-- A class that is not closed accepts nothing. -/
theorem matchClass_open {ps : List Char} (h : ']' ∉ ps) (t : Char) : matchClass ps t = none := by
  have hdrop : ps.dropWhile (· ≠ ']') = [] := by
    refine List.dropWhile_eq_nil_iff.mpr fun c hc => ?_
    exact decide_eq_true fun heq => h (heq ▸ hc)
  unfold matchClass
  rw [hdrop]

theorem piece_class (ps : List Char) :
    piece ('[' :: ps) = .item (fun t => (matchClass ps t).isSome) (behindClass ps) := rfl

theorem piece_itself {c : Char} (h : c ∉ ['*', '?', '[', '\\']) (ps : List Char) :
    piece (c :: ps) = .item (c == ·) ps := by
  simp only [List.mem_cons, List.not_mem_nil, or_false, not_or] at h
  obtain ⟨hstar, hany, hclass, hescape⟩ := h
  unfold piece
  dsimp only
  rw [if_neg hany, if_neg hstar, if_neg hclass]
  split
  · exact absurd rfl hescape
  · rfl

/-- What the rules give, the pieces give. -/
theorem Denotes.language {ps ts : List Char} (h : Denotes ps ts) : reader.Language ps ts := by
  induction h with
  | nil => exact .done rfl
  | star u _ ih => exact .star u rfl ih
  | any t _ ih => exact .item rfl rfl ih
  | positive hbody hhead hmember _ ih =>
      refine .item (piece_class _) ((matchClass_closed hbody _).mpr (.inl ⟨hhead, hmember⟩)) ?_
      rw [behindClass, (dropWhile_class hbody).1]
      exact ih
  | @negative body p v t hbody hmember _ ih =>
      have hbody' : ']' ∉ '^' :: body := by simpa using hbody
      refine .item (piece_class ('^' :: (body ++ ']' :: p)))
        ((matchClass_closed hbody' _).mpr (.inr ⟨body, rfl, hmember⟩)) ?_
      rw [← List.cons_append, behindClass, (dropWhile_class hbody').1]
      exact ih
  | escaped c _ ih => exact .item rfl (beq_self_eq_true c) ih
  | backslash => exact .item rfl (beq_self_eq_true _) (.done rfl)
  | itself c hc _ ih => exact .item (piece_itself hc _) (beq_self_eq_true c) ih

/-- What the pieces give, the rules give. -/
theorem denotes_of_language {ps ts : List Char} (h : reader.Language ps ts) : Denotes ps ts := by
  induction h with
  | done hdone => exact piece_done hdone ▸ .nil
  | star u hstar _ ih => exact piece_star hstar ▸ .star u ih
  | @item p q a t v hitem ht _ ih =>
      have hitem : piece p = .item a q := hitem
      cases p with
      | nil => cases hitem
      | cons c ps =>
          by_cases hc : c ∈ ['*', '?', '[', '\\']
          · simp only [List.mem_cons, List.not_mem_nil, or_false] at hc
            rcases hc with rfl | rfl | rfl | rfl
            · cases hitem
            · cases hitem
              exact .any t ih
            · cases hitem
              by_cases hclosed : ']' ∈ ps
              · obtain ⟨body, rest, rfl, hbody⟩ := List.eq_append_cons_of_mem hclosed
                rw [behindClass, (dropWhile_class hbody).1] at ih
                rcases (matchClass_closed hbody t).mp ht with ⟨hhead, hmember⟩ | ⟨body', rfl, hmember⟩
                · exact .positive hbody hhead hmember ih
                · exact .negative (fun hin => hbody (List.mem_cons_of_mem _ hin)) hmember ih
              · have ht : (matchClass ps t).isSome = true := ht
                rw [matchClass_open hclosed] at ht
                cases ht
            · cases ps with
              | nil =>
                  cases hitem
                  obtain rfl := beq_iff_eq.mp ht
                  cases ih with
                  | nil => exact .backslash
              | cons c ps =>
                  cases hitem
                  obtain rfl := beq_iff_eq.mp ht
                  exact .escaped c ih
          · cases (piece_itself hc ps).symm.trans hitem
            obtain rfl := beq_iff_eq.mp ht
            exact .itself c hc ih

/-- The loop of `pattern_matches` ends and decides the language of the pattern. -/
theorem patternMatches_decides (pattern text : String) :
    (∃ n, ∀ fuel, n < fuel →
        reader.run fuel ⟨pattern.toList, text.toList, none⟩ = some (patternMatches pattern text)) ∧
      (patternMatches pattern text = true ↔ Denotes pattern.toList text.toList) := by
  have hmatches : patternMatches pattern text =
      (reader.run ((text.toList.length + 1) * (pattern.toList.length + 2))
        ⟨pattern.toList, text.toList, none⟩).getD false := loop_eq_run _ _ _ _
  have hdecides := reader.decides_of_fuel hmatches
  exact ⟨hdecides.1, hdecides.2.trans ⟨denotes_of_language, Denotes.language⟩⟩

/-- A pattern without special characters has itself as its only text. -/
theorem denotes_literal {p t : List Char} (h : ∀ c ∈ p, c ∉ ['*', '?', '[', '\\']) : Denotes p t ↔ t = p := by
  constructor
  · intro ht
    induction ht with
    | nil => rfl
    | star u _ _ => exact absurd (by simp) (h '*' List.mem_cons_self)
    | any t _ _ => exact absurd (by simp) (h '?' List.mem_cons_self)
    | positive _ _ _ _ _ => exact absurd (by simp) (h '[' List.mem_cons_self)
    | negative _ _ _ _ => exact absurd (by simp) (h '[' List.mem_cons_self)
    | escaped c _ _ => exact absurd (by simp) (h '\\' List.mem_cons_self)
    | backslash => rfl
    | itself c _ _ ih => rw [ih fun d hd => h d (List.mem_cons_of_mem c hd)]
  · rintro rfl
    induction t with
    | nil => exact .nil
    | cons c t ih => exact .itself c (h c List.mem_cons_self) (ih fun d hd => h d (List.mem_cons_of_mem c hd))

end Glob

end Ferrous
