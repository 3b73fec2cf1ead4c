/-
# `Protocol.Stability` — a verdict does not change when bytes are appended

`Settles` says of a parser that its frames and its panics stay.  Here its errors
stay too: each kind of frame tests for its end in its own way, and every one of
them complains only of bytes that it has.  So the one verdict of `parse_frame`
that more bytes can change is the request for more.
-/
import Ferrous.Protocol.Feed

namespace Ferrous

namespace RespFrame

/-- What the first parser decides, complaints included, the second decides in the
same way when more bytes follow. -/
structure Stable {α : Type} (p q : Bytes → Parsed α) : Prop extends Settles p q where
  error : ∀ data e, p data = .error e → ∀ rest, q (data ++ rest) = .error e

namespace Stable

variable {α β : Type} {p q : Bytes → Parsed α}

/-- Sequencing: the first parser complains, or what goes on behind its result does. -/
theorem bind {f g : Bytes → α → Nat → Parsed β} (h : Stable p q)
    (hsettles : Settles (fun data => (p data).bind (f data)) (fun data => (q data).bind (g data)))
    (herror : ∀ data a c e, c ≤ data.length → f data a c = .error e →
      ∀ rest, g (data ++ rest) a c = .error e) :
    Stable (fun data => (p data).bind (f data)) (fun data => (q data).bind (g data)) where
  toSettles := hsettles
  error data e hf rest := by
    cases hp : p data with
    | done a c =>
        obtain ⟨hle, hq⟩ := h.done data a c hp
        rw [hp, Parsed.bind_done] at hf
        rw [hq rest, Parsed.bind_done, herror data a c e hle hf rest]
    | more => simp [hp] at hf
    | error e' =>
        rw [hp, Parsed.bind_error] at hf
        obtain rfl := Parsed.error.inj hf
        rw [h.error data e' hp rest, Parsed.bind_error]
    | panic => simp [hp] at hf

theorem map (h : Stable p q) (f : α → β) :
    Stable (fun data => (p data).bind fun a c => .done (f a) c)
      (fun data => (q data).bind fun a c => .done (f a) c) :=
  h.bind (f := fun _ a c => .done (f a) c) (g := fun _ a c => .done (f a) c) (h.toSettles.map f) nofun

/-- A complaint behind a result, of the bytes that are left. -/
theorem error_andThen {r s : Bytes → Parsed β} (h : Stable r s) {data : Bytes} {c : Nat}
    (hle : c ≤ data.length) {e : FerrousError} (hr : r (data.drop c) = .error e) (rest : Bytes) :
    s ((data ++ rest).drop c) = .error e := by
  rw [List.drop_append_of_le_length hle, h.error _ e hr rest]

end Stable

/-! ## Lines and headers -/

/-- A line is complete or asked for. -/
theorem stable_parseLine : Stable parseLine parseLine where
  toSettles := settles_parseLine
  error data e h := by
    unfold parseLine at h
    split at h <;> cases h

/-- The complaint of a header is about its line, which is complete. -/
theorem stable_parseAs {α : Type} (read : String → Option α) (word complaint : String) :
    Stable (parseAs read word complaint) (parseAs read word complaint) := by
  refine stable_parseLine.bind (settles_parseAs read word complaint) ?_
  intro data line c e _ h rest
  exact h

/-! ## Aggregates -/

section Aggregates

variable {α : Type} {p q : Bytes → Parsed α}

theorem stable_parseMany (h : Stable p q) (n : Nat) : Stable (parseMany p n) (parseMany q n) := by
  induction n with
  | zero => exact ⟨settles_parseMany h.toSettles 0, nofun⟩
  | succ n ih =>
      refine h.bind (f := fun data a c => (parseMany p n (data.drop c)).bind fun as c' =>
        .done (a :: as) (c + c')) (g := fun data a c => (parseMany q n (data.drop c)).bind
          fun as c' => .done (a :: as) (c + c')) (settles_parseMany h.toSettles (n + 1)) ?_
      intro data a c e hle hf rest
      cases hm : parseMany p n (data.drop c) with
      | error e' =>
          rw [hm, Parsed.bind_error] at hf
          rw [ih.error_andThen hle hm rest, Parsed.bind_error, Parsed.error.inj hf]
      | _ => simp [hm] at hf

theorem stable_parsePair (h : Stable p q) : Stable (parsePair p) (parsePair q) := by
  refine h.bind (f := fun data a c => (p (data.drop c)).bind fun b c' => .done (a, b) (c + c'))
    (g := fun data a c => (q (data.drop c)).bind fun b c' => .done (a, b) (c + c'))
    (settles_parsePair h.toSettles) ?_
  intro data a c e hle hf rest
  cases hm : p (data.drop c) with
  | error e' =>
      rw [hm, Parsed.bind_error] at hf
      rw [h.error_andThen hle hm rest, Parsed.bind_error, Parsed.error.inj hf]
  | _ => simp [hm] at hf

/-- The vector behind a header that has been read complains of an element. -/
theorem parseVec_error {β : Type} (h : Stable p q) (f : List α → β) {size len header : Nat}
    {data : Bytes} (hle : header ≤ data.length) {e : FerrousError}
    (hf : ((parseVec size p len header data).bind fun as c => .done (f as) c) = .error e)
    (rest : Bytes) :
    ((parseVec size q len header (data ++ rest)).bind fun as c => .done (f as) c) = .error e := by
  unfold parseVec at hf ⊢
  split at hf
  · next hsize =>
      rw [if_pos hsize]
      cases hm : parseMany p len (data.drop header) with
      | error e' =>
          rw [hm, Parsed.bind_error, Parsed.bind_error] at hf
          rw [(stable_parseMany h len).error_andThen hle hm rest, Parsed.bind_error, Parsed.bind_error,
            Parsed.error.inj hf]
      | _ => simp [hm] at hf
  · cases hf

end Aggregates

/-! ## The kinds of frames -/

theorem stable_parseBulkString : Stable parseBulkString parseBulkString := by
  refine (stable_parseAs _ _ _).bind settles_parseBulkString ?_
  intro data len header e hle h rest
  split at h
  · cases h
  · next hnull =>
      rw [if_neg hnull]
      split at h
      · next hneg =>
          rw [if_pos hneg]
          exact h
      · next hneg =>
          dsimp only at h ⊢
          rw [if_neg hneg]
          split at h
          · cases h
          · next hlen =>
              have henough : header + len.toNat + 2 ≤ data.length := Nat.le_of_not_lt hlen
              have hlen' : ¬ (data ++ rest).length < header + len.toNat + 2 := by
                rw [List.length_append]
                omega
              rw [if_neg hlen', take_drop_append henough]
              split at h
              -- the two bytes behind the content are there, and are no line end
              · next hend =>
                  rw [if_pos hend]
                  exact h
              · cases h

/-- A frame of a fixed form complains of its first bytes only. -/
theorem stable_prefix {p : Bytes → Parsed RespFrame} (hsettles : Settles p p) (n : Nat)
    (hmore : ∀ data, data.length < n → p data = .more)
    (hpre : ∀ data rest, n ≤ data.length → p (data ++ rest) = p data) : Stable p p where
  toSettles := hsettles
  error data e h rest := by
    have henough : n ≤ data.length := by
      by_contra hlt
      rw [hmore data (Nat.lt_of_not_le hlt)] at h
      cases h
    rw [hpre data rest henough, h]

theorem stable_parseNull : Stable parseNull parseNull := by
  refine stable_prefix settles_parseNull 3 ?_ ?_
  · intro data h
    rw [parseNull, if_pos h]
  · exact fun data rest h => parseNull_append h rest

theorem stable_parseBoolean : Stable parseBoolean parseBoolean := by
  refine stable_prefix settles_parseBoolean 4 ?_ ?_
  · intro data h
    rw [parseBoolean, if_pos h]
  · exact fun data rest h => parseBoolean_append h rest

section Frames

variable {p q : Bytes → Parsed RespFrame}

theorem stable_parseArray (h : Stable p q) : Stable (parseArray p) (parseArray q) := by
  refine (stable_parseAs _ _ _).bind (settles_parseArray h.toSettles) ?_
  intro data len header e hle hf rest
  split at hf
  · cases hf
  · next hnull =>
      rw [if_neg hnull]
      split at hf
      · next hneg =>
          rw [if_pos hneg]
          exact hf
      · next hneg =>
          rw [if_neg hneg]
          exact parseVec_error h _ hle hf rest

theorem stable_parseMap (h : Stable p q) : Stable (parseMap p) (parseMap q) := by
  refine (stable_parseAs _ _ _).bind (settles_parseMap h.toSettles) ?_
  intro data len header e hle hf rest
  exact parseVec_error (stable_parsePair h) map hle hf rest

theorem stable_parseSet (h : Stable p q) : Stable (parseSet p) (parseSet q) := by
  refine (stable_parseAs _ _ _).bind (settles_parseSet h.toSettles) ?_
  intro data len header e hle hf rest
  exact parseVec_error h set hle hf rest

theorem stable_parseKind (tag : Char) (h : Stable p q) :
    Stable (parseKind tag p) (parseKind tag q) := by
  unfold parseKind
  split
  · exact stable_parseLine.map simpleString
  · exact stable_parseLine.map error
  · exact (stable_parseAs _ _ _).map integer
  · exact stable_parseBulkString
  · exact stable_parseArray h
  · exact stable_parseNull
  · exact stable_parseBoolean
  · exact (stable_parseAs _ _ _).map double
  · exact stable_parseMap h
  · exact stable_parseSet h
  -- an unknown type byte is complained of at once
  · exact ⟨.error _, fun _ _ he _ => he⟩

end Frames

/-! ## Every depth -/

/-- By induction on the depth: an element is parsed one level down. -/
theorem stable_parseDepth {n m : Nat} (h : n ≤ m) : Stable (parseDepth n) (parseDepth m) := by
  induction n generalizing m with
  | zero => exact ⟨settles_parseDepth h, nofun⟩
  | succ n ih =>
      obtain ⟨m, rfl⟩ : ∃ k, m = k + 1 := ⟨m - 1, by omega⟩
      have hitem : Stable (parseDepth n) (parseDepth m) := ih (by omega)
      refine ⟨settles_parseDepth h, ?_⟩
      intro data e hf rest
      cases data with
      | nil => cases hf
      | cons b bs => exact (stable_parseKind _ hitem).error _ e hf rest

theorem stable_parseFrame : Stable parseFrame parseFrame where
  toSettles := settles_parseFrame
  error data e h rest := by
    have hdepth : data.length ≤ (data ++ rest).length := by
      rw [List.length_append]
      omega
    exact (stable_parseDepth hdepth).error data e h rest

/-- A frame stays the frame it is, with the bytes it took; an error stays the
error; and a verdict that changes when bytes are appended was the request for
more. -/
theorem parseFrame_append (d x : Bytes) :
    (∀ f n, parseFrame d = .done f n → parseFrame (d ++ x) = .done f n) ∧
    (∀ e, parseFrame d = .error e → parseFrame (d ++ x) = .error e) ∧
    (parseFrame (d ++ x) ≠ parseFrame d → parseFrame d = .more) := by
  have hdone : ∀ f n, parseFrame d = .done f n → parseFrame (d ++ x) = .done f n :=
    fun f n h => (stable_parseFrame.done d f n h).2 x
  have herror : ∀ e, parseFrame d = .error e → parseFrame (d ++ x) = .error e :=
    fun e h => stable_parseFrame.error d e h x
  refine ⟨hdone, herror, fun hne => ?_⟩
  cases hd : parseFrame d with
  | done f n => exact absurd ((hdone f n hd).trans hd.symm) hne
  | more => rfl
  | error e => exact absurd ((herror e hd).trans hd.symm) hne
  | panic => exact absurd ((stable_parseFrame.panic d hd x).trans hd.symm) hne

end RespFrame

end Ferrous
