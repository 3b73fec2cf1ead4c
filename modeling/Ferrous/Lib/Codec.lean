/-
# `Lib.Codec` — readers of a byte stream and what they read

A reader takes symbols off the front of a list, over any monad.  `Reads d bs a`
says that `d` takes exactly `bs` off whatever list starts with it, answers `a`,
and has no other effect; the rules follow the shape of the reader, so a format
is proved readable piece by piece and the unread suffix never shows.  `Yields`
says of a reader what its answer is like on whatever list, when there is one.
At the end are the fixed-width integers, in both byte orders.
-/
import Ferrous.Lib.Prog
import Ferrous.Lib.Text
import Mathlib.Tactic.Ring

namespace Lib

universe u

section Reads

variable {m : Type → Type u} [Monad m] {β α γ : Type}

/-- `d` takes exactly `bs` off the front and answers `a`. -/
def Reads (d : StateT (List β) m α) (bs : List β) (a : α) : Prop :=
  ∀ rest, d (bs ++ rest) = pure (a, rest)

/-- Repeat a reader and collect the answers. -/
def times (d : StateT (List β) m α) : Nat → StateT (List β) m (List α)
  | 0 => pure []
  | n + 1 => do
      let a ← d
      let as ← times d n
      pure (a :: as)

namespace Reads

theorem pure (a : α) : Reads (Pure.pure a : StateT (List β) m α) [] a := fun _ => rfl

variable [LawfulMonad m]

/-- What comes after a reader starts at the unread suffix. -/
theorem bind_run {d : StateT (List β) m α} {bs : List β} {a : α} (h : Reads d bs a)
    (f : α → StateT (List β) m γ) (rest : List β) : (d >>= f) (bs ++ rest) = f a rest := by
  show (d (bs ++ rest) >>= fun p => f p.1 p.2) = _
  rw [h rest, pure_bind]

theorem bind {d : StateT (List β) m α} {bs cs : List β} {a : α} {b : γ}
    {f : α → StateT (List β) m γ} (h : Reads d bs a) (hf : Reads (f a) cs b) :
    Reads (d >>= f) (bs ++ cs) b := by
  intro rest
  rw [List.append_assoc, h.bind_run, hf]

theorem map {d : StateT (List β) m α} {bs : List β} {a : α} (h : Reads d bs a) (f : α → γ) :
    Reads (d >>= fun x => Pure.pure (f x)) bs (f a) := by
  have hf := h.bind (f := fun x => Pure.pure (f x)) (Reads.pure (f a))
  rwa [List.append_nil] at hf

/-- A reader of one item reads a sequence of them. -/
theorem times {d : StateT (List β) m α} {enc : α → List β} {xs : List α}
    (h : ∀ x ∈ xs, Reads d (enc x) x) : Reads (times d xs.length) (xs.flatMap enc) xs := by
  induction xs with
  | nil => exact Reads.pure []
  | cons x xs ih =>
      have hx := h x List.mem_cons_self
      have hxs := ih fun y hy => h y (List.mem_cons_of_mem x hy)
      exact hx.bind (hxs.map (x :: ·))

end Reads

end Reads

section Yields

variable {Op : Type → Type} {ε α β γ σ : Type}

/-- `d` fails, or takes `n` symbols at least and answers something with `P`; it
calls no operation. -/
def Yields (d : StateT (List β) (Prog Op ε) α) (P : α → Prop) (n : Nat) : Prop :=
  ∀ bs, (∃ e, d bs = .fail e) ∨
    ∃ a rest, d bs = .ret (a, rest) ∧ P a ∧ rest.length + n ≤ bs.length

namespace Yields

variable {d : StateT (List β) (Prog Op ε) α} {P : α → Prop} {n k : Nat}

theorem mono (h : Yields d P n) {Q : α → Prop} (hQ : ∀ a, P a → Q a) (hk : k ≤ n) :
    Yields d Q k := by
  intro bs
  rcases h bs with he | ⟨a, rest, hd, ha, hlen⟩
  · exact .inl he
  · exact .inr ⟨a, rest, hd, hQ a ha, by omega⟩

theorem pure {a : α} (h : P a) :
    Yields (Pure.pure a : StateT (List β) (Prog Op ε) α) P 0 :=
  fun bs => .inr ⟨a, bs, rfl, h, Nat.le_refl _⟩

theorem bind (h : Yields d P n) {f : α → StateT (List β) (Prog Op ε) γ} {Q : γ → Prop}
    (hf : ∀ a, P a → Yields (f a) Q k) : Yields (d >>= f) Q (n + k) := by
  intro bs
  have hrun : (d >>= f) bs = (d bs).bind fun p => f p.1 p.2 := rfl
  rw [hrun]
  rcases h bs with ⟨e, hd⟩ | ⟨a, mid, hd, ha, hlen⟩
  · exact .inl ⟨e, by rw [hd]; rfl⟩
  · rw [hd, Prog.bind_ret]
    rcases hf a ha mid with he | ⟨b, rest, hb, hQ, hlen'⟩
    · exact .inl he
    · exact .inr ⟨b, rest, hb, hQ, by omega⟩

theorem times (h : Yields d P n) (k : Nat) :
    Yields (times d k) (fun as => as.length = k ∧ ∀ a ∈ as, P a) (k * n) := by
  induction k with
  | zero => exact (pure ⟨rfl, nofun⟩).mono (fun _ => id) (by omega)
  | succ k ih =>
      refine (h.bind (k := k * n) fun a ha => ?_).mono (fun _ => id) (by rw [Nat.succ_mul]; omega)
      refine (ih.bind (k := 0) fun as has => ?_).mono (fun _ => id) (Nat.le_refl _)
      refine pure ⟨by rw [List.length_cons, has.1], ?_⟩
      intro b hb
      rcases List.mem_cons.mp hb with rfl | hb
      · exact ha
      · exact has.2 b hb

/-- A run that succeeds went through the reader. -/
theorem run_bind (h : Yields d P n) {step : ∀ β : Type, Op β → σ → Outcome ε β × σ}
    {f : α → StateT (List β) (Prog Op ε) γ} {bs : List β} {s s' : σ} {r : γ × List β}
    (hrun : ((d >>= f) bs).run step s = (.ok r, s')) :
    ∃ a mid, P a ∧ mid.length + n ≤ bs.length ∧ (f a mid).run step s = (.ok r, s') := by
  have hd : (d >>= f) bs = (d bs).bind fun p => f p.1 p.2 := rfl
  rw [hd] at hrun
  rcases h bs with ⟨e, hd⟩ | ⟨a, mid, hd, ha, hlen⟩
  · rw [hd] at hrun
    cases hrun
  · rw [hd] at hrun
    exact ⟨a, mid, ha, hlen, hrun⟩

end Yields

end Yields

/-! ## Fixed-width integers -/

/-- The `w` low bytes of a number, least significant first (`to_le_bytes`). -/
def toLeBytes : Nat → Nat → Bytes
  | 0, _ => []
  | w + 1, n => UInt8.ofNat n :: toLeBytes w (n / 256)

/-- `from_le_bytes`. -/
def ofLeBytes : Bytes → Nat
  | [] => 0
  | b :: bs => b.toNat + 256 * ofLeBytes bs

/-- The `w` low bytes of a number, most significant first (`to_be_bytes`). -/
def toBeBytes (w n : Nat) : Bytes := (toLeBytes w n).reverse

/-- `from_be_bytes`. -/
def ofBeBytes (bs : Bytes) : Nat := ofLeBytes bs.reverse

@[simp] theorem length_toLeBytes (w n : Nat) : (toLeBytes w n).length = w := by
  induction w generalizing n with
  | zero => rfl
  | succ w ih => simp [toLeBytes, ih]

@[simp] theorem length_toBeBytes (w n : Nat) : (toBeBytes w n).length = w := by
  simp [toBeBytes]

theorem ofLeBytes_lt (bs : Bytes) : ofLeBytes bs < 256 ^ bs.length := by
  induction bs with
  | nil => exact Nat.one_pos
  | cons b bs ih =>
      have hb := b.toNat_lt
      rw [ofLeBytes, List.length_cons, pow_succ]
      omega

theorem ofBeBytes_lt (bs : Bytes) : ofBeBytes bs < 256 ^ bs.length := by
  have h := ofLeBytes_lt bs.reverse
  rwa [List.length_reverse] at h

theorem ofLeBytes_toLeBytes (w n : Nat) : ofLeBytes (toLeBytes w n) = n % 256 ^ w := by
  induction w generalizing n with
  | zero => simp [toLeBytes, ofLeBytes, Nat.mod_one]
  | succ w ih =>
      have hlow : (UInt8.ofNat n).toNat = n % 256 := by simp
      rw [toLeBytes, ofLeBytes, ih, hlow, pow_succ, mul_comm (256 ^ w) 256, Nat.mod_mul]

theorem ofBeBytes_toBeBytes (w n : Nat) : ofBeBytes (toBeBytes w n) = n % 256 ^ w := by
  rw [ofBeBytes, toBeBytes, List.reverse_reverse, ofLeBytes_toLeBytes]

end Lib
