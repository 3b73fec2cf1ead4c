/-
# `Commands.Halfway` — the commands that write before they can fail

MSET and ZADD store each pair before the next is looked at, XREADGROUP hands
out the entries of a stream before it opens the next one, and XGROUP CREATE
with MKSTREAM stores the stream before it looks at the ID.  For each of them:
a failed run keeps the store exactly if what was written before the failure
was there already.
-/
import Ferrous.Commands.BuiltSets
import Ferrous.Commands.CleanHandlers

namespace Ferrous

open Lib Args
open SkipList (lastFor)

variable {ω : Nat → Ctx} {db : Nat}

/-! ## Pairs of arguments -/

/-- The pairs before the first that is refused, and whether there is such a one. -/
def leading {β : Type} (read : RespFrame → RespFrame → Args β) : Parts → List β × Bool
  | p :: q :: ps =>
      match read p q with
      | .ok b => (b :: (leading read ps).1, (leading read ps).2)
      | .error _ => ([], true)
  | _ => ([], false)

/-- What is not a bulk string is refused with an error frame. -/
theorem isError_bulk {parts : Parts} {i : Nat} {what : String} {f : RespFrame}
    (h : bulk parts i what = .error f) : f.isError = true := by
  unfold bulk at h
  split at h
  · cases h
  · cases h
    rfl

theorem isError_numeral {α : Type} {read : String → Option α} {complaint : String} {parts : Parts}
    {i : Nat} {what : String} {f : RespFrame} (h : numeral read complaint parts i what = .error f) :
    f.isError = true := by
  unfold numeral at h
  cases hb : bulk parts i what with
  | error g =>
      rw [hb] at h
      cases h
      exact isError_bulk hb
  | ok bytes =>
      rw [hb] at h
      dsimp only [bind, Except.bind] at h
      cases hread : read (fromUtf8Lossy bytes) with
      | some n =>
          rw [hread] at h
          cases h
      | none =>
          rw [hread] at h
          cases h
          rfl

/-- A sequence of two reads is refused by one of them. -/
theorem isError_both {α β γ : Type} {a : Args α} {b : Args β} {g : α → β → γ} {f : RespFrame}
    (ha : ∀ f, a = .error f → f.isError = true) (hb : ∀ f, b = .error f → f.isError = true)
    (h : (do let x ← a; let y ← b; return g x y) = (.error f : Args γ)) : f.isError = true := by
  cases hx : a with
  | error e =>
      rw [hx] at h
      cases h
      exact ha _ hx
  | ok x =>
      rw [hx] at h
      cases hy : b with
      | error e =>
          rw [hy] at h
          cases h
          exact hb _ hy
      | ok y =>
          rw [hy] at h
          cases h

/-! ## MSET -/

/-- The arguments of one round of MSET. -/
def msetPair (k v : RespFrame) : Args (Key × Bytes) := do
  let key ← bulk [k] 0 "key"
  let value ← bulk [v] 0 "value"
  return (key, value)

/-- What SET leaves under its key. -/
theorem step_setString {w : World} (hw : w.Ready db) (key : Key) (value : Bytes) :
    ∃ w', World.step ω _ (.key db key (setString value none)) w = (.ok (), w') ∧
      w'.calls = w.calls + 1 ∧ ∀ db' key', w'.engine.entryAt db' key' =
        if db' = db ∧ key' = key then some ⟨.string value, none⟩ else w.engine.entryAt db' key' := by
  obtain ⟨e', hstep, hch, hent⟩ :=
    World.step_key key (setString value none) hw.database hw.unlimited (ω := ω)
  refine ⟨_, hstep, rfl, fun db' key' => ?_⟩
  split
  · next hk =>
      obtain ⟨rfl, rfl⟩ := hk
      exact hent
  · next hk => exact hch.others db' key' hk

/-- A run of MSET stores the pairs before the first one that is refused. -/
theorem msetLoop_run : ∀ (ps : Parts) (w : World), w.Ready db →
    ∃ f w', (msetLoop db ps).run (World.step ω) w = (.ok f, w') ∧ w.calls ≤ w'.calls ∧
      f.isError = (leading msetPair ps).2 ∧ ∀ db' key, w'.engine.entryAt db' key =
        if db' = db then ((lastFor (leading msetPair ps).1 key).map fun v =>
          some ⟨.string v, none⟩).getD (w.engine.entryAt db' key)
        else w.engine.entryAt db' key
  | [], w, _ => ⟨_, w, rfl, le_rfl, rfl, fun _ _ => (ite_self _).symm⟩
  | [_], w, _ => ⟨_, w, rfl, le_rfl, rfl, fun _ _ => (ite_self _).symm⟩
  | k :: v :: ps, w, hw => by
      cases hp : msetPair k v with
      | error f =>
          have hlead : leading msetPair (k :: v :: ps) = ([], true) := by rw [leading, hp]
          refine ⟨f, w, ?_, le_rfl, ?_, fun _ _ => ?_⟩
          · show ((reading (msetPair k v) _).run (World.step ω) w) = _
            rw [hp]
            rfl
          · rw [hlead, isError_both (fun _ h => isError_bulk h) (fun _ h => isError_bulk h) hp]
          · rw [hlead]
            exact (ite_self _).symm
      | ok p =>
          obtain ⟨key, value⟩ := p
          have hlead : leading msetPair (k :: v :: ps) =
              ((key, value) :: (leading msetPair ps).1, (leading msetPair ps).2) := by rw [leading, hp]
          obtain ⟨w₁, hstep, hcalls, hent⟩ := step_setString (ω := ω) hw key value
          have hw₁ := hw.step (ω := ω) (.key db key (setString value none))
          rw [hstep] at hw₁
          obtain ⟨f, w', hrun, hle, herr, hent'⟩ := msetLoop_run ps w₁ hw₁
          refine ⟨f, w', ?_, by omega, by rw [hlead, herr], fun db' key' => ?_⟩
          · show ((reading (msetPair k v) _).run (World.step ω) w) = _
            rw [hp]
            show ((need _ >>= fun _ => msetLoop db ps).run (World.step ω) w) = _
            rw [run_need hstep, hrun]
          · rw [hent', hlead]
            split
            · next hdb =>
                subst hdb
                rw [SkipList.lastFor_cons, hent]
                cases lastFor (leading msetPair ps).1 key' with
                | some v' => rfl
                | none =>
                    by_cases hk : key' = key
                    · simp [hk]
                    · simp [hk]
            · next hdb =>
                rw [hent, if_neg fun h => hdb h.1]

/-- A refused pair comes after pairs that only say what the keys hold already. -/
def msetRestates (w : World) (db : Nat) (parts : Parts) : Prop :=
  (3 ≤ parts.length && parts.length % 2 != 0) = true → (leading msetPair (parts.drop 1)).2 = true →
    ∀ key value, lastFor (leading msetPair (parts.drop 1)).1 key = some value →
      w.engine.entryAt db key = some ⟨.string value, none⟩

/-- A failed MSET keeps the store exactly if the pairs before the refused one
are there already. -/
theorem handleMset_cleanAt_iff {w : World} (hw : w.Ready db) (parts : Parts) :
    CleanAt ω (handleMset db parts) w ↔ msetRestates w db parts := by
  unfold handleMset msetRestates arity
  cases (3 ≤ parts.length && parts.length % 2 != 0) with
  | false =>
      simp only [Bool.false_eq_true, if_false, IsEmpty.forall_iff, iff_true]
      exact cleanAt_ret _ w
  | true =>
      obtain ⟨f, w', hrun, hle, herr, hent⟩ := msetLoop_run (ω := ω) (parts.drop 1) w hw
      simp only [if_true, reading, forall_true_left, CleanAt, hrun, Failed, ← herr]
      refine forall_congr' fun _ => ?_
      constructor
      · intro h key value hlast
        have hkey := h.entry db key
        have hnew : w'.engine.entryAt db key = some ⟨.string value, none⟩ := by
          rw [hent, if_pos rfl, hlast]
          rfl
        rw [KeptEntry, hnew] at hkey
        rcases hkey with hs | ⟨hn, -⟩
        · cases hold : w.engine.entryAt db key with
          | none => rw [hold] at hs; exact hs.elim
          | some sv =>
              rw [hold] at hs
              obtain ⟨old, deadline⟩ := sv
              obtain ⟨hv, hd⟩ := hs
              cases old with
              | string bytes => rw [show bytes = value from hv, show deadline = none from hd]
              | _ => exact hv.elim
        · cases hn
      · intro h
        refine ⟨hle, fun db' key => .inl ?_⟩
        rw [hent]
        split
        · next hdb =>
            subst hdb
            cases hlast : lastFor (leading msetPair (parts.drop 1)).1 key with
            | none => exact .refl _
            | some value =>
                rw [h key value hlast]
                exact .refl _
        · exact .refl _

/-! ## ZADD -/

/-- The arguments of one round of ZADD. -/
def zaddPair (s m : RespFrame) : Args (Float64 × Bytes) := do
  let score ← float notFloat [s] 0 "score"
  let member ← bulk [m] 0 "member"
  return (score, member)

/-- A round of ZADD, member first. -/
def zaddMember (s m : RespFrame) : Args (Bytes × Float64) := (zaddPair s m).map fun p => (p.2, p.1)

/-- What ZADD leaves under its key, where nothing or a sorted set stands. -/
theorem step_zadd {w : World} (hw : w.Ready db) {key : Key} (h : ZsetAt db key w) (member : Bytes)
    (score : Float64) :
    ∃ b w', World.step ω _ (.key db key (.zadd member score)) w = (.ok b, w') ∧
      w'.calls = w.calls + 1 ∧ OnlyChanges db key w.engine w'.engine ∧
      (w.engine.entryAt db key = none → ∃ z, w'.engine.entryAt db key = some ⟨.sortedSet z, none⟩) ∧
      ∀ z t, w.engine.entryAt db key = some ⟨.sortedSet z, t⟩ → ∃ level,
        w'.engine.entryAt db key = some ⟨.sortedSet (z.insert member score level).2, t⟩ := by
  obtain ⟨e', hstep, hch, hent⟩ :=
    World.step_key key (.zadd member score) hw.database hw.unlimited (ω := ω)
  cases hold : w.engine.entryAt db key with
  | none =>
      rw [hold] at hstep hent
      exact ⟨true, _, hstep, rfl, hch, fun _ => ⟨_, hent⟩, nofun⟩
  | some sv =>
      obtain ⟨z, hz⟩ := h sv hold
      obtain ⟨v, t⟩ := sv
      obtain rfl : v = .sortedSet z := hz
      rw [hold] at hstep hent
      refine ⟨_, _, hstep, rfl, hch, nofun, fun z' t' h => ?_⟩
      cases h
      exact ⟨_, hent⟩

/-- A run of ZADD on a sorted set gives the members before the first refused
pair their scores. -/
theorem zaddLoop_run : ∀ (ps : Parts) (n : Nat) (key : Key) (w : World), w.Ready db →
    ZsetAt db key w →
    ∃ f w', (zaddLoop db key ps n).run (World.step ω) w = (.ok f, w') ∧ w.calls ≤ w'.calls ∧
      f.isError = (leading zaddMember ps).2 ∧ OnlyChanges db key w.engine w'.engine ∧
      (w.engine.entryAt db key = none → (leading zaddMember ps).1 ≠ [] →
        w'.engine.entryAt db key ≠ none) ∧
      ((leading zaddMember ps).1 = [] → w'.engine.entryAt db key = w.engine.entryAt db key) ∧
      ∀ z t, w.engine.entryAt db key = some ⟨.sortedSet z, t⟩ → ∃ z',
        SkipList.Scored z (leading zaddMember ps).1 z' ∧
          w'.engine.entryAt db key = some ⟨.sortedSet z', t⟩
  | [], n, key, w, _, _ =>
      ⟨_, w, rfl, le_rfl, rfl, .refl _ _ _, fun _ h => absurd rfl h, fun _ => rfl,
        fun z _ h => ⟨z, .nil z, h⟩⟩
  | [_], n, key, w, _, _ =>
      ⟨_, w, rfl, le_rfl, rfl, .refl _ _ _, fun _ h => absurd rfl h, fun _ => rfl,
        fun z _ h => ⟨z, .nil z, h⟩⟩
  | s :: m :: ps, n, key, w, hw, hz => by
      cases hp : zaddPair s m with
      | error f =>
          have hlead : leading zaddMember (s :: m :: ps) = ([], true) := by
            rw [leading, zaddMember, hp]
            rfl
          rw [hlead]
          refine ⟨f, w, ?_, le_rfl, ?_, .refl _ _ _, fun _ h => absurd rfl h, fun _ => rfl,
            fun z _ h => ⟨z, .nil z, h⟩⟩
          · show ((reading (zaddPair s m) _).run (World.step ω) w) = _
            rw [hp]
            rfl
          · exact isError_both (fun _ h => isError_numeral h) (fun _ h => isError_bulk h) hp
      | ok p =>
          obtain ⟨score, member⟩ := p
          have hlead : leading zaddMember (s :: m :: ps) =
              ((member, score) :: (leading zaddMember ps).1, (leading zaddMember ps).2) := by
            rw [leading, zaddMember, hp]
            rfl
          obtain ⟨b, w₁, hstep, hcalls, hch, hnone, hsome⟩ := step_zadd (ω := ω) hw hz member score
          have hw₁ := hw.step (ω := ω) (.key db key (.zadd member score))
          rw [hstep] at hw₁
          have hz₁ : ZsetAt db key w₁ := by
            intro sv hsv
            cases hold : w.engine.entryAt db key with
            | none =>
                obtain ⟨z, hz⟩ := hnone hold
                rw [hz] at hsv
                cases hsv
                exact ⟨z, rfl⟩
            | some old =>
                obtain ⟨z, hv⟩ := hz old hold
                obtain ⟨v, t⟩ := old
                obtain rfl : v = .sortedSet z := hv
                obtain ⟨level, hent⟩ := hsome z t hold
                rw [hent] at hsv
                cases hsv
                exact ⟨_, rfl⟩
          obtain ⟨f, w', hrun, hle, herr, hch', hnone', hnil', hsome'⟩ :=
            zaddLoop_run ps (if b then n + 1 else n) key w₁ hw₁ hz₁
          rw [hlead]
          refine ⟨f, w', ?_, by omega, herr, hch.trans hch', fun hold _ => ?_, nofun,
            fun z t hold => ?_⟩
          · show ((reading (zaddPair s m) _).run (World.step ω) w) = _
            rw [hp]
            show ((need _ >>= fun new => zaddLoop db key ps (if new = true then n + 1 else n)).run
              (World.step ω) w) = _
            rw [run_need hstep, hrun]
          · obtain ⟨z, hz⟩ := hnone hold
            obtain ⟨z', -, hent'⟩ := hsome' z none hz
            rw [hent']
            exact nofun
          · obtain ⟨level, hent⟩ := hsome z t hold
            obtain ⟨z', hs, hent'⟩ := hsome' _ t hent
            exact ⟨z', .cons level hs, hent'⟩

/-- A refused pair comes first, or after pairs that only repeat the scores of a
sorted set, or the key holds another type. -/
def zaddRestates (w : World) (db : Nat) (parts : Parts) : Prop :=
  ∀ key, (do arity "zadd" (4 ≤ parts.length && parts.length % 2 == 0); bulk parts 1 "key") = .ok key →
    (leading zaddMember (parts.drop 2)).2 = true →
      match w.engine.entryAt db key with
      | none => (leading zaddMember (parts.drop 2)).1 = []
      | some ⟨.sortedSet z, _⟩ =>
          (∀ p ∈ (leading zaddMember (parts.drop 2)).1, p.2.isNaN = false) ∧
            ∀ m s, lastFor (leading zaddMember (parts.drop 2)).1 m = some s → z.getScore m = some s
      | _ => True

theorem zaddLoop_cleanAt_iff {w : World} (hw : w.Ready db) (hbuilt : w.engine.ZsetsBuilt) (key : Key)
    (ps : Parts) :
    CleanAt ω (zaddLoop db key ps 0) w ↔ ((leading zaddMember ps).2 = true →
      match w.engine.entryAt db key with
      | none => (leading zaddMember ps).1 = []
      | some ⟨.sortedSet z, _⟩ =>
          (∀ p ∈ (leading zaddMember ps).1, p.2.isNaN = false) ∧
            ∀ m s, lastFor (leading zaddMember ps).1 m = some s → z.getScore m = some s
      | _ => True) := by
  rcases zsetAt_or w db key with hz | ⟨sv, hsv, hz⟩
  · obtain ⟨f, w', hrun, hle, herr, hch, hnone, hnil, hsome⟩ :=
      zaddLoop_run (ω := ω) ps 0 key w hw hz
    simp only [CleanAt, hrun, Failed, ← herr]
    refine forall_congr' fun _ => ?_
    -- only the entry of the key is at stake
    have hiff : Kept ω w w' ↔ KeptEntry ω w w' db key := by
      refine ⟨fun h => h.entry db key, fun h => ⟨hle, fun db' key' => ?_⟩⟩
      by_cases hk : db' = db ∧ key' = key
      · obtain ⟨rfl, rfl⟩ := hk
        exact h
      · refine .inl ?_
        rw [hch.others db' key' hk]
        exact .refl _
    rw [hiff]
    cases hold : w.engine.entryAt db key with
    | none =>
        constructor
        · intro h
          by_contra hne
          have hsome' := hnone hold hne
          rw [KeptEntry, hold] at h
          rcases h with hs | ⟨hn, -⟩
          · cases hnew : w'.engine.entryAt db key with
            | none => exact hsome' hnew
            | some v => rw [hnew] at hs; exact hs
          · exact hsome' hn
        · intro h
          refine .inl ?_
          rw [hnil h]
          exact .refl _
    | some sv =>
        obtain ⟨z, hv⟩ := hz sv hold
        obtain ⟨v, t⟩ := sv
        obtain rfl : v = .sortedSet z := hv
        obtain ⟨z', hs, hnew⟩ := hsome z t hold
        have hsame := hs.same_iff (hbuilt db key z t hold)
        rw [KeptEntry, hold, hnew]
        refine Iff.trans ?_ hsame
        constructor
        · rintro (h | ⟨h, -⟩)
          · exact h.1
          · cases h
        · exact fun h => .inl ⟨h, rfl⟩
  · -- on another type the first pair that is read fails
    have htrue : (match w.engine.entryAt db key with
        | none => (leading zaddMember ps).1 = []
        | some ⟨.sortedSet z, _⟩ =>
            (∀ p ∈ (leading zaddMember ps).1, p.2.isNaN = false) ∧
              ∀ m s, lastFor (leading zaddMember ps).1 m = some s → z.getScore m = some s
        | _ => True) := by
      rw [hsv]
      obtain ⟨v, t⟩ := sv
      cases v with
      | sortedSet z => exact absurd rfl (hz z)
      | _ => trivial
    simp only [htrue, implies_true, iff_true]
    match ps with
    | [] => exact Clean.ret _ w hw
    | [_] => exact Clean.ret _ w hw
    | s :: m :: ps =>
        show CleanAt ω (reading (zaddPair s m) _) w
        cases zaddPair s m with
        | error f => exact Clean.ret _ w hw
        | ok p =>
            refine CleanAt.need_wrongType hw ?_
            rw [hsv]
            show KeyOps.zadd key p.2 p.1 (ω w.calls) (some sv) = .wrongType
            exact KeyOps.onZset_other hz

/-- A failed ZADD keeps the store exactly if the pairs before the refused one
repeat the scores of the set, or the key holds another type. -/
theorem handleZadd_cleanAt_iff {w : World} (hw : w.Ready db) (hbuilt : w.engine.ZsetsBuilt)
    (parts : Parts) : CleanAt ω (handleZadd db parts) w ↔ zaddRestates w db parts := by
  unfold handleZadd zaddRestates
  cases hargs : (do
      arity "zadd" (4 ≤ parts.length && parts.length % 2 == 0)
      bulk parts 1 "key") with
  | error f => exact ⟨fun _ => nofun, fun _ => Clean.ret _ w hw⟩
  | ok key =>
      refine (zaddLoop_cleanAt_iff hw hbuilt key (parts.drop 2)).trans ⟨fun h key' hk => ?_, fun h => ?_⟩
      · cases hk
        exact h
      · exact h key rfl

end Ferrous
