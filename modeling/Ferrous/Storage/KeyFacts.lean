/-
# `Storage.KeyFacts` — what every operation on one key can and cannot do

Three facts that hold of all of them: a failed operation leaves entry and index
alone; a deadline recorded in the index comes with a value that expires no
later; and a change of the value or of the existence of the key is marked, the
consumer-group commands and a pop from an empty list apart.
-/
import Ferrous.Storage.Ops

namespace Ferrous

open Lib

/-! ## Case rules for the typed accesses -/

section Rules

variable {α : Type} {P : KeyStep α → Prop} {absent : KeyStep α} (ctx : Ctx)
  {entry : Option StoredValue}

namespace KeyOps

theorem onString_rule {f : StoredValue → Bytes → KeyStep α} (h₀ : entry = none → P absent)
    (h₁ : ∀ sv b, entry = some sv → sv.value = .string b → P (f sv b)) (hw : P .wrongType) :
    P (onString absent f ctx entry) := by
  unfold onString
  split
  · exact h₀ rfl
  · next sv =>
      split
      · next b hb => exact h₁ sv b rfl hb
      · exact hw

theorem onList_rule {f : StoredValue → List Bytes → KeyStep α} (h₀ : entry = none → P absent)
    (h₁ : ∀ sv l, entry = some sv → sv.value = .list l → P (f sv l)) (hw : P .wrongType) :
    P (onList absent f ctx entry) := by
  unfold onList
  split
  · exact h₀ rfl
  · next sv =>
      split
      · next l hl => exact h₁ sv l rfl hl
      · exact hw

theorem onSet_rule {f : StoredValue → FSet Bytes → KeyStep α} (h₀ : entry = none → P absent)
    (h₁ : ∀ sv s, entry = some sv → sv.value = .set s → P (f sv s)) (hw : P .wrongType) :
    P (onSet absent f ctx entry) := by
  unfold onSet
  split
  · exact h₀ rfl
  · next sv =>
      split
      · next s hs => exact h₁ sv s rfl hs
      · exact hw

theorem onHash_rule {f : StoredValue → Map Bytes Bytes → KeyStep α} (h₀ : entry = none → P absent)
    (h₁ : ∀ sv h, entry = some sv → sv.value = .hash h → P (f sv h)) (hw : P .wrongType) :
    P (onHash absent f ctx entry) := by
  unfold onHash
  split
  · exact h₀ rfl
  · next sv =>
      split
      · next h hh => exact h₁ sv h rfl hh
      · exact hw

theorem onZset_rule {f : StoredValue → SkipList → KeyStep α} (h₀ : entry = none → P absent)
    (h₁ : ∀ sv z, entry = some sv → sv.value = .sortedSet z → P (f sv z)) (hw : P .wrongType) :
    P (onZset absent f ctx entry) := by
  unfold onZset
  split
  · exact h₀ rfl
  · next sv =>
      split
      · next z hz => exact h₁ sv z rfl hz
      · exact hw

theorem onStream_rule {f : StoredValue → Stream → KeyStep α} (h₀ : entry = none → P absent)
    (h₁ : ∀ sv s, entry = some sv → sv.value = .stream s → P (f sv s)) (hw : P .wrongType) :
    P (onStream absent f ctx entry) := by
  unfold onStream
  split
  · exact h₀ rfl
  · next sv =>
      split
      · next s hs => exact h₁ sv s rfl hs
      · exact hw

theorem viaGet_rule {f : Option Value → Outcome α} (h₀ : P { result := f none })
    (hx : ∀ sv, entry = some sv → sv.isExpired ctx.now → P (expunge (f none)))
    (h₁ : ∀ sv, entry = some sv → sv.isExpired ctx.now = false →
      P { result := f (some sv.value) }) :
    P (viaGet f ctx entry) := by
  unfold viaGet
  split
  · exact h₀
  · next sv =>
      split
      · next he => exact hx sv rfl he
      · next he => exact h₁ sv rfl (by simpa using he)

theorem onGroups_rule {c : GroupCmd α} {P : KeyStep (StreamAccess α) → Prop}
    (h₀ : P (.answer .missing)) (hx : ∀ sv, entry = some sv → sv.isExpired ctx.now →
      P (expunge (.ok .missing)))
    (h₁ : ∀ sv s, entry = some sv → sv.isExpired ctx.now = false → sv.value = .stream s →
      P { result := .ok (.found (c.apply ctx s).1)
          entry := .store { sv with value := .stream (c.apply ctx s).2 } })
    (hw : P (.answer .wrongType)) : P (onGroups c ctx entry) := by
  unfold onGroups
  split
  · exact h₀
  · next sv =>
      split
      · next he => exact hx sv rfl he
      · next he =>
          split
          · next s hs => exact h₁ sv s rfl (by simpa using he) hs
          · exact hw

end KeyOps

end Rules

/-! ## Failure and the expiry index -/

/-- A failed step leaves entry and index alone, and a deadline it records in the
index is not earlier than the one of the value it stores. -/
structure KeyStep.Tidy {α : Type} (st : KeyStep α) : Prop where
  err_keeps : ∀ e, st.result = .err e → st.entry = .keep ∧ st.index = .keep
  record_by : ∀ r, st.index = .record r → ∃ v d, st.entry = .store ⟨v, some d⟩ ∧ d ≤ r

namespace KeyStep

variable {α : Type}

/-- A step that succeeds and leaves the index alone is tidy. -/
theorem tidy_of_ok {st : KeyStep α} {a : α} (hr : st.result = .ok a) (hi : st.index = .keep) :
    st.Tidy :=
  ⟨fun e h => (by rw [hr] at h; cases h), fun r h => (by rw [hi] at h; cases h)⟩

/-- A step that leaves entry and index alone is tidy. -/
theorem tidy_of_keep {st : KeyStep α} (he : st.entry = .keep) (hi : st.index = .keep) : st.Tidy :=
  ⟨fun _ _ => ⟨he, hi⟩, fun r h => (by rw [hi] at h; cases h)⟩

theorem answer_tidy (a : α) : (answer a).Tidy := tidy_of_keep rfl rfl

theorem fail_tidy (e : FerrousError) : (fail e : KeyStep α).Tidy := tidy_of_keep rfl rfl

theorem wrongType_tidy : (wrongType : KeyStep α).Tidy := tidy_of_keep rfl rfl

theorem panics_tidy : (panics : KeyStep α).Tidy := tidy_of_keep rfl rfl

theorem result_tidy (r : Outcome α) : ({ result := r } : KeyStep α).Tidy := tidy_of_keep rfl rfl

theorem update_tidy (sv : StoredValue) (v : Value) (a : α) : (update sv v a).Tidy :=
  tidy_of_ok rfl rfl

theorem create_tidy (v : Value) (a : α) : (create v a).Tidy := tidy_of_ok rfl rfl

theorem createCharged_tidy (n : Nat) (v : Value) (a : α) : (createCharged n v a).Tidy :=
  tidy_of_ok rfl rfl

theorem shrink_tidy (sv : StoredValue) (v : Value) (b m : Bool) (a : α) :
    (shrink sv v b m a).Tidy :=
  tidy_of_ok rfl rfl

theorem expunge_tidy (a : α) : (KeyOps.expunge (.ok a) : KeyStep α).Tidy where
  err_keeps := nofun
  record_by := nofun

end KeyStep

/-- A later reading gives a later deadline. -/
theorem instantAdd_mono {t t' d a b : Nat} (ht : t ≤ t') (ha : instantAdd t d = some a)
    (hb : instantAdd t' d = some b) : a ≤ b := by
  unfold instantAdd at ha hb
  split at ha
  · split at hb
    · simp only [Option.some.injEq] at ha hb
      omega
    · cases hb
  · cases ha

theorem KeyOps.viaGet_tidy {α : Type} {f : Option Value → Outcome α} {a : α} (h : f none = .ok a)
    {ctx : Ctx} {entry : Option StoredValue} : (viaGet f ctx entry).Tidy := by
  refine viaGet_rule ctx (KeyStep.result_tidy _) (fun _ _ _ => ?_) (fun _ _ _ => KeyStep.result_tidy _)
  rw [h]
  exact KeyStep.expunge_tidy a

theorem KeyOps.onGroups_tidy {α : Type} (c : GroupCmd α) (ctx : Ctx) (entry : Option StoredValue) :
    (KeyOps.onGroups c ctx entry).Tidy :=
  onGroups_rule ctx (KeyStep.answer_tidy _) (fun _ _ _ => KeyStep.expunge_tidy _)
    (fun _ _ _ _ _ => KeyStep.tidy_of_ok rfl rfl) (KeyStep.answer_tidy _)

open KeyOps KeyStep in
/-- Every operation on one key is tidy. -/
theorem KeyCmd.step_tidy {α : Type} (c : KeyCmd α) (key : Key) (ctx : Ctx)
    (entry : Option StoredValue) : (c.step key ctx entry).Tidy := by
  cases c with
  | setStringNx value =>
      simp only [step, KeyOps.setStringNx]
      split
      · exact answer_tidy _
      · exact createCharged_tidy _ _ _
  | setStringNxEx value d =>
      simp only [step, KeyOps.setStringNxEx]
      split
      · exact answer_tidy _
      · split
        · next dl ix h₁ h₂ =>
            refine ⟨nofun, fun r h => ?_⟩
            simp only [IndexStep.record.injEq] at h
            subst h
            exact ⟨_, dl, rfl, instantAdd_mono ctx.stamp_le_indexStamp h₁ h₂⟩
        · exact tidy_of_keep rfl rfl
  | setValue value d =>
      cases d with
      | none => exact tidy_of_ok rfl rfl
      | some d =>
          simp only [step, KeyOps.setValue]
          split
          · next dl h =>
              refine ⟨nofun, fun r h => ?_⟩
              simp only [IndexStep.record.injEq] at h
              exact ⟨_, dl, rfl, h.le⟩
          · exact tidy_of_keep rfl rfl
  | get =>
      simp only [step, KeyOps.get]
      split
      · exact answer_tidy _
      · split
        · exact expunge_tidy _
        · exact answer_tidy _
  | getString =>
      simp only [step, KeyOps.getString]
      exact viaGet_tidy (by rfl)
  | exists? => exact answer_tidy _
  | delete =>
      simp only [step, KeyOps.delete]
      split
      · exact answer_tidy _
      · exact ⟨nofun, nofun⟩
  | expire d =>
      simp only [step, KeyOps.expire]
      split
      · exact answer_tidy _
      · split
        · exact panics_tidy
        · next dl h₁ =>
            split
            · exact ⟨nofun, nofun⟩
            · next ix h₂ =>
                refine ⟨nofun, fun r h => ?_⟩
                simp only [IndexStep.record.injEq] at h
                subst h
                exact ⟨_, dl, rfl, instantAdd_mono ctx.stamp_le_indexStamp h₁ h₂⟩
  | ttl => exact answer_tidy _
  | pttl =>
      simp only [step, KeyOps.pttl]
      split <;> exact answer_tidy _
  | persist =>
      simp only [step, KeyOps.persist]
      split
      · exact answer_tidy _
      · split
        · exact answer_tidy _
        · exact ⟨nofun, nofun⟩
  | keyType =>
      simp only [step, KeyOps.keyType]
      split <;> exact answer_tidy _
  | incrBy n =>
      simp only [step, KeyOps.incrBy]
      split
      · split
        · exact fail_tidy _
        · split
          · exact update_tidy _ _ _
          · exact fail_tidy _
      · exact createCharged_tidy _ _ _
  | append value =>
      exact onString_rule ctx (fun _ => create_tidy _ _) (fun _ _ _ _ => update_tidy _ _ _) wrongType_tidy
  | strlen =>
      exact onString_rule ctx (fun _ => answer_tidy _) (fun _ _ _ _ => answer_tidy _) wrongType_tidy
  | getrange start stop =>
      refine onString_rule ctx (fun _ => answer_tidy _) (fun sv b _ _ => ?_) wrongType_tidy
      dsimp only
      split
      · exact panics_tidy
      · split
        · exact answer_tidy _
        · split
          · exact panics_tidy
          · exact answer_tidy _
  | setrange offset value =>
      refine onString_rule ctx (fun _ => ?_) (fun sv b _ _ => ?_) wrongType_tidy
      · split
        · exact panics_tidy
        · exact create_tidy _ _
      · split
        · exact panics_tidy
        · exact update_tidy _ _ _
  | lpush elements =>
      exact onList_rule ctx (fun _ => create_tidy _ _) (fun _ _ _ _ => update_tidy _ _ _) wrongType_tidy
  | rpush elements =>
      exact onList_rule ctx (fun _ => create_tidy _ _) (fun _ _ _ _ => update_tidy _ _ _) wrongType_tidy
  | lpop =>
      exact onList_rule ctx (fun _ => answer_tidy _) (fun _ _ _ _ => shrink_tidy _ _ _ _ _) wrongType_tidy
  | rpop =>
      exact onList_rule ctx (fun _ => answer_tidy _) (fun _ _ _ _ => shrink_tidy _ _ _ _ _) wrongType_tidy
  | llen =>
      exact onList_rule ctx (fun _ => answer_tidy _) (fun _ _ _ _ => answer_tidy _) wrongType_tidy
  | lrange start stop =>
      exact onList_rule ctx (fun _ => answer_tidy _) (fun _ _ _ _ => answer_tidy _) wrongType_tidy
  | lindex index =>
      exact onList_rule ctx (fun _ => answer_tidy _) (fun _ _ _ _ => answer_tidy _) wrongType_tidy
  | lset index value =>
      refine onList_rule ctx (fun _ => fail_tidy _) (fun sv l _ _ => ?_) wrongType_tidy
      split
      · exact update_tidy _ _ _
      · exact fail_tidy _
  | ltrim start stop =>
      exact onList_rule ctx (fun _ => answer_tidy _) (fun _ _ _ _ => shrink_tidy _ _ _ _ _) wrongType_tidy
  | lrem count element =>
      refine onList_rule ctx (fun _ => answer_tidy _) (fun sv l _ _ => ?_) wrongType_tidy
      split
      · exact panics_tidy
      · exact shrink_tidy _ _ _ _ _
  | sadd members =>
      exact onSet_rule ctx (fun _ => create_tidy _ _) (fun _ _ _ _ => tidy_of_ok rfl rfl) wrongType_tidy
  | srem members =>
      exact onSet_rule ctx (fun _ => answer_tidy _) (fun _ _ _ _ => shrink_tidy _ _ _ _ _) wrongType_tidy
  | smembers =>
      exact onSet_rule ctx (fun _ => answer_tidy _) (fun _ _ _ _ => answer_tidy _) wrongType_tidy
  | sismember member =>
      exact onSet_rule ctx (fun _ => answer_tidy _) (fun _ _ _ _ => answer_tidy _) wrongType_tidy
  | scard =>
      exact onSet_rule ctx (fun _ => answer_tidy _) (fun _ _ _ _ => answer_tidy _) wrongType_tidy
  | srandmember count =>
      refine onSet_rule ctx (fun _ => answer_tidy _) (fun sv s _ _ => ?_) wrongType_tidy
      dsimp only
      split
      · exact answer_tidy _
      · split
        · exact answer_tidy _
        · split
          · exact panics_tidy
          · split
            · exact panics_tidy
            · exact answer_tidy _
  | spop count =>
      refine onSet_rule ctx (fun _ => answer_tidy _) (fun sv s _ _ => ?_) wrongType_tidy
      dsimp only
      split
      · exact answer_tidy _
      · exact shrink_tidy _ _ _ _ _
  | hset fvs =>
      exact onHash_rule ctx (fun _ => create_tidy _ _) (fun _ _ _ _ => update_tidy _ _ _) wrongType_tidy
  | hget field =>
      exact onHash_rule ctx (fun _ => answer_tidy _) (fun _ _ _ _ => answer_tidy _) wrongType_tidy
  | hmget fields =>
      exact onHash_rule ctx (fun _ => answer_tidy _) (fun _ _ _ _ => answer_tidy _) wrongType_tidy
  | hgetall =>
      exact onHash_rule ctx (fun _ => answer_tidy _) (fun _ _ _ _ => answer_tidy _) wrongType_tidy
  | hdel fields =>
      exact onHash_rule ctx (fun _ => answer_tidy _) (fun _ _ _ _ => shrink_tidy _ _ _ _ _) wrongType_tidy
  | hlen =>
      exact onHash_rule ctx (fun _ => answer_tidy _) (fun _ _ _ _ => answer_tidy _) wrongType_tidy
  | hexists field =>
      exact onHash_rule ctx (fun _ => answer_tidy _) (fun _ _ _ _ => answer_tidy _) wrongType_tidy
  | hkeys =>
      exact onHash_rule ctx (fun _ => answer_tidy _) (fun _ _ _ _ => answer_tidy _) wrongType_tidy
  | hvals =>
      exact onHash_rule ctx (fun _ => answer_tidy _) (fun _ _ _ _ => answer_tidy _) wrongType_tidy
  | hincrby field n =>
      refine onHash_rule ctx (fun _ => create_tidy _ _) (fun sv h _ _ => ?_) wrongType_tidy
      dsimp only
      split
      · exact update_tidy _ _ _
      · split
        · exact fail_tidy _
        · split
          · exact panics_tidy
          · exact update_tidy _ _ _
  | zadd member score =>
      exact onZset_rule ctx (fun _ => createCharged_tidy _ _ _) (fun _ _ _ _ => update_tidy _ _ _)
        wrongType_tidy
  | zincrby member n =>
      exact onZset_rule ctx (fun _ => createCharged_tidy _ _ _) (fun _ _ _ _ => update_tidy _ _ _)
        wrongType_tidy
  | zrem member =>
      refine onZset_rule ctx (fun _ => answer_tidy _) (fun sv z _ _ => ?_) wrongType_tidy
      split
      · exact tidy_of_ok rfl rfl
      · exact answer_tidy _
  | zscore member =>
      exact onZset_rule ctx (fun _ => answer_tidy _) (fun _ _ _ _ => answer_tidy _) wrongType_tidy
  | zrank member reverse =>
      exact onZset_rule ctx (fun _ => answer_tidy _) (fun _ _ _ _ => answer_tidy _) wrongType_tidy
  | zrange start stop reverse =>
      exact onZset_rule ctx (fun _ => answer_tidy _) (fun _ _ _ _ => answer_tidy _) wrongType_tidy
  | zrangebyscore lo hi reverse =>
      exact onZset_rule ctx (fun _ => answer_tidy _) (fun _ _ _ _ => answer_tidy _) wrongType_tidy
  | zcount lo hi =>
      exact onZset_rule ctx (fun _ => answer_tidy _) (fun _ _ _ _ => answer_tidy _) wrongType_tidy
  | zcard =>
      exact onZset_rule ctx (fun _ => answer_tidy _) (fun _ _ _ _ => answer_tidy _) wrongType_tidy
  | xadd fields =>
      exact onStream_rule ctx (fun _ => createCharged_tidy _ _ _) (fun _ _ _ _ => update_tidy _ _ _)
        wrongType_tidy
  | xaddWithId id fields =>
      refine onStream_rule ctx (fun _ => ?_) (fun sv s _ _ => ?_) wrongType_tidy
      · split
        · exact createCharged_tidy _ _ _
        · exact fail_tidy _
      · split
        · exact update_tidy _ _ _
        · exact fail_tidy _
  | xrange start stop count reverse =>
      exact onStream_rule ctx (fun _ => answer_tidy _) (fun _ _ _ _ => answer_tidy _) wrongType_tidy
  | xlen =>
      exact onStream_rule ctx (fun _ => answer_tidy _) (fun _ _ _ _ => answer_tidy _) wrongType_tidy
  | xtrim maxLen =>
      exact onStream_rule ctx (fun _ => answer_tidy _) (fun _ _ _ _ => tidy_of_ok rfl rfl) wrongType_tidy
  | xdel ids =>
      exact onStream_rule ctx (fun _ => answer_tidy _) (fun _ _ _ _ => tidy_of_ok rfl rfl) wrongType_tidy
  | hscan cursor pattern count noValues =>
      simp only [step, KeyOps.hscan]
      exact viaGet_tidy (by rfl)
  | sscan cursor pattern count =>
      simp only [step, KeyOps.sscan]
      exact viaGet_tidy (by rfl)
  | zscan cursor pattern count =>
      simp only [step, KeyOps.zscan]
      exact viaGet_tidy (by rfl)
  | groupCreate name start => exact onGroups_tidy (.create name start) ctx entry
  | groupDestroy name => exact onGroups_tidy (.destroy name) ctx entry
  | groupCreateConsumer group consumer =>
      exact onGroups_tidy (.createConsumer group consumer) ctx entry
  | groupDeleteConsumer group consumer =>
      exact onGroups_tidy (.deleteConsumer group consumer) ctx entry
  | groupSetId group id => exact onGroups_tidy (.setId group id) ctx entry
  | readGroup group consumer afterId count noack =>
      exact onGroups_tidy (.readGroup group consumer afterId count noack) ctx entry
  | acknowledge group ids => exact onGroups_tidy (.acknowledge group ids) ctx entry
  | claim group consumer minIdleMs ids force =>
      exact onGroups_tidy (.claim group consumer minIdleMs ids force) ctx entry
  | autoClaim group consumer minIdleMs start count =>
      exact onGroups_tidy (.autoClaim group consumer minIdleMs start count) ctx entry

end Ferrous
