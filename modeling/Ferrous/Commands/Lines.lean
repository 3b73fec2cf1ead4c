/-
# `Commands.Lines` — texts that stay on one line

A line of a reply ends at its first line end.  Plain text around a text brings
none in and takes none away, and no operation of the store answers an error or a
message with one, the names of groups in it apart.
-/
import Mathlib.Data.List.Infix
import Ferrous.Commands.GroupReads
import Ferrous.Commands.GroupReplies
import Ferrous.Protocol.Framing

namespace Ferrous

open Lib Args

/-! ## Lines -/

/-- The bytes of the text hold no line end. -/
def Line (t : String) : Prop := RespFrame.OneLine t.toBytes

/-- A list none of whose elements stands before or behind is found where it was. -/
theorem infix_between {α : Type} {l a t c : List α} (hl : l ≠ []) (ha : ∀ x ∈ l, x ∉ a)
    (hc : ∀ x ∈ l, x ∉ c) : l <:+: a ++ t ++ c ↔ l <:+: t := by
  have hnil {s u : List α} (hsub : ∀ x ∈ s, x ∈ l) (hu : s ⊆ u) (hno : ∀ x ∈ l, x ∉ u) : s = [] := by
    cases s with
    | nil => rfl
    | cons x s => exact absurd (hu List.mem_cons_self) (hno x (hsub x List.mem_cons_self))
  constructor
  · intro h
    have hat : l <:+: a ++ t := by
      rcases List.infix_append_iff.mp h with h | h | ⟨l₁, l₂, rfl, h₁, h₂⟩
      · exact h
      · exact absurd (hnil (fun _ hx => hx) h.subset hc) hl
      · rw [hnil (fun x hx => List.mem_append_right l₁ hx) h₂.subset hc, List.append_nil]
        exact h₁.isInfix
    rcases List.infix_append_iff.mp hat with h | h | ⟨l₁, l₂, rfl, h₁, h₂⟩
    · exact absurd (hnil (fun _ hx => hx) h.subset ha) hl
    · exact h
    · rw [hnil (fun x hx => List.mem_append_left l₂ hx) h₁.subset ha, List.nil_append]
      exact h₂.isInfix
  · exact fun h => h.trans (List.infix_append a t c)

/-- Only a character below 128 is written as itself; all other bytes are from 128 on. -/
theorem byte_utf8EncodeChar {c : Char} {b : UInt8} (h : b ∈ String.utf8EncodeChar c) :
    128 ≤ b.toNat ∨ b.toNat = c.toNat := by
  have hbig {n : Nat} (hl : 128 ≤ n) (hh : n < 256) : 128 ≤ (UInt8.ofNat n).toNat := by
    rw [UInt8.toNat_ofNat_of_lt' hh]
    exact hl
  change b ∈ (if c.val.toNat ≤ 127 then [UInt8.ofNat c.val.toNat]
    else if c.val.toNat ≤ 2047 then
      [UInt8.ofNat (c.val.toNat / 64 % 32 + 192), UInt8.ofNat (c.val.toNat % 64 + 128)]
    else if c.val.toNat ≤ 65535 then
      [UInt8.ofNat (c.val.toNat / 4096 % 16 + 224), UInt8.ofNat (c.val.toNat / 64 % 64 + 128),
        UInt8.ofNat (c.val.toNat % 64 + 128)]
    else
      [UInt8.ofNat (c.val.toNat / 262144 % 8 + 240), UInt8.ofNat (c.val.toNat / 4096 % 64 + 128),
        UInt8.ofNat (c.val.toNat / 64 % 64 + 128), UInt8.ofNat (c.val.toNat % 64 + 128)]) at h
  split at h
  · next hv =>
      right
      rw [List.mem_singleton.mp h]
      exact UInt8.toNat_ofNat_of_lt' (Nat.lt_of_le_of_lt hv (by decide))
  · left
    split at h
    · simp only [List.mem_cons, List.not_mem_nil, or_false] at h
      rcases h with rfl | rfl
      all_goals exact hbig (by omega) (by omega)
    · split at h
      · simp only [List.mem_cons, List.not_mem_nil, or_false] at h
        rcases h with rfl | rfl | rfl
        all_goals exact hbig (by omega) (by omega)
      · simp only [List.mem_cons, List.not_mem_nil, or_false] at h
        rcases h with rfl | rfl | rfl | rfl
        all_goals exact hbig (by omega) (by omega)

/-- No character but the two of a line end is written with their bytes. -/
theorem plain_utf8EncodeChar {c : Char} (h : plainChar c = true) :
    ∀ b ∈ RespFrame.crlf, b ∉ String.utf8EncodeChar c := by
  intro b hb hmem
  have hsmall : b.toNat = 13 ∨ b.toNat = 10 := by
    simp only [RespFrame.crlf, List.mem_cons, List.not_mem_nil, or_false] at hb
    rcases hb with rfl | rfl
    · exact .inl rfl
    · exact .inr rfl
  have hc : b.toNat = c.toNat := (byte_utf8EncodeChar hmem).resolve_left (by omega)
  simp only [plainChar, Bool.and_eq_true, bne_iff_ne, ne_eq] at h
  rcases hsmall with hb | hb
  · exact h.1 (Char.toNat_inj.mp (hc.symm.trans hb))
  · exact h.2 (Char.toNat_inj.mp (hc.symm.trans hb))

theorem plain_toBytes {t : String} (h : plainText t = true) : ∀ b ∈ RespFrame.crlf, b ∉ t.toBytes := by
  intro b hb hmem
  rw [← String.ofList_toList (s := t), toBytes_ofList] at hmem
  obtain ⟨c, hc, hbc⟩ := List.mem_flatMap.mp hmem
  exact plain_utf8EncodeChar (List.all_eq_true.mp h c hc) b hb hbc

theorem toBytes_append (s t : String) : (s ++ t).toBytes = s.toBytes ++ t.toBytes := by
  rw [← String.ofList_toList (s := s), ← String.ofList_toList (s := t), ← String.ofList_append, toBytes_ofList,
    toBytes_ofList, toBytes_ofList, List.flatMap_append]

/-- Plain text around a text leaves its line ends as they are. -/
theorem line_wrap_iff {a t c : String} (ha : plainText a = true) (hc : plainText c = true) :
    Line (a ++ t ++ c) ↔ Line t := by
  unfold Line RespFrame.OneLine
  rw [toBytes_append, toBytes_append, infix_between (by decide) (plain_toBytes ha) (plain_toBytes hc)]

theorem line_of_plainText {t : String} (h : plainText t = true) : Line t :=
  RespFrame.OneLine.of_not_mem (plain_toBytes h 13 (by decide))

theorem wording_line : Wording Line RespFrame.Unbroken where
  plain := line_of_plainText
  wrap ha hc ht := (line_wrap_iff ha hc).mpr ht
  line h := h
  status h := h
  integer _ := trivial
  bulk _ := trivial
  array _ := trivial

/-- The text of the error, if there is one, is plain. -/
def PlainError {α : Type} (r : Outcome α) : Prop := ∀ e, r = .err e → plainText e.display = true

namespace PlainError

variable {α : Type}

theorem ok (a : α) : PlainError (.ok a : Outcome α) := by
  rintro e ⟨⟩

theorem panic : PlainError (.panic : Outcome α) := by
  rintro e ⟨⟩

theorem err {e : FerrousError} (h : plainText e.display = true) : PlainError (.err e : Outcome α) := by
  rintro e' ⟨⟩
  exact h

theorem wrongType : PlainError (.err (.storage .wrongType) : Outcome α) := err (plainText_of_chars rfl)

theorem invalidDatabase : PlainError (.err Engine.invalidDatabase : Outcome α) := err (plainText_of_chars rfl)

end PlainError

open KeyOps in
theorem KeyCmd.step_plainError {α : Type} (c : KeyCmd α) (key : Key) (ctx : Ctx)
    (entry : Option StoredValue) : PlainError (c.step key ctx entry).result := by
  cases c
  case exists? | ttl => exact .ok _
  case append | strlen =>
    exact onString_rule (P := fun st => PlainError st.result) ctx (fun _ => .ok _) (fun _ _ _ _ => .ok _) .wrongType
  case lpush | rpush | lpop | rpop | llen | lrange | lindex | ltrim =>
    exact onList_rule (P := fun st => PlainError st.result) ctx (fun _ => .ok _) (fun _ _ _ _ => .ok _) .wrongType
  case sadd | srem | smembers | sismember | scard =>
    exact onSet_rule (P := fun st => PlainError st.result) ctx (fun _ => .ok _) (fun _ _ _ _ => .ok _) .wrongType
  case hset | hget | hmget | hgetall | hdel | hlen | hexists | hkeys | hvals =>
    exact onHash_rule (P := fun st => PlainError st.result) ctx (fun _ => .ok _) (fun _ _ _ _ => .ok _) .wrongType
  case zadd | zincrby | zscore | zrank | zrange | zrangebyscore | zcount | zcard =>
    exact onZset_rule (P := fun st => PlainError st.result) ctx (fun _ => .ok _) (fun _ _ _ _ => .ok _) .wrongType
  case xadd | xrange | xlen | xtrim | xdel =>
    exact onStream_rule (P := fun st => PlainError st.result) ctx (fun _ => .ok _) (fun _ _ _ _ => .ok _) .wrongType
  case groupCreate | groupDestroy | groupCreateConsumer | groupDeleteConsumer | groupSetId | readGroup | acknowledge |
      claim | autoClaim =>
    exact onGroups_rule (P := fun st => PlainError st.result) ctx (.ok _) (fun _ _ _ => .ok _)
      (fun _ _ _ _ _ => .ok _) (.ok _)
  case setStringNx =>
    simp only [step, KeyOps.setStringNx]
    split <;> exact .ok _
  case setStringNxEx =>
    simp only [step, KeyOps.setStringNxEx]
    split
    · exact .ok _
    · split
      · exact .ok _
      · exact .panic
  case setValue value d =>
    cases d with
    | none => exact .ok _
    | some d =>
        simp only [step, KeyOps.setValue]
        split
        · exact .ok _
        · exact .panic
  case get =>
    simp only [step, KeyOps.get]
    split
    · exact .ok _
    · split <;> exact .ok _
  case delete =>
    simp only [step, KeyOps.delete]
    split <;> exact .ok _
  case expire =>
    simp only [step, KeyOps.expire]
    split
    · exact .ok _
    · split
      · exact .panic
      · split
        · exact .panic
        · exact .ok _
  case pttl =>
    simp only [step, KeyOps.pttl]
    split <;> exact .ok _
  case persist =>
    simp only [step, KeyOps.persist]
    split
    · exact .ok _
    · split <;> exact .ok _
  case keyType =>
    simp only [step, KeyOps.keyType]
    split <;> exact .ok _
  case incrBy n =>
    simp only [step, KeyOps.incrBy]
    split
    · split
      · exact .err (plainText_of_chars rfl)
      · split
        · exact .ok _
        · exact .err (by decide)
    · exact .ok _
  case getString =>
    refine viaGet_rule (P := fun st => PlainError st.result) ctx (.ok _) (fun _ _ _ => .ok _) fun sv _ _ => ?_
    dsimp only
    split
    all_goals first
      | exact .ok _
      | exact .wrongType
  case getrange =>
    refine onString_rule (P := fun st => PlainError st.result) ctx (fun _ => .ok _) (fun sv b _ _ => ?_) .wrongType
    dsimp only
    repeat' split
    all_goals first
      | exact .ok _
      | exact .panic
  case setrange =>
    refine onString_rule (P := fun st => PlainError st.result) ctx (fun _ => ?_) (fun sv b _ _ => ?_) .wrongType
    all_goals
      split
      · exact .panic
      · exact .ok _
  case lset =>
    refine onList_rule (P := fun st => PlainError st.result) ctx (fun _ => .err (plainText_of_chars rfl))
      (fun sv b _ _ => ?_) .wrongType
    split
    · exact .ok _
    · exact .err (plainText_of_chars rfl)
  case lrem =>
    refine onList_rule (P := fun st => PlainError st.result) ctx (fun _ => .ok _) (fun sv b _ _ => ?_) .wrongType
    split
    · exact .panic
    · exact .ok _
  case srandmember | spop =>
    refine onSet_rule (P := fun st => PlainError st.result) ctx (fun _ => .ok _) (fun sv b _ _ => ?_) .wrongType
    dsimp only
    repeat' split
    all_goals first
      | exact .ok _
      | exact .panic
  case hincrby =>
    refine onHash_rule (P := fun st => PlainError st.result) ctx (fun _ => .ok _) (fun sv b _ _ => ?_) .wrongType
    dsimp only
    repeat' split
    all_goals first
      | exact .ok _
      | exact .panic
      | exact .err (plainText_of_chars rfl)
  case zrem =>
    refine onZset_rule (P := fun st => PlainError st.result) ctx (fun _ => .ok _) (fun sv b _ _ => ?_) .wrongType
    split
    all_goals exact .ok _
  case xaddWithId id fields =>
    have hadd (t : Stream) {msg : String} (h : t.addWithId id fields = .error msg) :
        PlainError (.err (.command (.generic msg)) : Outcome StreamId) := by
      have hplain : plainText msg = true := by
        unfold Stream.addWithId at h
        split at h
        · exact Except.error.inj h ▸ plainText_of_chars rfl
        · split at h
          · exact Except.error.inj h ▸ plainText_of_chars rfl
          · cases h
      exact .err (plainText_append.mpr ⟨plainText_of_chars rfl, hplain⟩)
    refine onStream_rule (P := fun st => PlainError st.result) ctx (fun _ => ?_) (fun sv b _ _ => ?_) .wrongType
    all_goals
      split
      · exact .ok _
      · next h => exact hadd _ h
  case hscan | sscan | zscan =>
    refine viaGet_rule (P := fun st => PlainError st.result) ctx (.ok _) (fun _ _ _ => .ok _) fun sv _ _ => ?_
    dsimp only
    repeat' split
    all_goals first
      | exact .ok _
      | exact .panic
      | exact .wrongType

theorem Engine.withEntry_plainError {α : Type} (e : Engine) (db : Nat) (key : Key) (ctx : Ctx) {f : KeyOp α}
    (h : ∀ entry, PlainError (f ctx entry).result) : PlainError (e.withEntry db key ctx f).1 := by
  unfold Engine.withEntry
  split
  · exact .invalidDatabase
  · dsimp only
    split
    · exact h _
    · split
      · exact .err (plainText_of_chars rfl)
      · exact h _

theorem Engine.foldSets_plainError (d : Database)
    (combine : FSet Bytes → Option (FSet Bytes) → Option (FSet Bytes)) (acc : FSet Bytes) (keys : List Key) :
    PlainError (foldSets d combine acc keys) := by
  induction keys generalizing acc with
  | nil => exact .ok _
  | cons key keys ih =>
      rw [foldSets]
      split
      · exact .wrongType
      · split
        · exact ih _
        · exact .ok _

theorem Engine.fromFirst_plainError (d : Database)
    (combine : FSet Bytes → Option (FSet Bytes) → Option (FSet Bytes)) (keys : List Key) :
    PlainError (fromFirst combine d keys) := by
  cases keys with
  | nil => exact .ok _
  | cons key keys =>
      rw [fromFirst]
      split
      · exact .wrongType
      · exact .ok _
      · exact foldSets_plainError _ _ _ _

theorem Engine.xreadLoop_plainError (d : Database) (count : Option Nat) (ks : List (Key × StreamId))
    (acc : List (Key × List StreamEntry)) : PlainError (xreadLoop d count ks acc) := by
  induction ks generalizing acc with
  | nil => exact .ok _
  | cons p ks ih =>
      rw [xreadLoop]
      split
      · exact ih _
      · split
        · exact ih _
        · exact .wrongType

theorem Engine.reading_plainError {α : Type} (e : Engine) (db : Nat) {f : Database → Outcome α}
    (h : ∀ d, PlainError (f d)) : PlainError (e.reading db f).1 := by
  unfold Engine.reading
  split
  · exact .invalidDatabase
  · exact h _

/-- No operation on the store fails with a text that has a line end in it. -/
theorem StoreCmd.run_plainError {α : Type} (c : StoreCmd α) (ctx : Ctx) (e : Engine) :
    PlainError (c.run ctx e).1 := by
  cases c with
  | getAllKeys db => exact e.reading_plainError db fun _ => .ok _
  | keys db pattern => exact e.reading_plainError db fun _ => .ok _
  | scan db cursor pattern typeFilter count => exact e.reading_plainError db fun _ => .ok _
  | sunion db ks =>
      simp only [run, Engine.sunion]
      split
      · exact .ok _
      · exact e.reading_plainError db fun d => Engine.foldSets_plainError d _ _ _
  | sinter db ks =>
      simp only [run, Engine.sinter]
      split
      · exact .ok _
      · exact e.reading_plainError db fun d => Engine.fromFirst_plainError d _ _
  | sdiff db ks =>
      simp only [run, Engine.sdiff]
      split
      · exact .ok _
      · exact e.reading_plainError db fun d => Engine.fromFirst_plainError d _ _
  | xread db ks count block =>
      simp only [run, Engine.xread]
      split
      · exact .err (by decide)
      · split
        · exact .ok _
        · exact e.reading_plainError db fun d => Engine.xreadLoop_plainError d _ _ _
  | rename db old new =>
      simp only [run, Engine.rename]
      split
      · exact .invalidDatabase
      · split
        · exact .err (plainText_of_chars rfl)
        · split
          · exact .invalidDatabase
          · exact .ok _
  | flushDb db =>
      simp only [run, Engine.flushDb]
      split
      · exact .invalidDatabase
      · exact .ok _
  | registerWatch db key =>
      simp only [run, Engine.registerWatch]
      split
      · exact .invalidDatabase
      · exact .ok _
  | unregisterWatch db key =>
      simp only [run, Engine.unregisterWatch]
      split
      · exact .invalidDatabase
      · exact .ok _
  | wasModifiedSince db key baseline =>
      simp only [run, Engine.wasModifiedSince]
      split
      · exact .invalidDatabase
      · exact .ok _
  | _ => exact .ok _

theorem World.step_plainError (ω : Nat → Ctx) (β : Type) (o : Op β) (w : World) :
    PlainError (World.step ω β o w).1 := by
  cases o with
  | key db key c => exact w.engine.withEntry_plainError db key _ fun entry => c.step_plainError key _ entry
  | store c => exact c.run_plainError _ _

/-! ## What operations answer -/

/-- The operation answers so in some world. -/
def Answered (ω : Nat → Ctx) (β : Type) (o : Op β) : Except FerrousError β → Prop
  | .ok b => ∃ w, (World.step ω β o w).1 = .ok b
  | .error e => ∃ w, (World.step ω β o w).1 = .err e

theorem answered_step (ω : Nat → Ctx) (β : Type) (o : Op β) (w : World) :
    Prog.Afterwards (World.step ω β o w) fun r _ => Answered ω β o r := by
  rcases h : World.step ω β o w with ⟨b | e | _, w'⟩
  · exact ⟨w, congrArg Prod.fst h⟩
  · exact ⟨w, congrArg Prod.fst h⟩
  · trivial

/-- An operation on a key answers what it decides from some entry. -/
theorem Engine.withEntry_eq_ok {α : Type} {e : Engine} {db : Nat} {key : Key} {ctx : Ctx} {f : KeyOp α} {a : α}
    (h : (e.withEntry db key ctx f).1 = .ok a) : ∃ entry, (f ctx entry).result = .ok a := by
  unfold Engine.withEntry at h
  split at h
  · cases h
  · dsimp only at h
    split at h
    · exact ⟨_, h⟩
    · split at h
      · cases h
      · exact ⟨_, h⟩

/-- What a group command answers on a stream it finds is what it makes of it. -/
theorem answered_group {ω : Nat → Ctx} {db : Nat} {key : Key} {α : Type} {c : KeyCmd (StreamAccess α)}
    {g : GroupCmd α} (hc : c.step key = KeyOps.onGroups g) {a : α}
    (h : Answered ω _ (.key db key c) (.ok (.found a))) : ∃ ctx s, a = (g.apply ctx s).1 := by
  obtain ⟨w, hw⟩ := h
  obtain ⟨entry, hentry⟩ := Engine.withEntry_eq_ok hw
  rw [hc] at hentry
  revert hentry
  refine KeyOps.onGroups_rule (P := fun st => st.result = .ok (.found a) → ∃ ctx s, a = (g.apply ctx s).1) _
    (by rintro ⟨⟩) (fun _ _ _ => by rintro ⟨⟩) (fun sv s _ _ _ h => ?_) (by rintro ⟨⟩)
  cases h
  exact ⟨_, s, rfl⟩

theorem answers_answered (ω : Nat → Ctx) : Answers Line (Answered ω) where
  error := by
    rintro β o e ⟨w, hw⟩
    exact line_of_plainText (World.step_plainError ω β o w e hw)
  type := by
    rintro db key t ⟨w, hw⟩
    obtain ⟨entry, hentry⟩ := Engine.withEntry_eq_ok hw
    cases entry with
    | none =>
        cases hentry
        exact line_of_plainText (plainText_of_chars rfl)
    | some sv =>
        cases hentry
        cases sv.value
        all_goals exact line_of_plainText (plainText_of_chars rfl)

theorem error_of_settle {α : Type} {s : Stream} {r : Except String (α × Stream)} {msg : String}
    (h : Except.error msg = (GroupCmd.settle s r).1) : r = .error msg := by
  cases r with
  | ok p => cases h
  | error m =>
      cases h
      rfl

/-- A text that starts with another contains it, whatever follows. -/
theorem containsText_lead {a t c sub : String} (h : sub.toList <+: a.toList) :
    containsText (a ++ t ++ c) sub = true := by
  refine List.any_eq_true.mpr ⟨_, (List.mem_tails _ _).mpr (List.suffix_refl _), ?_⟩
  rw [List.isPrefixOf_iff_prefix, String.toList_append, String.toList_append, List.append_assoc]
  exact h.trans (List.prefix_append _ _)

theorem containsText_noGroup (group : String) : containsText (Stream.noGroup group) "NOGROUP" = true :=
  containsText_lead ⟨" No such consumer group ".toList, rfl⟩
theorem groupAnswers_answered (ω : Nat → Ctx) : GroupAnswers Line (Answered ω) where
  created := by
    intro db key group start msg h
    obtain ⟨ctx, s, hmsg⟩ := answered_group (g := .create group start) rfl h
    have hcreate := error_of_settle hmsg
    unfold Stream.createConsumerGroup at hcreate
    split at hcreate
    · cases hcreate
      exact line_of_plainText (plainText_of_chars rfl)
    · cases hcreate
  read := by
    intro db key group consumer after limit noack msg hname h
    obtain ⟨ctx, s, hmsg⟩ := answered_group (g := .readGroup group consumer after limit noack) rfl h
    have hread := error_of_settle hmsg
    unfold Stream.readGroup at hread
    split at hread
    · exact Except.error.inj hread ▸ hname
    · dsimp only at hread
      repeat' split at hread
      all_goals cases hread
  acknowledged := by
    intro db key group ids msg hno h
    obtain ⟨ctx, s, hmsg⟩ := answered_group (g := .acknowledge group ids) rfl h
    have hack := error_of_settle hmsg
    unfold Stream.acknowledgeMessages at hack
    split at hack
    · rw [← Except.error.inj hack] at hno
      rw [containsText_noGroup] at hno
      cases hno
    · cases hack
  claimed := by
    intro db key group consumer idle ids force msg hname h
    obtain ⟨ctx, s, hmsg⟩ := answered_group (g := .claim group consumer idle ids force) rfl h
    have hclaim := error_of_settle hmsg
    unfold Stream.claimMessages at hclaim
    split at hclaim
    · exact Except.error.inj hclaim ▸ hname
    · cases hclaim

end Ferrous
