/-
# `Storage.RdbCorruption` — files that hold anything

A snapshot may have been damaged, or may never have been one.  Whatever its bytes are, the load
ends with the store filled or with an error; it does not panic.
-/
import Ferrous.Lib.Fearless
import Ferrous.Storage.KeyFacts
import Ferrous.Storage.Rdb

namespace Ferrous

open Lib

namespace Rdb

/-- The clocks are so far from their end that every deadline a file can name fits. -/
def ClocksLast (ω : Nat → Ctx) : Prop := ∀ n, (ω n).indexStamp + fromMillis (2 ^ 64) ≤ instantLimit

/-- The operation panics on no store. -/
def Harmless (ω : Nat → Ctx) (β : Type) (o : Op β) : Prop := ∀ w, (World.step ω β o w).1 ≠ .panic

/-! ## The operations of a load -/

section Operations

variable {ω : Nat → Ctx} {db : Nat} {key : Key} {α : Type}

theorem harmless_key {c : KeyCmd α} (h : ∀ n entry, (c.step key (ω n) entry).result ≠ .panic) :
    Harmless ω α (.key db key c) := by
  intro w
  show (w.engine.withEntry db key (ω w.calls) (c.step key)).1 ≠ .panic
  unfold Engine.withEntry
  split
  · intro hp
    cases hp
  · dsimp only
    split
    · exact h _ _
    · split
      · intro hp
        cases hp
      · exact h _ _

theorem harmless_systemTime : Harmless ω Nat (.store .systemTime) := by
  intro w hp
  cases hp

/-- A duration that a file can name. -/
def Short (ttl : Option Duration) : Prop := ∀ d, ttl = some d → d < fromMillis (2 ^ 64)

theorem instantAdd_of_lasting (hω : ClocksLast ω) {d : Duration} (hd : d < fromMillis (2 ^ 64)) (n : Nat) :
    (∃ t, instantAdd (ω n).stamp d = some t) ∧ ∃ t, instantAdd (ω n).indexStamp d = some t := by
  have hlate : (ω n).indexStamp + d < instantLimit :=
    Nat.lt_of_lt_of_le (Nat.add_lt_add_left hd _) (hω n)
  have hsoon : (ω n).stamp + d < instantLimit :=
    Nat.lt_of_le_of_lt (Nat.add_le_add_right (ω n).stamp_le_indexStamp d) hlate
  exact ⟨⟨_, if_pos hsoon⟩, ⟨_, if_pos hlate⟩⟩

theorem harmless_setValue (hω : ClocksLast ω) (value : Value) {ttl : Option Duration} (httl : Short ttl) :
    Harmless ω Unit (.key db key (.setValue value ttl)) := by
  refine harmless_key fun n entry => ?_
  show (KeyOps.setValue key value ttl (ω n) entry).result ≠ .panic
  cases ttl with
  | none =>
      intro hp
      cases hp
  | some d =>
      obtain ⟨t, ht⟩ := (instantAdd_of_lasting hω (httl d rfl) n).1
      simp only [KeyOps.setValue, ht]
      intro hp
      cases hp

theorem harmless_expire (hω : ClocksLast ω) {d : Duration} (hd : d < fromMillis (2 ^ 64)) :
    Harmless ω Bool (.key db key (.expire d)) := by
  refine harmless_key fun n entry => ?_
  show (KeyOps.expire d (ω n) entry).result ≠ .panic
  cases entry with
  | none =>
      intro hp
      cases hp
  | some sv =>
      obtain ⟨⟨t, ht⟩, t', ht'⟩ := instantAdd_of_lasting hω hd n
      simp only [KeyOps.expire, ht, ht']
      intro hp
      cases hp

theorem harmless_zadd (member : Bytes) (score : Float64) : Harmless ω Bool (.key db key (.zadd member score)) :=
  harmless_key fun n _ => by
    refine KeyOps.onZset_rule (P := fun st => st.result ≠ .panic) (ω n) (fun _ => ?_) (fun _ _ _ _ => ?_) ?_
    all_goals
      intro hp
      cases hp

theorem harmless_rpush (elements : List Bytes) : Harmless ω Nat (.key db key (.rpush elements)) :=
  harmless_key fun n _ => by
    refine KeyOps.onList_rule (P := fun st => st.result ≠ .panic) (ω n) (fun _ => ?_) (fun _ _ _ _ => ?_) ?_
    all_goals
      intro hp
      cases hp

theorem harmless_sadd (members : List Bytes) : Harmless ω Nat (.key db key (.sadd members)) :=
  harmless_key fun n _ => by
    refine KeyOps.onSet_rule (P := fun st => st.result ≠ .panic) (ω n) (fun _ => ?_) (fun _ _ _ _ => ?_) ?_
    all_goals
      intro hp
      cases hp

theorem harmless_hset (fieldValues : List (Bytes × Bytes)) :
    Harmless ω Nat (.key db key (.hset fieldValues)) :=
  harmless_key fun n _ => by
    refine KeyOps.onHash_rule (P := fun st => st.result ≠ .panic) (ω n) (fun _ => ?_) (fun _ _ _ _ => ?_) ?_
    all_goals
      intro hp
      cases hp

theorem harmless_xaddWithId (id : StreamId) (fields : Map Bytes Bytes) :
    Harmless ω StreamId (.key db key (.xaddWithId id fields)) :=
  harmless_key fun n _ => by
    refine KeyOps.onStream_rule (P := fun st => st.result ≠ .panic) (ω n) (fun _ => ?_) (fun _ _ _ _ => ?_) ?_
    · split
      all_goals
        intro hp
        cases hp
    · split
      all_goals
        intro hp
        cases hp
    · intro hp
      cases hp

end Operations

/-! ## Readers of the format -/

section Readers

variable {ω : Nat → Ctx}

theorem fearless_exact (n : Nat) : Fearless (Harmless ω) (readExact n) fun bs => bs.length = n := by
  intro bs
  show (if bs.length < n then Prog.fail _ else .ret (bs.take n, bs.drop n)).Fearless _ _
  split
  · trivial
  · next hlen =>
      show (bs.take n).length = n
      rw [List.length_take]
      omega

theorem fearless_byte : Fearless (Harmless ω) readByte fun _ => True :=
  (fearless_exact 1).bind fun _ _ => .pure trivial

theorem fearless_u32Le : Fearless (Harmless ω) readU32Le (· < 2 ^ 32) :=
  (fearless_exact 4).bind fun buf hbuf => .pure (by
    have hlt := ofLeBytes_lt buf
    rw [hbuf] at hlt
    exact hlt)

theorem fearless_u32Be : Fearless (Harmless ω) readU32Be fun _ => True :=
  (fearless_exact 4).bind fun _ _ => .pure trivial

theorem fearless_u64Le : Fearless (Harmless ω) readU64Le (· < 2 ^ 64) :=
  (fearless_exact 8).bind fun buf hbuf => .pure (by
    have hlt := ofLeBytes_lt buf
    rw [hbuf] at hlt
    exact hlt)

theorem fearless_f64 : Fearless (Harmless ω) readF64 fun _ => True :=
  (fearless_exact 8).bind fun _ _ => .pure trivial

theorem fearless_length : Fearless (Harmless ω) readLength fun _ => True :=
  fearless_byte.bind fun _ _ => by
    split
    · exact .pure trivial
    · split
      · exact fearless_byte.bind fun _ _ => .pure trivial
      · split
        · exact fearless_u32Be
        · exact .fails _

theorem fearless_string : Fearless (Harmless ω) readString fun _ => True :=
  fearless_length.bind fun n _ => (fearless_exact n).mono fun _ _ => trivial

theorem fearless_pair : Fearless (Harmless ω) readPair fun _ => True :=
  fearless_string.bind fun _ _ => fearless_string.bind fun _ _ => .pure trivial

theorem fearless_header : Fearless (Harmless ω) readHeader fun _ => True :=
  (fearless_exact 5).bind fun _ _ => by
    split
    · exact .fails _
    · refine (fearless_exact 4).bind fun _ _ => ?_
      split
      · exact .pure trivial
      · exact .fails _

theorem fearless_call {α : Type} {o : Op α} (h : Harmless ω α o) :
    Fearless (Harmless ω) (call o) fun _ => True :=
  .lift (.perform h)

/-! ## Records -/

variable (db : Nat) (key : Key)

theorem fearless_scored : ∀ n, Fearless (Harmless ω) (readScored db key n) fun _ => True
  | 0 => .pure trivial
  | n + 1 => fearless_string.bind fun _ _ => fearless_f64.bind fun _ _ =>
      (fearless_call (harmless_zadd _ _)).bind fun _ _ => fearless_scored n

theorem fearless_elements : ∀ n, Fearless (Harmless ω) (readElements db key n) fun _ => True
  | 0 => .pure trivial
  | n + 1 => fearless_string.bind fun _ _ => (fearless_call (harmless_rpush _)).bind fun _ _ =>
      fearless_elements n

theorem fearless_entries (remaining : Nat) :
    ∀ fuel idx, Fearless (Harmless ω) (readEntries false db key remaining fuel idx) fun _ => True
  | 0, _ => .pure trivial
  | fuel + 1, idx => by
      rw [readEntries]
      split
      · exact .pure trivial
      · refine fearless_string.bind fun idStr _ => fearless_string.bind fun countStr _ => ?_
        simp only [Bool.false_and, Bool.false_eq_true, if_false]
        split
        · exact .pure trivial
        · refine (fearless_pair.times _).bind fun fields _ => ?_
          split
          · exact (Fearless.lift (.attempt (harmless_xaddWithId _ _))).bind fun _ _ =>
              fearless_entries remaining fuel _
          · exact fearless_entries remaining fuel _

theorem fearless_expireBy (hω : ClocksLast ω) :
    ∀ {ttl : Option Duration}, Short ttl → Fearless (Harmless ω) (expireBy db key ttl) fun _ => True
  | some _, httl => (fearless_call (harmless_expire hω (httl _ rfl))).bind fun _ _ => .pure trivial
  | none, _ => .pure trivial

theorem fearless_typed (hω : ClocksLast ω) (valueType : UInt8) {ttl : Option Duration} (httl : Short ttl) :
    Fearless (Harmless ω) (readKeyValueWithType false db valueType ttl) fun _ => True := by
  unfold readKeyValueWithType
  split
  · exact fearless_string.bind fun _ _ => fearless_string.bind fun _ _ =>
      fearless_call (harmless_setValue hω _ httl)
  · split
    · exact fearless_string.bind fun key _ => fearless_length.bind fun _ _ =>
        (fearless_scored db key _).bind fun _ _ => fearless_expireBy db key hω httl
    · split
      · refine fearless_string.bind fun key _ => fearless_length.bind fun count _ => ?_
        split
        · refine fearless_string.bind fun first _ => ?_
          split
          · exact (fearless_entries db key _ _ _).bind fun _ _ => fearless_expireBy db key hω httl
          · exact (fearless_call (harmless_rpush _)).bind fun _ _ =>
              (fearless_elements db key _).bind fun _ _ => fearless_expireBy db key hω httl
        · exact fearless_expireBy db key hω httl
      · split
        · exact fearless_string.bind fun key _ => fearless_length.bind fun _ _ =>
            (fearless_string.times _).bind fun _ _ => (fearless_call (harmless_sadd _)).bind fun _ _ =>
              fearless_expireBy db key hω httl
        · split
          · exact fearless_string.bind fun key _ => fearless_length.bind fun _ _ =>
              (fearless_pair.times _).bind fun _ _ => (fearless_call (harmless_hset _)).bind fun _ _ =>
                fearless_expireBy db key hω httl
          · exact .fails _

theorem fearless_withExpiry (hω : ClocksLast ω) {expiryMs : Nat} (hms : expiryMs < 2 ^ 64) :
    Fearless (Harmless ω) (readKeyValueWithExpiry false db expiryMs) fun _ => True :=
  fearless_byte.bind fun valueType _ => (fearless_call harmless_systemTime).bind fun now _ => by
    refine fearless_typed db hω valueType ?_
    intro d hd
    split at hd
    · cases hd
      exact Nat.mul_lt_mul_of_pos_right (Nat.lt_of_le_of_lt (Nat.sub_le _ _) hms) (by decide)
    · cases hd

/-! ## Whole files -/

theorem fearless_loadLoop (hω : ClocksLast ω) :
    ∀ fuel db, Fearless (Harmless ω) (loadLoop false fuel db) fun _ => True
  | 0, _ => .fails _
  | fuel + 1, db => fearless_byte.bind fun opcode _ => by
      have hnone : Short none := by
        intro d hd
        cases hd
      split
      · exact fearless_u64Le.bind fun _ _ => .pure trivial
      · split
        · exact fearless_length.bind fun _ _ => fearless_loadLoop hω fuel _
        · split
          · exact fearless_length.bind fun _ _ => fearless_length.bind fun _ _ => fearless_loadLoop hω fuel db
          · split
            · exact fearless_string.bind fun _ _ => fearless_string.bind fun _ _ =>
                fearless_loadLoop hω fuel db
            · split
              · exact fearless_u64Le.bind fun ms hms => (fearless_withExpiry db hω hms).bind fun _ _ =>
                  fearless_loadLoop hω fuel db
              · split
                · refine fearless_u32Le.bind fun s hs => ?_
                  have hms : s * 1000 < 2 ^ 64 := by omega
                  exact (fearless_withExpiry db hω hms).bind fun _ _ => fearless_loadLoop hω fuel db
                · exact (fearless_typed db hω opcode hnone).bind fun _ _ => fearless_loadLoop hω fuel db

end Readers

end Rdb

open Rdb

/-- Whatever bytes a file holds and whatever the store holds already, the load of a release build
ends with an answer or an error and not with a panic, as long as the clocks have room for the
deadlines a file can name. -/
theorem load_never_panics (ω : Nat → Ctx) (hω : ClocksLast ω) (file : Bytes) (w : World) :
    ((loadInto false file).run (World.step ω) w).1 ≠ .panic := by
  have hfile : Fearless (Harmless ω)
      (readHeader >>= fun _ => loadLoop false (file.length + 1) 0) fun _ => True :=
    fearless_header.bind fun _ _ => fearless_loadLoop hω _ 0
  have hload : (loadInto false file).Fearless (Harmless ω) fun _ => True :=
    (hfile file).bind fun _ _ => trivial
  exact hload.run (fun _ _ w h => h w) w

/-- A string with a deadline as late as a file can name one. -/
def lastDeadline : Bytes :=
  writeHeader ++ RdbOpcode.expireTimeMs.code :: writeU64Le (2 ^ 64 - 1) ++
    RdbOpcode.string.code :: writeString "k".toBytes ++ writeString "v".toBytes ++
    RdbOpcode.eof.code :: writeU64Le 0

theorem load_never_panics_lastDeadline :
    ((loadInto false lastDeadline).run (World.step fun _ => .at 0) ⟨Engine.withConfig 1 .unlimited, 0⟩).1 ≠ .panic :=
  load_never_panics (fun _ => .at 0)
    (fun _ => by
      show 0 + fromMillis (2 ^ 64) ≤ instantLimit
      decide) lastDeadline _

end Ferrous
