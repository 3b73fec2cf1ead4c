/-
# `Storage.RdbRecords` — loading one record

First the pieces of the format: each reader takes exactly the bytes its writer
made.  Then what "the same value" means after a load, and the load of one record
of a string, a set, a hash or a sorted set into a store that lacks the key.
-/
import Ferrous.Storage.Rdb

namespace Ferrous

open Lib

namespace Rdb

/-! ## Pieces of the format -/

theorem reads_exact (bs : Bytes) : Reads (readExact bs.length) bs bs := by
  intro rest
  have hlen : ¬ (bs ++ rest).length < bs.length := by simp
  simp only [readExact, hlen, if_false, List.take_left, List.drop_left]
  rfl

theorem reads_exact_of_length {n : Nat} (bs : Bytes) (h : bs.length = n) :
    Reads (readExact n) bs bs := h ▸ reads_exact bs

theorem reads_byte (b : UInt8) : Reads readByte [b] b :=
  (reads_exact_of_length [b] rfl).map fun buf => buf.headD 0

theorem reads_u64Le (n : Nat) : Reads readU64Le (writeU64Le n) (n % 2 ^ 64) := by
  have h := (reads_exact_of_length _ (length_toLeBytes 8 n)).map ofLeBytes
  rwa [ofLeBytes_toLeBytes] at h

theorem reads_f64 (x : Float64) : Reads readF64 (writeF64 x) x := by
  have h := (reads_exact_of_length _ (length_toLeBytes 8 x.bits.toNat)).map
    fun buf => (⟨UInt64.ofNat (ofLeBytes buf)⟩ : Float64)
  have hx : (⟨UInt64.ofNat (ofLeBytes (toLeBytes 8 x.bits.toNat))⟩ : Float64) = x := by
    have hlt : x.bits.toNat < 256 ^ 8 := x.bits.toNat_lt
    rw [ofLeBytes_toLeBytes, Nat.mod_eq_of_lt hlt, UInt64.ofNat_toNat]
  rwa [hx] at h

theorem reads_u32Be (n : Nat) : Reads readU32Be (toBeBytes 4 n) (n % 2 ^ 32) := by
  have h := (reads_exact_of_length _ (length_toBeBytes 4 n)).map ofBeBytes
  rwa [ofBeBytes_toBeBytes] at h

/-- The two top bits of a first byte tell the three widths apart. -/
theorem shift_of_le : ∀ n : Fin 64, UInt8.ofNat n >>> 6 = 0 ∧ (UInt8.ofNat n).toNat = n := by
  decide

@[inherit_doc shift_of_le]
theorem shift_of_high : ∀ n : Fin 64, (UInt8.ofNat n ||| 0x40) >>> 6 = 1 ∧
    ((UInt8.ofNat n ||| 0x40) &&& 0x3F).toNat = n := by
  decide

/-- A length is read back modulo `2^32`, which is the widest the format has. -/
theorem reads_length (n : Nat) : Reads readLength (writeLength n) (n % 2 ^ 32) := by
  unfold writeLength
  split
  · next h =>
      obtain ⟨h₀, h₁⟩ := shift_of_le ⟨n, by omega⟩
      dsimp only at h₀ h₁
      intro rest
      rw [readLength, (reads_byte _).bind_run, if_pos h₀, h₁, Nat.mod_eq_of_lt (by omega)]
      rfl
  · split
    · next h =>
        have hhi : (n >>> 8) &&& 0x3F = n / 256 := by
          have hm : n / 256 &&& 0x3F = n / 256 % 64 := Nat.and_two_pow_sub_one_eq_mod _ 6
          rw [Nat.shiftRight_eq_div_pow, hm]
          exact Nat.mod_eq_of_lt (by omega)
        have hlo : (UInt8.ofNat (n &&& 0xFF)).toNat = n % 256 := by
          have hm : n &&& 0xFF = n % 256 := Nat.and_two_pow_sub_one_eq_mod n 8
          rw [hm, UInt8.toNat_ofNat']
          omega
        obtain ⟨h₀, h₁⟩ := shift_of_high ⟨n / 256, by omega⟩
        dsimp only at h₀ h₁
        have hne : ¬ (UInt8.ofNat (n / 256) ||| 0x40) >>> 6 = 0 := by rw [h₀]; decide
        have hval : (n / 256) <<< 8 ||| n % 256 = n % 2 ^ 32 := by
          rw [Nat.shiftLeft_eq, Nat.mul_comm, ← Nat.two_pow_add_eq_or_of_lt (i := 8) (by omega)]
          omega
        intro rest
        rw [hhi, readLength, List.cons_append, ← List.singleton_append, (reads_byte _).bind_run,
          if_neg hne, if_pos h₀, ((reads_byte _).map _) rest, h₁, hlo, hval]
    · intro rest
      rw [readLength, List.cons_append, ← List.singleton_append, (reads_byte _).bind_run,
        if_neg (by decide), if_neg (by decide), if_pos (by decide), reads_u32Be n rest]

theorem reads_length_of_lt {n : Nat} (h : n < 2 ^ 32) : Reads readLength (writeLength n) n := by
  have hn := reads_length n
  rwa [Nat.mod_eq_of_lt h] at hn

theorem reads_string {s : Bytes} (h : s.length < 2 ^ 32) : Reads readString (writeString s) s :=
  (reads_length_of_lt h).bind (reads_exact s)

theorem reads_pair {p : Bytes × Bytes} (h₁ : p.1.length < 2 ^ 32) (h₂ : p.2.length < 2 ^ 32) :
    Reads readPair (writePair p) p :=
  (reads_string h₁).bind ((reads_string h₂).map _)

end Rdb

/-! ## What comes back -/

/-- Two values hold the same: the members of a set and the fields of a hash may
be listed in another order, and a sorted set may be built at other heights. -/
def Value.Same : Value → Value → Prop
  | .string a, .string b => a = b
  | .list a, .list b => a = b
  | .set a, .set b => ∀ m, a.contains m = b.contains m
  | .hash a, .hash b => ∀ f, a.get? f = b.get? f
  | .sortedSet a, .sortedSet b => a.items = b.items ∧ ∀ m, a.getScore m = b.getScore m
  | .stream a, .stream b => a = b
  | _, _ => False

/-- Two entries hold the same value until the same deadline, or neither is there. -/
def SameEntry : Option StoredValue → Option StoredValue → Prop
  | none, none => True
  | some a, some b => a.value.Same b.value ∧ a.expiresAt = b.expiresAt
  | _, _ => False

/-- A string, or a non-empty set, hash or sorted set without NaNs, with every
length and count below `2^32`. -/
def Value.Portable : Value → Prop
  | .string bytes => bytes.length < 2 ^ 32
  | .set members => 0 < members.size ∧ members.size < 2 ^ 32 ∧
      ∀ m ∈ members.keyList, m.length < 2 ^ 32
  | .hash fields => 0 < fields.size ∧ fields.size < 2 ^ 32 ∧
      ∀ p ∈ fields.toPairs, p.1.length < 2 ^ 32 ∧ p.2.length < 2 ^ 32
  | .sortedSet z => 0 < z.len ∧ z.len < 2 ^ 32 ∧
      ∀ p ∈ z.items, p.1.length < 2 ^ 32 ∧ p.2.isNaN = false
  | _ => False

instance : DecidablePred Value.Portable
  | .string bytes => inferInstanceAs (Decidable (bytes.length < 2 ^ 32))
  | .set members => inferInstanceAs (Decidable (0 < members.size ∧ members.size < 2 ^ 32 ∧
      ∀ m ∈ members.keyList, m.length < 2 ^ 32))
  | .hash fields => inferInstanceAs (Decidable (0 < fields.size ∧ fields.size < 2 ^ 32 ∧
      ∀ p ∈ fields.toPairs, p.1.length < 2 ^ 32 ∧ p.2.length < 2 ^ 32))
  | .sortedSet z => inferInstanceAs (Decidable (0 < z.len ∧ z.len < 2 ^ 32 ∧
      ∀ p ∈ z.items, p.1.length < 2 ^ 32 ∧ p.2.isNaN = false))
  | .list _ => inferInstanceAs (Decidable False)
  | .stream _ => inferInstanceAs (Decidable False)

/-! ## Sorted sets rebuilt in order -/

namespace SkipList

theorem rangeByRank_all (z : SkipList) : z.rangeByRank 0 (z.len - 1) = z.items := by
  show (if z.1.length ≤ 0 then [] else _) = z.1.items
  split
  · next h =>
      have hz : z.1.chain.length = 0 := by rw [← z.2.length_eq]; omega
      rw [SkipChain.items, List.eq_nil_of_length_eq_zero hz]
      rfl
  · next h =>
      have hlen : z.1.items.length = z.1.length := z.length_items
      have hn : min (z.len - 1 + 1) z.1.length - 0 = z.1.items.length := by
        rw [hlen]
        show min (z.1.length - 1 + 1) z.1.length - 0 = z.1.length
        omega
      rw [hn, List.drop_zero, List.take_length]

/-- No score of the set is a NaN. -/
def NaNFree (z : SkipList) : Prop := ∀ p ∈ z.items, p.2.isNaN = false

theorem NaNFree.chain {z : SkipList} (h : z.NaNFree) : z.1.NaNFree :=
  fun n hn => h (n.key, n.value) (List.mem_map.mpr ⟨n, hn, rfl⟩)

/-- Without NaNs the score of a member is the one listed with it. -/
theorem getScore_eq_some {z : SkipList} (h : z.NaNFree) {m : Bytes} {v : Float64} :
    z.getScore m = some v ↔ (m, v) ∈ z.items := by
  show z.1.keyIndex.get? m = some v ↔ _
  rw [z.2.indexed h.chain]
  constructor
  · rintro ⟨n, hn, rfl, rfl⟩
    exact List.mem_map.mpr ⟨n, hn, rfl⟩
  · intro hm
    obtain ⟨n, hn, he⟩ := List.mem_map.mp hm
    cases he
    exact ⟨n, hn, rfl, rfl⟩

theorem nodup_members {z : SkipList} (h : z.NaNFree) : (z.items.map Prod.fst).Nodup := by
  have hn := z.2.nodup h.chain
  show ((z.1.chain.map _).map Prod.fst).Nodup
  rwa [List.map_map]

/-- The order of the listed pairs. -/
def PairLt (p q : Bytes × Float64) : Prop := SkipChain.compareNodes p.2 p.1 q.2 q.1 = .lt

/-- Without NaNs the pairs are listed in strictly ascending order. -/
theorem items_sorted {z : SkipList} (h : z.NaNFree) : z.items.Pairwise PairLt := by
  show (z.1.chain.map _).Pairwise PairLt
  rw [List.pairwise_map]
  refine List.Pairwise.imp₂ (S := fun a b : SkipNode => a.key ≠ b.key) ?_ z.2.sorted
    (List.pairwise_map.mp (z.2.nodup h.chain))
  intro a b hle hne
  -- two nodes that compare equal share the member
  show SkipChain.compareOf a b = .lt
  unfold SkipChain.Precedes at hle
  cases hc : SkipChain.compareOf a b with
  | lt => rfl
  | eq => exact absurd (SkipChain.key_eq_of_compareOf_eq hc) hne
  | gt => rw [hc] at hle; cases hle

/-- A new member above all others goes to the end. -/
theorem items_insert {z : SkipList} (h : z.NaNFree) {p : Bytes × Float64} (level : Nat)
    (hp : ∀ q ∈ z.items, PairLt q p) (hm : p.1 ∉ z.items.map Prod.fst) :
    (z.insert p.1 p.2 level).2.items = z.items ++ [p] := by
  have hnew : z.1.keyIndex.get? p.1 = none := by
    cases hg : z.1.keyIndex.get? p.1 with
    | none => rfl
    | some v =>
        have hv := (getScore_eq_some h).mp hg
        exact absurd (List.mem_map.mpr ⟨_, hv, rfl⟩) hm
  have hall : ∀ n ∈ z.1.chain, SkipChain.isBefore p.2 p.1 n = true := by
    intro n hn
    have hlt := hp (n.key, n.value) (List.mem_map.mpr ⟨n, hn, rfl⟩)
    show (SkipChain.compareNodes n.value n.key p.2 p.1 == .lt) = true
    rw [show SkipChain.compareNodes n.value n.key p.2 p.1 = .lt from hlt]
    rfl
  show (z.1.insert p.1 p.2 level).2.items = z.1.items ++ [p]
  simp only [SkipChain.insert, hnew, SkipChain.insertNewNode, SkipChain.items]
  rw [List.takeWhile_eq_self_iff.mpr hall, List.dropWhile_eq_nil_iff.mpr hall]
  simp

theorem same_of_items_eq {a b : SkipList} (ha : a.NaNFree) (h : a.items = b.items) :
    (Value.sortedSet a).Same (.sortedSet b) := by
  refine ⟨h, fun m => Option.ext fun v => ?_⟩
  have hb : b.NaNFree := fun p hp => ha p (h ▸ hp)
  rw [getScore_eq_some ha, getScore_eq_some hb, h]

end SkipList

/-! ## Calls on one key -/

/-- Only the entry of one key may differ. -/
structure OnlyChanges (db : Nat) (key : Key) (e e' : Engine) : Prop where
  others : ∀ db' key', ¬ (db' = db ∧ key' = key) → e'.entryAt db' key' = e.entryAt db' key'
  length : e'.databases.length = e.databases.length
  maxMemory : e'.memory.maxMemory = e.memory.maxMemory

theorem OnlyChanges.refl (db : Nat) (key : Key) (e : Engine) : OnlyChanges db key e e :=
  ⟨fun _ _ _ => rfl, rfl, rfl⟩

theorem OnlyChanges.trans {db : Nat} {key : Key} {e₁ e₂ e₃ : Engine}
    (h : OnlyChanges db key e₁ e₂) (h' : OnlyChanges db key e₂ e₃) : OnlyChanges db key e₁ e₃ :=
  ⟨fun db' key' hne => (h'.others db' key' hne).trans (h.others db' key' hne),
    h'.length.trans h.length, h'.maxMemory.trans h.maxMemory⟩

/-- A call on one key changes no other. -/
theorem World.step_only {ω : Nat → Ctx} {w : World} {db : Nat} (key : Key) {α : Type}
    (c : KeyCmd α) (hdb : db < w.engine.databases.length) :
    OnlyChanges db key w.engine (World.step ω α (.key db key c) w).2.engine where
  others db' key' hne := by
    have hat := Engine.withEntry_entryAt hdb key (ω w.calls) (c.step key) db' key'
    exact hat.trans (if_neg fun h => hne ⟨h.1, h.2.1⟩)
  length := Engine.withEntry_databases_length _ _ _ _ _
  maxMemory := Engine.withEntry_maxMemory _ _ _ _ _

/-- A call that is not refused memory: its answer, and the entry it leaves. -/
theorem World.step_of_admitted {ω : Nat → Ctx} {w : World} {db : Nat} (key : Key) {α : Type}
    (c : KeyCmd α) (hdb : db < w.engine.databases.length)
    (hm : w.engine.refuses (c.step key (ω w.calls) (w.engine.entryAt db key)) = false) :
    ∃ e', World.step ω α (.key db key c) w =
        ((c.step key (ω w.calls) (w.engine.entryAt db key)).result, ⟨e', w.calls + 1⟩) ∧
      OnlyChanges db key w.engine e' ∧
      e'.entryAt db key =
        (c.step key (ω w.calls) (w.engine.entryAt db key)).entry.leaves (w.engine.entryAt db key) := by
  have hd : w.engine.databases[db]? = some w.engine.databases[db] := List.getElem?_eq_getElem hdb
  have hsh := Engine.shardAt_of_database hd (getShardIndex key)
  have hent := Engine.entryAt_of_database hd key
  have hat := Engine.withEntry_entryAt hdb key (ω w.calls) (c.step key) db key
  rw [hm] at hat
  refine ⟨(w.engine.withEntry db key (ω w.calls) (c.step key)).2, ?_,
    World.step_only key c hdb (ω := ω), hat.trans (if_pos ⟨rfl, rfl, rfl⟩)⟩
  have hres := Engine.withEntry_result (ω w.calls) (c.step key) hsh
  rw [← hent, hm, if_neg Bool.false_ne_true] at hres
  exact Prod.ext hres rfl

/-- Without a memory limit no call is refused. -/
theorem World.step_key {ω : Nat → Ctx} {w : World} {db : Nat} (key : Key) {α : Type}
    (c : KeyCmd α) (hdb : db < w.engine.databases.length) (hm : w.engine.memory.maxMemory = 0) :
    ∃ e', World.step ω α (.key db key c) w =
        ((c.step key (ω w.calls) (w.engine.entryAt db key)).result, ⟨e', w.calls + 1⟩) ∧
      OnlyChanges db key w.engine e' ∧
      e'.entryAt db key =
        (c.step key (ω w.calls) (w.engine.entryAt db key)).entry.leaves (w.engine.entryAt db key) :=
  World.step_of_admitted key c hdb (Engine.refuses_of_unlimited hm _)

namespace Rdb

/-- What follows a reader that succeeds starts where it stopped. -/
theorem run_bind_of_ok {ω : Nat → Ctx} {α β : Type} {r : Reader α} {bs rest : Bytes} {w w' : World}
    {a : α} (h : (r bs).run (World.step ω) w = (.ok (a, rest), w')) (f : α → Reader β) :
    ((r >>= f) bs).run (World.step ω) w = (f a rest).run (World.step ω) w' :=
  Prog.run_bind_of_ok _ h fun p => f p.1 p.2

theorem run_call {ω : Nat → Ctx} {α : Type} {o : Op α} {w w' : World} {a : α}
    (h : World.step ω α o w = (.ok a, w')) (bs : Bytes) :
    (call o bs).run (World.step ω) w = (.ok (a, bs), w') :=
  Prog.run_bind_of_ok _ (Prog.run_perform_of_ok _ h) fun a => .ret (a, bs)

/-! ## Loading one record -/

variable {ω : Nat → Ctx} {db : Nat} {key : Key}

/-- The members of a sorted set, read in order behind those already there. -/
theorem run_readScored (its done : List (Bytes × Float64))
    (hs : (done ++ its).Pairwise SkipList.PairLt) (hn : ((done ++ its).map Prod.fst).Nodup)
    (hf : ∀ p ∈ done ++ its, p.1.length < 2 ^ 32 ∧ p.2.isNaN = false) {w : World}
    (hdb : db < w.engine.databases.length) (hm : w.engine.memory.maxMemory = 0)
    (hw : (done = [] ∧ w.engine.entryAt db key = none) ∨
      ∃ z : SkipList, w.engine.entryAt db key = some ⟨.sortedSet z, none⟩ ∧ z.items = done)
    (rest : Bytes) :
    ∃ w', (readScored db key its.length (its.flatMap writeScored ++ rest)).run (World.step ω) w =
        (.ok ((), rest), w') ∧ OnlyChanges db key w.engine w'.engine ∧
      ((done ++ its = [] ∧ w'.engine.entryAt db key = none) ∨
        ∃ z : SkipList, w'.engine.entryAt db key = some ⟨.sortedSet z, none⟩ ∧
          z.items = done ++ its) := by
  induction its generalizing done w with
  | nil =>
      refine ⟨w, rfl, .refl _ _ _, ?_⟩
      rwa [List.append_nil]
  | cons p its ih =>
      have hp := hf p (by simp)
      obtain ⟨e', hstep, hch, hent⟩ := World.step_key key (.zadd p.1 p.2) hdb hm (ω := ω)
      -- the set the members so far are in, the empty one to begin with
      have hz : ∃ z : SkipList, z.items = done ∧ ∃ b,
          World.step ω Bool (.key db key (.zadd p.1 p.2)) w = (.ok b, ⟨e', w.calls + 1⟩) ∧
          e'.entryAt db key =
            some ⟨.sortedSet (z.insert p.1 p.2 (ω w.calls).level).2, none⟩ := by
        rcases hw with ⟨rfl, hnone⟩ | ⟨z, hz, rfl⟩
        · refine ⟨SkipList.new, rfl, true, ?_⟩
          rw [hnone] at hstep hent
          exact ⟨hstep, hent⟩
        · refine ⟨z, rfl, (z.insert p.1 p.2 (ω w.calls).level).1.isNone, ?_⟩
          rw [hz] at hstep hent
          exact ⟨hstep, hent⟩
      obtain ⟨z, rfl, b, hstep, hent⟩ := hz
      have hfree : z.NaNFree := fun q hq => (hf q (List.mem_append_left _ hq)).2
      have hcross := (List.pairwise_append.mp hs).2.2
      have hitems := SkipList.items_insert hfree (p := p) (ω w.calls).level
        (fun q hq => hcross q hq p List.mem_cons_self) (by
          rw [List.map_append, List.map_cons] at hn
          exact fun hmem => (List.nodup_append.mp hn).2.2 _ hmem _ List.mem_cons_self rfl)
      have happ : z.items ++ p :: its = (z.insert p.1 p.2 (ω w.calls).level).2.items ++ its := by
        rw [hitems, List.append_assoc, List.singleton_append]
      rw [happ] at hs hn hf
      obtain ⟨w', hrun, hch', hent'⟩ := ih _ hs hn hf (w := ⟨e', w.calls + 1⟩) (hch.length ▸ hdb)
        (hch.maxMemory.trans hm) (.inr ⟨_, hent, rfl⟩)
      refine ⟨w', ?_, hch.trans hch', by rw [happ]; exact hent'⟩
      rw [List.length_cons, List.flatMap_cons, readScored, writeScored, List.append_assoc,
        List.append_assoc, (reads_string hp.1).bind_run, (reads_f64 p.2).bind_run,
        run_bind_of_ok (run_call hstep _), hrun]

theorem contains_addMembers (l : List Bytes) (m : Bytes) (acc : Nat × FSet Bytes) :
    (l.foldl (fun acc m => if acc.2.contains m then acc else (acc.1 + 1, acc.2.add m)) acc).2.contains m
      = (acc.2.contains m || decide (m ∈ l)) := by
  induction l generalizing acc with
  | nil => simp
  | cons x l ih =>
      rw [List.foldl_cons, ih]
      by_cases hx : acc.2.contains x
      · by_cases hmx : m = x
        · subst hmx
          simp [hx]
        · simp [hx, hmx]
      · by_cases hmx : m = x
        · subst hmx
          rw [if_neg hx]
          simp [Map.add, Map.contains]
        · have hne : (acc.2.add x).contains m = acc.2.contains m := by
            rw [Map.contains, Map.add, Map.get?_set_ne _ _ hmx]
            rfl
          simp [hx, hmx, hne]

theorem setFields_snd (l : List (Bytes × Bytes)) (acc : Nat × Map Bytes Bytes) :
    (l.foldl (fun acc fv =>
      (if acc.2.contains fv.1 then acc.1 else acc.1 + 1, acc.2.set fv.1 fv.2)) acc).2 =
      acc.2.setAll l := by
  induction l generalizing acc with
  | nil => rfl
  | cons fv l ih =>
      rw [List.foldl_cons, ih]
      rfl

/-- A record that is not there yet is loaded as it was saved. -/
theorem run_readKeyValueWithType {checks : Bool} {v : Value} (hv : v.Portable)
    (hk : key.length < 2 ^ 32) {w : World} (hdb : db < w.engine.databases.length)
    (hm : w.engine.memory.maxMemory = 0) (hnone : w.engine.entryAt db key = none) {body : Bytes}
    (hb : writeValue checks v = some body) (rest : Bytes) :
    ∃ w' v', (readKeyValueWithType checks db (typeCode v) none
        (writeString key ++ (body ++ rest))).run (World.step ω) w = (.ok ((), rest), w') ∧
      OnlyChanges db key w.engine w'.engine ∧
      w'.engine.entryAt db key = some ⟨v', none⟩ ∧ v.Same v' := by
  cases v with
  | string bytes =>
      obtain rfl := Option.some.inj hb
      obtain ⟨e', hstep, hch, hent⟩ :=
        World.step_key key (.setValue (.string bytes) none) hdb hm (ω := ω)
      refine ⟨⟨e', w.calls + 1⟩, _, ?_, hch, hent, rfl⟩
      rw [typeCode, readKeyValueWithType, if_pos rfl, (reads_string hk).bind_run,
        (reads_string hv).bind_run, run_call hstep]
  | set members =>
      obtain rfl := Option.some.inj hb
      obtain ⟨-, hsize, hlen⟩ := hv
      obtain ⟨e', hstep, hch, hent⟩ := World.step_key key (.sadd members.keyList) hdb hm (ω := ω)
      rw [hnone] at hstep hent
      refine ⟨⟨e', w.calls + 1⟩, _, ?_, hch, hent, fun m => ?_⟩
      · have hcount : members.size = members.keyList.length := (List.length_map _).symm
        rw [typeCode, readKeyValueWithType, if_neg (by decide), if_neg (by decide),
          if_neg (by decide), if_pos rfl, (reads_string hk).bind_run, List.append_assoc,
          (reads_length_of_lt hsize).bind_run, hcount,
          (Reads.times fun m hmem => reads_string (hlen m hmem)).bind_run,
          run_bind_of_ok (run_call hstep _)]
        rfl
      · show _ = (KeyOps.addMembers ∅ members.keyList).2.contains m
        rw [KeyOps.addMembers, contains_addMembers]
        cases hg : members.get? m with
        | none =>
            have hnot : m ∉ members.keyList := by
              intro hmem
              obtain ⟨u, hu⟩ := Map.mem_keyList.mp hmem
              rw [hg] at hu
              cases hu
            simp [Map.contains, hg, hnot]
        | some u =>
            have hmem : m ∈ members.keyList := Map.mem_keyList.mpr ⟨u, hg⟩
            simp [Map.contains, hg, hmem]
  | hash fields =>
      obtain rfl := Option.some.inj hb
      obtain ⟨-, hsize, hlen⟩ := hv
      obtain ⟨e', hstep, hch, hent⟩ := World.step_key key (.hset fields.toPairs) hdb hm (ω := ω)
      rw [hnone] at hstep hent
      refine ⟨⟨e', w.calls + 1⟩, _, ?_, hch, hent, fun f => ?_⟩
      · rw [typeCode, readKeyValueWithType, if_neg (by decide), if_neg (by decide),
          if_neg (by decide), if_neg (by decide), if_pos rfl, (reads_string hk).bind_run,
          List.append_assoc, (reads_length_of_lt hsize).bind_run, Map.size,
          (Reads.times fun p hp => reads_pair (hlen p hp).1 (hlen p hp).2).bind_run,
          run_bind_of_ok (run_call hstep _)]
        rfl
      · show _ = (KeyOps.setFields ∅ fields.toPairs).2.get? f
        rw [KeyOps.setFields, setFields_snd, Map.get?_setAll_toPairs]
  | sortedSet z =>
      obtain ⟨hpos, hsize, hlen⟩ := hv
      have hfree : z.NaNFree := fun p hp => (hlen p hp).2
      have hlast : lastRank checks z = some (z.len - 1) := if_neg (by omega)
      rw [writeValue, hlast, Option.map_some, SkipList.rangeByRank_all] at hb
      obtain rfl := Option.some.inj hb
      obtain ⟨w', hrun, hch, hent⟩ := run_readScored (ω := ω) z.items []
        (SkipList.items_sorted hfree) (SkipList.nodup_members hfree) hlen hdb hm
        (.inl ⟨rfl, hnone⟩) rest
      rcases hent with ⟨hnil, -⟩ | ⟨z', hz', hitems⟩
      · rw [← SkipList.length_items, show z.items = [] from hnil] at hpos
        cases hpos
      · refine ⟨w', _, ?_, hch, hz', SkipList.same_of_items_eq hfree hitems.symm⟩
        rw [typeCode, readKeyValueWithType, if_neg (by decide), if_pos (.inl rfl),
          (reads_string hk).bind_run, List.append_assoc, (reads_length_of_lt hsize).bind_run,
          ← SkipList.length_items, run_bind_of_ok hrun]
        rfl
  | list items => cases hv
  | stream s => cases hv

/-! ## Writing one record -/

/-- The bytes of a record. -/
def recordOf (checks : Bool) (key : Key) (v : Value) : Bytes :=
  (writeTyped checks key v).getD []

theorem writeValue_isSome (checks : Bool) {v : Value} (hv : v.Portable) :
    ∃ body, writeValue checks v = some body := by
  cases v with
  | sortedSet z =>
      have hlast : lastRank checks z = some (z.len - 1) := if_neg (by have := hv.1; omega)
      rw [writeValue, hlast]
      exact ⟨_, rfl⟩
  | list items => cases hv
  | stream s => cases hv
  | _ => exact ⟨_, rfl⟩

theorem recordOf_eq {checks : Bool} {v : Value} {body : Bytes}
    (hb : writeValue checks v = some body) :
    writeTyped checks key v = some (recordOf checks key v) ∧
      recordOf checks key v = typeCode v :: (writeString key ++ body) := by
  unfold recordOf writeTyped
  rw [hb]
  exact ⟨rfl, rfl⟩

/-- A call that only answers, on a key that is there. -/
theorem step_answer {e : Engine} {α : Type} {c : KeyCmd α} {sv : StoredValue} {a : α} {n : Nat}
    (h : e.entryAt db key = some sv) (hc : c.step key (ω n) (some sv) = .answer a) :
    World.step ω α (.key db key c) ⟨e, n⟩ = (.ok a, ⟨e, n + 1⟩) := by
  obtain ⟨sh, hsh, hsv⟩ := Option.bind_eq_some_iff.mp h
  rw [← hsv] at hc
  simp only [World.step, Op.run, Engine.withEntry_answer hsh hc]

/-- A value's opcode is none of the special ones. -/
theorem typeCode_special (v : Value) : ¬ typeCode v = RdbOpcode.eof.code ∧
    ¬ typeCode v = RdbOpcode.selectDb.code ∧ ¬ typeCode v = RdbOpcode.resizeDb.code ∧
    ¬ typeCode v = RdbOpcode.aux.code ∧ ¬ typeCode v = RdbOpcode.expireTimeMs.code ∧
    ¬ typeCode v = RdbOpcode.expireTimeS.code := by
  cases v <;> simp only [typeCode] <;> decide

end Rdb

end Ferrous
