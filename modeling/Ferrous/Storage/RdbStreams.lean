/-
# `Storage.RdbStreams` — lists and streams in the file

A list and a stream share an opcode, and the first element alone tells the
reader which of the two it has before it.  A stream is a flat list behind the
marker, its IDs and counts as text, and the reader walks it with an index of
its own.  Which lists and streams come back is `Restorable`: in one direction
the reader follows what was written, in the other nothing need be known of the
bytes, because whatever a load leaves behind is restorable.
-/
import Ferrous.Storage.RdbRecords
import Ferrous.Storage.StreamRuns

namespace Ferrous

open Lib

/-! ## What comes back -/

/-- The same ID and the same fields, listed in any order. -/
def StreamEntry.Same (a b : StreamEntry) : Prop :=
  a.id = b.id ∧ ∀ f, a.fields.get? f = b.fields.get? f

/-- How many items of the list the entries take. -/
def itemCount (es : List StreamEntry) : Nat := (es.map fun e => 2 + e.fields.size * 2).sum

/-- Two lists with the same elements, or two streams with the same entries. -/
def Value.SameContents : Value → Value → Prop
  | .list a, .list b => a = b
  | .stream a, .stream b => List.Forall₂ StreamEntry.Same a.entries b.entries
  | _, _ => False

/-- A list that is not taken for a stream, or a stream with entries left whose
IDs grow from above `0-0`; every length and count is below `2^32`. -/
def Value.Restorable : Value → Prop
  | .list items => items ≠ [] ∧ items.head? ≠ some Rdb.streamMarker ∧ items.length < 2 ^ 32 ∧
      ∀ x ∈ items, x.length < 2 ^ 32
  | .stream s => s.entries ≠ [] ∧ (StreamId.min :: s.entries.map (·.id)).Pairwise (· < ·) ∧
      1 + itemCount s.entries < 2 ^ 32 ∧
      ∀ e ∈ s.entries, ∀ p ∈ e.fields.toPairs, p.1.length < 2 ^ 32 ∧ p.2.length < 2 ^ 32
  | _ => False

instance : DecidablePred Value.Restorable
  | .list items => inferInstanceAs (Decidable (items ≠ [] ∧ items.head? ≠ some Rdb.streamMarker ∧
      items.length < 2 ^ 32 ∧ ∀ x ∈ items, x.length < 2 ^ 32))
  | .stream s => inferInstanceAs (Decidable (s.entries ≠ [] ∧
      (StreamId.min :: s.entries.map (·.id)).Pairwise (· < ·) ∧ 1 + itemCount s.entries < 2 ^ 32 ∧
      ∀ e ∈ s.entries, ∀ p ∈ e.fields.toPairs, p.1.length < 2 ^ 32 ∧ p.2.length < 2 ^ 32))
  | .string _ => .isFalse id
  | .sortedSet _ => .isFalse id
  | .set _ => .isFalse id
  | .hash _ => .isFalse id

theorem StreamEntry.Same.fields {a b : StreamEntry} (h : a.Same b) :
    a.fields.toPairs.Perm b.fields.toPairs := Map.toPairs_perm_of_get?_eq h.2

theorem itemCount_cons (e : StreamEntry) (es : List StreamEntry) :
    itemCount (e :: es) = 2 + e.fields.size * 2 + itemCount es := List.sum_cons

theorem itemCount_append (es fs : List StreamEntry) :
    itemCount (es ++ fs) = itemCount es + itemCount fs := by
  rw [itemCount, List.map_append, List.sum_append]
  rfl

theorem length_le_itemCount (es : List StreamEntry) : es.length ≤ itemCount es := by
  induction es with
  | nil => exact Nat.le_refl _
  | cons e es ih =>
      rw [itemCount_cons, List.length_cons]
      omega

theorem itemCount_congr {es fs : List StreamEntry} (h : List.Forall₂ StreamEntry.Same es fs) :
    itemCount es = itemCount fs := by
  induction h with
  | nil => rfl
  | cons he _ ih =>
      have hsize := he.fields.length_eq
      rw [itemCount_cons, itemCount_cons, ih, Map.size, hsize]
      rfl

theorem exists_same {es fs : List StreamEntry} (h : List.Forall₂ StreamEntry.Same es fs)
    {e : StreamEntry} (he : e ∈ es) : ∃ f ∈ fs, e.Same f := by
  induction h with
  | nil => cases he
  | cons hef _ ih =>
      rcases List.mem_cons.mp he with rfl | he
      · exact ⟨_, List.mem_cons_self, hef⟩
      · obtain ⟨f, hf, hsame⟩ := ih he
        exact ⟨f, List.mem_cons_of_mem _ hf, hsame⟩

/-- What holds of the copy holds of the original. -/
theorem Value.Restorable.of_same {v v' : Value} (h : v'.Restorable) (hs : v.SameContents v') :
    v.Restorable := by
  cases v with
  | list items =>
      cases v' with
      | list items' =>
          obtain rfl : items = items' := hs
          exact h
      | _ => cases hs
  | stream s =>
      cases v' with
      | stream s' =>
          obtain ⟨hne, hids, hcount, hshort⟩ := h
          have hs : List.Forall₂ StreamEntry.Same s.entries s'.entries := hs
          have hmap : s.entries.map (·.id) = s'.entries.map (·.id) := by
            refine List.forall₂_eq_eq_eq ▸ List.forall₂_map_left_iff.mpr
              (List.forall₂_map_right_iff.mpr (hs.imp fun _ _ h => h.1))
          have hsize : itemCount s.entries = itemCount s'.entries := itemCount_congr hs
          refine ⟨?_, hmap ▸ hids, hsize ▸ hcount, ?_⟩
          · intro hnil
            rw [hnil] at hs
            exact hne (List.forall₂_nil_left_iff.mp hs)
          · intro e he p hp
            obtain ⟨e', he', hsame⟩ := exists_same hs he
            exact hshort e' he' p (hsame.fields.mem_iff.mp hp)
      | _ => cases hs
  | _ => cases hs

namespace Rdb

variable {ω : Nat → Ctx} {db : Nat} {key : Key}

/-! ## Reading whatever is there -/

theorem yields_exact (n : Nat) : Yields (readExact n) (fun s => s.length = n) n := by
  intro bs
  unfold readExact
  split
  · exact .inl ⟨_, rfl⟩
  · next hlen =>
      refine .inr ⟨_, _, rfl, List.length_take_of_le (Nat.le_of_not_lt hlen), ?_⟩
      rw [List.length_drop]
      omega

theorem yields_byte : Yields readByte (fun _ => True) 1 :=
  (yields_exact 1).bind fun _ _ => .pure trivial

theorem yields_u32Be : Yields readU32Be (· < 2 ^ 32) 4 := by
  refine (yields_exact 4).bind (k := 0) fun buf hbuf => .pure ?_
  have hlt := ofBeBytes_lt buf
  rwa [hbuf] at hlt

/-- No length is wider than 32 bits. -/
theorem yields_length : Yields readLength (· < 2 ^ 32) 1 := by
  refine yields_byte.bind (k := 0) fun first _ => ?_
  have hfirst := first.toNat_lt
  split
  · exact .pure (by omega)
  · split
    · refine (yields_byte.bind (k := 0) fun second _ => .pure ?_).mono (fun _ => id) (Nat.zero_le _)
      have hsecond := second.toNat_lt
      have hhigh := (first &&& 0x3F).toNat_lt
      refine Nat.or_lt_two_pow ?_ (by omega)
      rw [Nat.shiftLeft_eq]
      omega
    · split
      · exact yields_u32Be.mono (fun _ => id) (Nat.zero_le _)
      · exact fun _ => .inl ⟨_, rfl⟩

theorem yields_string : Yields readString (fun s => s.length < 2 ^ 32) 1 := by
  refine (yields_length.bind (k := 0) fun len hlen => ?_)
  exact (yields_exact len).mono (fun s hs => hs ▸ hlen) (Nat.zero_le _)

theorem yields_pair :
    Yields readPair (fun p => p.1.length < 2 ^ 32 ∧ p.2.length < 2 ^ 32) 2 :=
  yields_string.bind (k := 1) fun _ hf => yields_string.bind (k := 0) fun _ hv => .pure ⟨hf, hv⟩

/-! ## What a load leaves alone -/

/-- A call on a key that succeeds changes its entry only. -/
theorem run_call_inv {α β : Type} {c : KeyCmd α} {f : α → Reader β} {bs : Bytes} {r : β × Bytes}
    {w w' : World} (hdb : db < w.engine.databases.length) (hm : w.engine.memory.maxMemory = 0)
    (hrun : ((call (.key db key c) >>= f) bs).run (World.step ω) w = (.ok r, w')) :
    ∃ a e', OnlyChanges db key w.engine e' ∧
      (f a bs).run (World.step ω) ⟨e', w.calls + 1⟩ = (.ok r, w') := by
  obtain ⟨e', hstep, hch, -⟩ := World.step_key key c hdb hm (ω := ω)
  change Prog.andThen (World.step ω _ (.key db key c) w) _ = _ at hrun
  rw [hstep] at hrun
  cases hres : (c.step key (ω w.calls) (w.engine.entryAt db key)).result with
  | ok a =>
      rw [hres] at hrun
      exact ⟨a, e', hch, hrun⟩
  | err e =>
      rw [hres] at hrun
      cases hrun
  | panic =>
      rw [hres] at hrun
      cases hrun

@[inherit_doc run_call_inv]
theorem run_attempt_inv {α β : Type} {c : KeyCmd α} {f : Except FerrousError α → Reader β}
    {bs : Bytes} {r : β × Bytes} {w w' : World} (hdb : db < w.engine.databases.length)
    (hm : w.engine.memory.maxMemory = 0)
    (hrun : ((StateT.lift (Prog.attempt (.key db key c)) >>= f) bs).run (World.step ω) w =
      (.ok r, w')) :
    ∃ a e', OnlyChanges db key w.engine e' ∧
      (f a bs).run (World.step ω) ⟨e', w.calls + 1⟩ = (.ok r, w') := by
  obtain ⟨e', hstep, hch, -⟩ := World.step_key key c hdb hm (ω := ω)
  change Prog.andThen (World.step ω _ (.key db key c) w) _ = _ at hrun
  rw [hstep] at hrun
  cases hres : (c.step key (ω w.calls) (w.engine.entryAt db key)).result with
  | ok a =>
      rw [hres] at hrun
      exact ⟨.ok a, e', hch, hrun⟩
  | err e =>
      rw [hres] at hrun
      exact ⟨.error e, e', hch, hrun⟩
  | panic =>
      rw [hres] at hrun
      cases hrun

/-- The elements of a list go to its key. -/
theorem readElements_only (n : Nat) {bs rest : Bytes} {w w' : World}
    (hdb : db < w.engine.databases.length) (hm : w.engine.memory.maxMemory = 0)
    (hrun : (readElements db key n bs).run (World.step ω) w = (.ok ((), rest), w')) :
    OnlyChanges db key w.engine w'.engine := by
  induction n generalizing bs w with
  | zero =>
      cases hrun
      exact .refl _ _ _
  | succ n ih =>
      obtain ⟨x, mid, -, -, hrun⟩ := yields_string.run_bind hrun
      obtain ⟨a, e', hch, hrun⟩ := run_call_inv hdb hm hrun
      exact hch.trans (ih (hch.length ▸ hdb) (hch.maxMemory.trans hm) hrun)

/-- So do the entries of a stream. -/
theorem readEntries_only {checks : Bool} {remaining : Nat} (fuel : Nat) {idx : Nat}
    {bs rest : Bytes} {w w' : World} (hdb : db < w.engine.databases.length)
    (hm : w.engine.memory.maxMemory = 0)
    (hrun : (readEntries checks db key remaining fuel idx bs).run (World.step ω) w =
      (.ok ((), rest), w')) : OnlyChanges db key w.engine w'.engine := by
  induction fuel generalizing idx bs w with
  | zero =>
      cases hrun
      exact .refl _ _ _
  | succ fuel ih =>
      rw [readEntries] at hrun
      split at hrun
      · cases hrun
        exact .refl _ _ _
      · obtain ⟨idStr, mid, -, -, hrun⟩ := yields_string.run_bind hrun
        obtain ⟨countStr, mid', -, -, hrun⟩ := yields_string.run_bind hrun
        dsimp only at hrun
        generalize ((fromUtf8 countStr).bind parseU64).getD 0 = fieldCount at hrun
        split at hrun
        · cases hrun
        · split at hrun
          · cases hrun
            exact .refl _ _ _
          · obtain ⟨fields, left, -, -, hrun⟩ := (yields_pair.times fieldCount).run_bind hrun
            cases hid : StreamId.fromString ((fromUtf8 idStr).getD "") with
            | none =>
                simp only [hid] at hrun
                exact ih hdb hm hrun
            | some id =>
                simp only [hid] at hrun
                obtain ⟨a, e', hch, hrun⟩ := run_attempt_inv hdb hm hrun
                exact hch.trans (ih (hch.length ▸ hdb) (hch.maxMemory.trans hm) hrun)

/-! ## Loading a list -/

/-- One element goes to the end. -/
theorem step_rpush {w : World} (hdb : db < w.engine.databases.length)
    (hm : w.engine.memory.maxMemory = 0) {done : List Bytes}
    (hw : w.engine.entryAt db key = some ⟨.list done, none⟩) (x : Bytes) :
    ∃ e', World.step ω _ (.key db key (.rpush [x])) w =
        (.ok (done ++ [x]).length, ⟨e', w.calls + 1⟩) ∧
      OnlyChanges db key w.engine e' ∧ e'.entryAt db key = some ⟨.list (done ++ [x]), none⟩ := by
  obtain ⟨e', hstep, hch, hent⟩ := World.step_key key (.rpush [x]) hdb hm (ω := ω)
  rw [hw] at hstep hent
  exact ⟨e', hstep, hch, hent⟩

/-- The first element makes the list. -/
theorem step_rpush_new {w : World} (hdb : db < w.engine.databases.length)
    (hm : w.engine.memory.maxMemory = 0) (hw : w.engine.entryAt db key = none) (x : Bytes) :
    ∃ e', World.step ω _ (.key db key (.rpush [x])) w = (.ok 1, ⟨e', w.calls + 1⟩) ∧
      OnlyChanges db key w.engine e' ∧ e'.entryAt db key = some ⟨.list [x], none⟩ := by
  obtain ⟨e', hstep, hch, hent⟩ := World.step_key key (.rpush [x]) hdb hm (ω := ω)
  rw [hw] at hstep hent
  exact ⟨e', hstep, hch, hent⟩

/-- The elements, read in order behind those already there. -/
theorem run_readElements (its done : List Bytes) (hl : ∀ x ∈ its, x.length < 2 ^ 32) {w : World}
    (hdb : db < w.engine.databases.length) (hm : w.engine.memory.maxMemory = 0)
    (hw : w.engine.entryAt db key = some ⟨.list done, none⟩) (rest : Bytes) :
    ∃ w', (readElements db key its.length (its.flatMap writeString ++ rest)).run (World.step ω) w =
        (.ok ((), rest), w') ∧ OnlyChanges db key w.engine w'.engine ∧
      w'.engine.entryAt db key = some ⟨.list (done ++ its), none⟩ := by
  induction its generalizing done w with
  | nil =>
      refine ⟨w, rfl, .refl _ _ _, ?_⟩
      rwa [List.append_nil]
  | cons x its ih =>
      obtain ⟨e', hstep, hch, hent⟩ := step_rpush (ω := ω) hdb hm hw x
      obtain ⟨w', hrun, hch', hent'⟩ := ih (done ++ [x])
        (fun y hy => hl y (List.mem_cons_of_mem x hy)) (w := ⟨e', w.calls + 1⟩) (hch.length ▸ hdb)
        (hch.maxMemory.trans hm) hent
      refine ⟨w', ?_, hch.trans hch', by rwa [List.append_assoc] at hent'⟩
      rw [List.length_cons, List.flatMap_cons, readElements, List.append_assoc,
        (reads_string (hl x List.mem_cons_self)).bind_run, run_bind_of_ok (run_call hstep _), hrun]

/-- Whatever is read, as many elements are there as were asked for. -/
theorem readElements_inv (n : Nat) {bs rest : Bytes} {done : List Bytes} {w w' : World}
    (hdb : db < w.engine.databases.length) (hm : w.engine.memory.maxMemory = 0)
    (hw : w.engine.entryAt db key = some ⟨.list done, none⟩)
    (hrun : (readElements db key n bs).run (World.step ω) w = (.ok ((), rest), w')) :
    OnlyChanges db key w.engine w'.engine ∧ ∃ its, its.length = n ∧
      (∀ x ∈ its, x.length < 2 ^ 32) ∧
      w'.engine.entryAt db key = some ⟨.list (done ++ its), none⟩ := by
  induction n generalizing bs done w with
  | zero =>
      cases hrun
      exact ⟨.refl _ _ _, [], rfl, nofun, by rwa [List.append_nil]⟩
  | succ n ih =>
      obtain ⟨x, mid, hx, -, hrun⟩ := yields_string.run_bind hrun
      obtain ⟨e', hstep, hch, hent⟩ := step_rpush (ω := ω) hdb hm hw x
      rw [run_bind_of_ok (run_call hstep _)] at hrun
      obtain ⟨hch', its, hlen, hl, hent'⟩ := ih (hch.length ▸ hdb) (hch.maxMemory.trans hm) hent hrun
      refine ⟨hch.trans hch', x :: its, by rw [List.length_cons, hlen], ?_, ?_⟩
      · intro y hy
        rcases List.mem_cons.mp hy with rfl | hy
        · exact hx
        · exact hl y hy
      · rwa [List.append_assoc] at hent'

/-! ## Loading a stream -/

end Rdb

namespace Stream

/-- The entry with an ID and its fields, behind the others. -/
def accept (t : Stream) (id : StreamId) (fields : Map Bytes Bytes) : Stream :=
  { t.push ⟨id, fields⟩ with lastIdMillis := id.millis, lastIdSeq := id.seq }

@[simp] theorem accept_entries (t : Stream) (id : StreamId) (fields : Map Bytes Bytes) :
    (t.accept id fields).entries = t.entries ++ [⟨id, fields⟩] := rfl

/-- No entry is above the last ID. -/
def Topped (t : Stream) : Prop := ∀ e ∈ t.entries, e.id ≤ t.lastId

theorem Topped.accept {t : Stream} (h : t.Topped) {id : StreamId} (hid : t.lastId < id)
    (fields : Map Bytes Bytes) : (t.accept id fields).Topped := by
  intro e he
  rcases List.mem_append.mp he with he | he
  · exact StreamId.le_of_lt (StreamId.lt_of_le_of_lt (h e he) hid)
  · rw [List.mem_singleton.mp he]
    exact Nat.le_refl _

/-- An ID above the last one is accepted. -/
theorem addWithId_of_lt {t : Stream} (h : t.Topped) {id : StreamId} (hid : t.lastId < id)
    (fields : Map Bytes Bytes) : t.addWithId id fields = .ok (t.accept id fields) := by
  have hfound : foundAt t.entries id = false := by
    have hall : ∀ e ∈ t.entries, decide (e.id < id) = true := fun e he =>
      decide_eq_true (StreamId.lt_of_le_of_lt (h e he) hid)
    rw [foundAt, lowerBound, List.takeWhile_eq_self_iff.mpr hall, List.getElem?_eq_none (Nat.le_refl _)]
    rfl
  rw [addWithId, if_neg (StreamId.not_le.mpr hid), hfound]
  rfl

/-- The entry holds the stream, which has entries; no entry stands for the new one. -/
def Held (t : Stream) (entry : Option StoredValue) : Prop :=
  (entry = some ⟨.stream t, none⟩ ∧ t.entries ≠ []) ∨ (entry = none ∧ t = Stream.new)

end Stream

namespace Rdb

/-- `xadd_with_id` on a stream that is held. -/
theorem step_xaddWithId {k : Key} {t : Stream} (ctx : Ctx) {entry : Option StoredValue}
    (hw : t.Held entry) (id : StreamId) (fields : Map Bytes Bytes) :
    let r := (KeyCmd.xaddWithId id fields).step k ctx entry
    (∃ s, t.addWithId id fields = .ok s ∧ r.result = .ok id ∧
      r.entry.leaves entry = some ⟨.stream s, none⟩) ∨
    ∃ msg, t.addWithId id fields = .error msg ∧ r.result = .err (.command (.generic msg)) ∧
      r.entry.leaves entry = entry := by
  intro r
  have hr : r = KeyOps.xaddWithId k id fields ctx entry := rfl
  cases hadd : t.addWithId id fields with
  | ok s =>
      refine .inl ⟨s, rfl, ?_⟩
      rcases hw with ⟨rfl, -⟩ | ⟨rfl, rfl⟩ <;>
      · simp only [hr, KeyOps.xaddWithId, KeyOps.onStream, hadd]
        exact ⟨rfl, rfl⟩
  | error msg =>
      refine .inr ⟨msg, rfl, ?_⟩
      rcases hw with ⟨rfl, -⟩ | ⟨rfl, rfl⟩ <;>
      · simp only [hr, KeyOps.xaddWithId, KeyOps.onStream, hadd]
        exact ⟨rfl, rfl⟩

/-- One entry of the file: added if its ID is above the last one, else dropped. -/
theorem run_addEntry {w : World} (hdb : db < w.engine.databases.length)
    (hm : w.engine.memory.maxMemory = 0) {t : Stream} (ht : t.Topped)
    (hw : t.Held (w.engine.entryAt db key)) (id : StreamId) (fields : Map Bytes Bytes) (bs : Bytes) :
    ∃ r e', ((StateT.lift (Prog.attempt (.key db key (.xaddWithId id fields))) :
          Reader (Except FerrousError StreamId)) bs).run (World.step ω) w =
        (.ok (r, bs), ⟨e', w.calls + 1⟩) ∧ OnlyChanges db key w.engine e' ∧
      (if t.lastId < id then t.accept id fields else t).Held (e'.entryAt db key) := by
  obtain ⟨e', hstep, hch, hent⟩ := World.step_key key (.xaddWithId id fields) hdb hm (ω := ω)
  rcases step_xaddWithId (ω w.calls) hw id fields (k := key) with
    ⟨s, hadd, hres, hleft⟩ | ⟨msg, hadd, hres, hleft⟩
  · rw [hres] at hstep
    refine ⟨.ok id, e', Prog.run_bind_of_ok _ (Prog.run_attempt_of_ok _ hstep) _, hch, ?_⟩
    rw [hent, hleft]
    by_cases hid : t.lastId < id
    · rw [Stream.addWithId_of_lt ht hid] at hadd
      rw [if_pos hid, ← Except.ok.inj hadd]
      exact .inl ⟨rfl, List.concat_ne_nil _ _⟩
    · rw [Stream.addWithId, if_pos (StreamId.not_lt.mp hid)] at hadd
      cases hadd
  · rw [hres] at hstep
    refine ⟨.error _, e', Prog.run_bind_of_ok _ (Prog.run_attempt_of_err _ hstep) _, hch, ?_⟩
    rw [hent, hleft]
    by_cases hid : t.lastId < id
    · rw [Stream.addWithId_of_lt ht hid] at hadd
      cases hadd
    · rwa [if_neg hid]

/-- The entries of a stream, read in order behind those already there. -/
theorem run_readEntries (checks : Bool) {remaining : Nat} (hsize : remaining < 2 ^ 32)
    (es : List StreamEntry) (hfields : ∀ e ∈ es, 0 < e.fields.size)
    (hshort : ∀ e ∈ es, ∀ p ∈ e.fields.toPairs, p.1.length < 2 ^ 32 ∧ p.2.length < 2 ^ 32)
    {t : Stream} (ht : t.Topped) (hids : (t.lastId :: es.map (·.id)).Pairwise (· < ·)) {idx fuel : Nat}
    (hidx : idx + itemCount es = remaining) (hfuel : es.length ≤ fuel) {w : World}
    (hdb : db < w.engine.databases.length) (hm : w.engine.memory.maxMemory = 0)
    (hw : t.Held (w.engine.entryAt db key)) (rest : Bytes) :
    ∃ (w' : World) (t' : Stream) (es' : List StreamEntry),
      (readEntries checks db key remaining fuel idx (es.flatMap writeEntry ++ rest)).run
          (World.step ω) w = (.ok ((), rest), w') ∧ OnlyChanges db key w.engine w'.engine ∧
      t'.Held (w'.engine.entryAt db key) ∧ t'.entries = t.entries ++ es' ∧
      List.Forall₂ StreamEntry.Same es es' := by
  induction es generalizing t idx fuel w with
  | nil =>
      refine ⟨w, t, [], ?_, .refl _ _ _, hw, (List.append_nil _).symm, .nil⟩
      cases fuel with
      | zero => rfl
      | succ fuel =>
          have hdone : idx + 2 ≥ remaining := by
            have hnil : itemCount [] = 0 := rfl
            omega
          rw [readEntries, if_pos hdone]
          rfl
  | cons e es ih =>
      obtain ⟨fuel, rfl⟩ : ∃ n, fuel = n + 1 := ⟨fuel - 1, by rw [List.length_cons] at hfuel; omega⟩
      have hone := hfields e List.mem_cons_self
      rw [itemCount_cons] at hidx
      have hcount : ((fromUtf8 (toString e.fields.size).toBytes).bind parseU64).getD 0 =
          e.fields.size := by
        rw [toBytes_toString_nat, fromUtf8_intBytes, Option.bind_some]
        show (parseU64 (toString e.fields.size)).getD 0 = _
        rw [parseU64_toString (by omega)]
        rfl
      have hid : StreamId.fromString ((fromUtf8 e.id.toText.toBytes).getD "") = some e.id := by
        rw [StreamId.fromUtf8_toText]
        exact StreamId.fromString_toText e.id
      have hlen : (toString e.fields.size).toBytes.length < 2 ^ 32 := by
        have := length_toBytes_toString (n := e.fields.size) (by omega)
        omega
      obtain ⟨hlast, hids⟩ := List.pairwise_cons.mp hids
      have hlt : t.lastId < e.id := hlast e.id List.mem_cons_self
      set fields := Map.setAll ∅ e.fields.toPairs with hfs
      obtain ⟨r, e', hadd, hch, hheld⟩ := run_addEntry (ω := ω) hdb hm ht hw e.id fields
        (es.flatMap writeEntry ++ rest)
      rw [if_pos hlt] at hheld
      obtain ⟨w', t', es', hrun, hch', hheld', hes, hsame⟩ := ih
        (fun f hf => hfields f (List.mem_cons_of_mem e hf))
        (fun f hf => hshort f (List.mem_cons_of_mem e hf)) (ht.accept hlt fields) hids
        (show idx + 2 + e.fields.size * 2 + itemCount es = remaining by omega)
        (show es.length ≤ fuel from Nat.le_of_succ_le_succ hfuel) (w := ⟨e', w.calls + 1⟩) (hch.length ▸ hdb)
        (hch.maxMemory.trans hm) hheld
      refine ⟨w', t', ⟨e.id, fields⟩ :: es', ?_, hch.trans hch', hheld', ?_, .cons ⟨rfl, ?_⟩ hsame⟩
      · rw [readEntries, if_neg (by omega), List.flatMap_cons, writeEntry]
        simp only [List.append_assoc]
        rw [(reads_string e.id.length_toBytes_toText).bind_run, (reads_string hlen).bind_run, hcount]
        have hpanic : ¬ ((checks && decide (2 ^ 64 ≤ idx + 2 + e.fields.size * 2)) = true) := by
          rw [Bool.and_eq_true, decide_eq_true_eq]
          omega
        have hfits : ¬ (idx + 2 + e.fields.size * 2) % 2 ^ 64 > remaining := by
          rw [Nat.mod_eq_of_lt (by omega)]
          omega
        rw [if_neg hpanic, if_neg hfits, Map.size,
          (Reads.times fun p hp => reads_pair (hshort e List.mem_cons_self p hp).1
            (hshort e List.mem_cons_self p hp).2).bind_run]
        simp only [hid]
        rw [run_bind_of_ok hadd]
        exact hrun
      · rw [hes, Stream.accept_entries, List.append_assoc]
        rfl
      · exact fun f => (Map.get?_setAll_toPairs e.fields f).symm

/-- What the loop keeps of the stream it builds, `n` items having been read. -/
structure Built (n : Nat) (t : Stream) : Prop where
  topped : t.Topped
  ids : (StreamId.min :: t.entries.map (·.id)).Pairwise (· < ·)
  count : itemCount t.entries ≤ n
  short : ∀ e ∈ t.entries, ∀ p ∈ e.fields.toPairs, p.1.length < 2 ^ 32 ∧ p.2.length < 2 ^ 32

theorem Built.mono {n m : Nat} {t : Stream} (h : Built n t) (hm : n ≤ m) : Built m t :=
  ⟨h.topped, h.ids, Nat.le_trans h.count hm, h.short⟩

theorem built_new : Built 0 Stream.new where
  topped := nofun
  ids := List.pairwise_singleton _ _
  count := Nat.le_refl _
  short := nofun

/-- One more entry, if its ID is accepted. -/
theorem Built.add {n : Nat} {t : Stream} (h : Built n t) (id : StreamId)
    {fields : List (Bytes × Bytes)} (hf : ∀ p ∈ fields, p.1.length < 2 ^ 32 ∧ p.2.length < 2 ^ 32) :
    Built (n + 2 + fields.length * 2)
      (if t.lastId < id then t.accept id (Map.setAll ∅ fields) else t) := by
  split
  · next hid =>
      refine ⟨h.topped.accept hid _, ?_, ?_, ?_⟩
      · rw [Stream.accept_entries, List.map_append, ← List.cons_append]
        refine List.pairwise_append.mpr ⟨h.ids, List.pairwise_singleton _ _, ?_⟩
        intro a ha b hb
        rw [List.mem_singleton.mp hb]
        rcases List.mem_cons.mp ha with rfl | ha
        · exact StreamId.lt_of_le_of_lt (Nat.zero_le _) hid
        · obtain ⟨e, he, rfl⟩ := List.mem_map.mp ha
          exact StreamId.lt_of_le_of_lt (h.topped e he) hid
      · have hsize := Map.size_setAll_le (∅ : Map Bytes Bytes) fields
        have hcount := h.count
        have hempty : (∅ : Map Bytes Bytes).size = 0 := rfl
        rw [Stream.accept_entries, itemCount_append, itemCount_cons]
        have hnil : itemCount [] = 0 := rfl
        simp only [hnil]
        omega
      · intro e he p hp
        rcases List.mem_append.mp he with he | he
        · exact h.short e he p hp
        · rw [List.mem_singleton.mp he] at hp
          rcases Map.mem_of_mem_toPairs_setAll hp with hp | hp
          · cases hp
          · exact hf p hp
  · exact h.mono (by omega)

/-- Whatever is read, the stream built is one that comes back. -/
theorem readEntries_inv {checks : Bool} {remaining : Nat} (hsize : remaining < 2 ^ 32) (fuel : Nat)
    {idx : Nat} (hidx : idx ≤ remaining) {bs rest : Bytes} (hbs : bs.length < 2 ^ 63) {t : Stream}
    (ht : Built idx t) {w w' : World} (hdb : db < w.engine.databases.length)
    (hm : w.engine.memory.maxMemory = 0) (hw : t.Held (w.engine.entryAt db key))
    (hrun : (readEntries checks db key remaining fuel idx bs).run (World.step ω) w =
      (.ok ((), rest), w')) :
    OnlyChanges db key w.engine w'.engine ∧
      ∃ t', Built remaining t' ∧ t'.Held (w'.engine.entryAt db key) := by
  induction fuel generalizing idx bs t w with
  | zero =>
      cases hrun
      exact ⟨.refl _ _ _, t, ht.mono hidx, hw⟩
  | succ fuel ih =>
      rw [readEntries] at hrun
      split at hrun
      · cases hrun
        exact ⟨.refl _ _ _, t, ht.mono hidx, hw⟩
      · obtain ⟨idStr, mid, -, hmid, hrun⟩ := yields_string.run_bind hrun
        obtain ⟨countStr, mid', -, hmid', hrun⟩ := yields_string.run_bind hrun
        dsimp only at hrun
        generalize ((fromUtf8 countStr).bind parseU64).getD 0 = fieldCount at hrun
        split at hrun
        · cases hrun
        · split at hrun
          · cases hrun
            exact ⟨.refl _ _ _, t, ht.mono hidx, hw⟩
          · next hfits =>
              obtain ⟨fields, left, ⟨hlen, hshort⟩, hleft, hrun⟩ :=
                (yields_pair.times fieldCount).run_bind hrun
              -- every field takes two bytes, so the sum cannot have wrapped
              have hle : idx + 2 + fieldCount * 2 ≤ remaining := by
                rw [Nat.mod_eq_of_lt (by omega)] at hfits
                omega
              cases hid : StreamId.fromString ((fromUtf8 idStr).getD "") with
              | none =>
                  simp only [hid] at hrun
                  exact ih hle (by omega) (ht.mono (by omega)) hdb hm hw hrun
              | some id =>
                  simp only [hid] at hrun
                  obtain ⟨r, e', hadd, hch, hheld⟩ := run_addEntry (ω := ω) hdb hm ht.topped hw id
                    (Map.setAll ∅ fields) left
                  rw [run_bind_of_ok hadd] at hrun
                  obtain ⟨hch', t', ht', hheld'⟩ := ih hle (by omega) (hlen ▸ ht.add id hshort)
                    (hch.length ▸ hdb) (hch.maxMemory.trans hm) hheld hrun
                  exact ⟨hch.trans hch', t', ht', hheld'⟩

/-! ## Loading a record -/

/-- A record: the opcode, and what `read_key_value_with_type` makes of the rest. -/
def readRecord (checks : Bool) (db : Nat) : Reader Unit := do
  let valueType ← readByte
  readKeyValueWithType checks db valueType none

theorem readRecord_cons (checks : Bool) (db : Nat) (code : UInt8) (bs : Bytes) :
    readRecord checks db (code :: bs) = readKeyValueWithType checks db code none bs := by
  rw [readRecord, ← List.singleton_append, (reads_byte _).bind_run]

/-- What is read of a list or a stream behind the key. -/
def listTail (checks : Bool) (db : Nat) (key : Key) : Reader Unit := do
  let count ← readLength
  if 1 ≤ count then do
    let first ← readString
    if first = streamMarker then readEntries checks db key (count - 1) (count - 1) 0
    else do
      let _ ← call (.key db key (.rpush [first]))
      readElements db key (count - 1)
  else pure ()

theorem readKeyValueWithType_list (checks : Bool) (db : Nat) (ttl : Option Duration) :
    readKeyValueWithType checks db RdbOpcode.list.code ttl = (do
      let key ← readString
      listTail checks db key
      expireBy db key ttl : Reader Unit) := by
  rw [readKeyValueWithType, if_neg (by decide), if_neg (by decide), if_pos rfl]
  refine congrArg _ (funext fun key => ?_)
  rw [listTail, bind_assoc]
  refine congrArg _ (funext fun count => ?_)
  dsimp only
  split
  · rw [bind_assoc]
    refine congrArg _ (funext fun first => ?_)
    split
    · rfl
    · rw [bind_assoc]
  · rw [pure_bind]

theorem readRecord_list (checks : Bool) (bs : Bytes) :
    readRecord checks db (RdbOpcode.list.code :: bs) =
      (do
        let key ← readString
        listTail checks db key : Reader Unit) bs := by
  rw [readRecord_cons, readKeyValueWithType_list]
  simp only [expireBy, bind_pure_unit]

/-- The writer's sum is the number of items. -/
theorem foldl_totalItems (es : List StreamEntry) (n : Nat) :
    es.foldl (fun n e => n + 2 + e.fields.size * 2) n = n + itemCount es := by
  induction es generalizing n with
  | nil => rfl
  | cons e es ih =>
      rw [List.foldl_cons, ih, itemCount_cons]
      omega

/-- Whatever the bytes are, what is left under a key by their load is restorable. -/
theorem readRecord_inv {checks : Bool} {bs rest : Bytes} (hbs : bs.length < 2 ^ 63) {w w' : World}
    (hdb : db < w.engine.databases.length) (hm : w.engine.memory.maxMemory = 0)
    (hnone : w.engine.entryAt db key = none)
    (hrun : (readRecord checks db (RdbOpcode.list.code :: bs)).run (World.step ω) w =
      (.ok ((), rest), w')) {sv : StoredValue} (hsv : w'.engine.entryAt db key = some sv) :
    key.length < 2 ^ 32 ∧ sv.value.Restorable := by
  rw [readRecord_list] at hrun
  obtain ⟨key', mid, hkey, hmid, hrun⟩ := yields_string.run_bind hrun
  rw [listTail] at hrun
  obtain ⟨count, mid', hcount, hmid', hrun⟩ := yields_length.run_bind hrun
  split at hrun
  · next hpos =>
      obtain ⟨first, left, hfirst, hleft, hrun⟩ := yields_string.run_bind hrun
      by_cases hk : key' = key
      · subst hk
        refine ⟨hkey, ?_⟩
        split at hrun
        · obtain ⟨-, t, ht, hheld⟩ := readEntries_inv (by omega) _ (Nat.zero_le _) (by omega)
            built_new hdb hm (.inr ⟨hnone, rfl⟩) hrun
          rcases hheld with ⟨hheld, hne⟩ | ⟨hheld, -⟩
          · rw [hheld] at hsv
            obtain rfl := Option.some.inj hsv
            have hcount := ht.count
            exact ⟨hne, ht.ids, by omega, ht.short⟩
          · rw [hheld] at hsv
            cases hsv
        · next hmarker =>
            obtain ⟨e', hstep, hch, hent⟩ := step_rpush_new (ω := ω) hdb hm hnone first
            rw [run_bind_of_ok (run_call hstep _)] at hrun
            obtain ⟨-, its, hlen, hl, hent'⟩ := readElements_inv _ (hch.length ▸ hdb)
              (hch.maxMemory.trans hm) hent hrun
            rw [hent'] at hsv
            obtain rfl := Option.some.inj hsv
            refine ⟨nofun, fun h => hmarker (Option.some.inj h), ?_, ?_⟩
            · rw [List.singleton_append, List.length_cons, hlen]
              omega
            · intro x hx
              rcases List.mem_cons.mp hx with rfl | hx
              · exact hfirst
              · exact hl x hx
      · -- the bytes name another key
        have hch : OnlyChanges db key' w.engine w'.engine := by
          split at hrun
          · exact readEntries_only _ hdb hm hrun
          · obtain ⟨a, e', hch, hrun⟩ := run_call_inv hdb hm hrun
            exact hch.trans (readElements_only _ (hch.length ▸ hdb) (hch.maxMemory.trans hm) hrun)
        rw [hch.others db key fun h => hk h.2.symm, hnone] at hsv
        cases hsv
  · cases hrun
    rw [hnone] at hsv
    cases hsv

/-- A restorable list comes back. -/
theorem run_readRecord_list (checks : Bool) {items : List Bytes} (hk : key.length < 2 ^ 32)
    (hv : (Value.list items).Restorable) {w : World} (hdb : db < w.engine.databases.length)
    (hm : w.engine.memory.maxMemory = 0) (hnone : w.engine.entryAt db key = none) (rest : Bytes) :
    ∃ w', (readRecord checks db (RdbOpcode.list.code :: (writeString key ++
          (writeLength items.length ++ items.flatMap writeString)) ++ rest)).run (World.step ω) w =
        (.ok ((), rest), w') ∧ OnlyChanges db key w.engine w'.engine ∧
      w'.engine.entryAt db key = some ⟨.list items, none⟩ := by
  obtain ⟨hne, hmarker, hlen, hshort⟩ := hv
  cases items with
  | nil => exact absurd rfl hne
  | cons x its =>
      have hx : ¬ x = streamMarker := fun h => hmarker (congrArg some h)
      obtain ⟨e', hstep, hch, hent⟩ := step_rpush_new (ω := ω) hdb hm hnone x
      obtain ⟨w', hrun, hch', hent'⟩ := run_readElements (ω := ω) its [x]
        (fun y hy => hshort y (List.mem_cons_of_mem x hy)) (w := ⟨e', w.calls + 1⟩)
        (hch.length ▸ hdb) (hch.maxMemory.trans hm) hent rest
      refine ⟨w', ?_, hch.trans hch', hent'⟩
      rw [List.cons_append, readRecord_list]
      simp only [List.append_assoc, List.flatMap_cons]
      rw [(reads_string hk).bind_run, listTail, (reads_length_of_lt hlen).bind_run,
        if_pos (show 1 ≤ (x :: its).length from Nat.succ_le_succ (Nat.zero_le _)),
        (reads_string (hshort x List.mem_cons_self)).bind_run, if_neg hx,
        run_bind_of_ok (run_call hstep _)]
      exact hrun

/-- So does a restorable stream, each entry of which has a field. -/
theorem run_readRecord_stream (checks : Bool) {s : Stream} (hk : key.length < 2 ^ 32)
    (hv : (Value.stream s).Restorable) (hfields : ∀ e ∈ s.entries, 0 < e.fields.size) {w : World}
    (hdb : db < w.engine.databases.length) (hm : w.engine.memory.maxMemory = 0)
    (hnone : w.engine.entryAt db key = none) (rest : Bytes) :
    ∃ w' s', (readRecord checks db (RdbOpcode.list.code :: (writeString key ++
          (writeLength (1 + itemCount s.entries) ++ writeString streamMarker ++
            s.entries.flatMap writeEntry)) ++ rest)).run (World.step ω) w = (.ok ((), rest), w') ∧
      OnlyChanges db key w.engine w'.engine ∧ w'.engine.entryAt db key = some ⟨.stream s', none⟩ ∧
      List.Forall₂ StreamEntry.Same s.entries s'.entries := by
  obtain ⟨hne, hids, hcount, hshort⟩ := hv
  have hlen := length_le_itemCount s.entries
  obtain ⟨w', s', es', hrun, hch, hheld, hes, hsame⟩ := run_readEntries (ω := ω) checks
    (show itemCount s.entries < 2 ^ 32 by omega) s.entries hfields hshort built_new.topped hids
    (Nat.zero_add _) hlen hdb hm (.inr ⟨hnone, rfl⟩) rest
  obtain rfl : s'.entries = es' := hes
  refine ⟨w', s', ?_, hch, ?_, hsame⟩
  · rw [List.cons_append, readRecord_list]
    simp only [List.append_assoc]
    rw [(reads_string hk).bind_run, listTail, (reads_length_of_lt hcount).bind_run, if_pos (by omega),
      (reads_string (by decide)).bind_run, if_pos rfl, Nat.add_sub_cancel_left]
    exact hrun
  · rcases hheld with ⟨hheld, -⟩ | ⟨-, rfl⟩
    · exact hheld
    · exact absurd (List.forall₂_nil_right_iff.mp hsame) hne

end Rdb

open Rdb

/-- An operation that gives every new entry a field. -/
def StreamOp.HasFields : StreamOp → Prop
  | .addAuto fields _ => 0 < fields.size
  | .addWithId _ fields => 0 < fields.size
  | _ => True

instance : DecidablePred StreamOp.HasFields
  | .addAuto fields _ => inferInstanceAs (Decidable (0 < fields.size))
  | .addWithId _ fields => inferInstanceAs (Decidable (0 < fields.size))
  | .trimByCount _ => .isTrue trivial
  | .trimByMinId _ => .isTrue trivial
  | .delete _ => .isTrue trivial
  | .group _ _ => .isTrue trivial

namespace StreamRun

/-- The entries after an operation were there or are the one it adds. -/
theorem mem_entries_step {r : StreamRun} {o : StreamOp} {e : StreamEntry}
    (he : e ∈ (r.step o).stream.entries) :
    e ∈ r.stream.entries ∨ (∃ now, o = .addAuto e.fields now) ∨ ∃ id, o = .addWithId id e.fields := by
  cases o with
  | addAuto fields now =>
      rcases List.mem_append.mp he with he | he
      · exact .inl he
      · rw [List.mem_singleton.mp he]
        exact .inr (.inl ⟨now, rfl⟩)
  | addWithId id fields =>
      rw [step, Stream.addWithId] at he
      split at he
      · next s hs =>
          split at hs
          · cases hs
          · split at hs
            · cases hs
            · cases hs
              rcases List.mem_append.mp he with he | he
              · exact .inl he
              · rw [List.mem_singleton.mp he]
                exact .inr (.inr ⟨id, rfl⟩)
      · exact .inl he
  | trimByCount maxCount =>
      rw [step, Stream.trimByCount] at he
      split at he
      · exact .inl he
      · exact .inl (List.mem_of_mem_drop he)
  | trimByMinId minId =>
      rw [step, Stream.trimByMinId] at he
      split at he
      · exact .inl he
      · exact .inl (List.mem_of_mem_drop he)
  | delete ids =>
      rw [step, Stream.delete] at he
      obtain ⟨hsub, -⟩ := foldl_deleteOne (StreamId.sort ids).dedup.reverse (r.stream.entries, 0, 0)
      generalize (StreamId.sort ids).dedup.reverse.foldl Stream.deleteOne (r.stream.entries, 0, 0) = d
        at hsub he
      dsimp only at he
      split at he
      · exact .inl (hsub.subset he)
      · exact .inl he
  | group c ctx =>
      obtain ⟨gs, hgs⟩ := apply_groups c ctx r.stream
      rw [step, hgs] at he
      exact .inl he

/-- Where every addition has fields, so has every entry. -/
theorem fields_run {ops : List StreamOp} (h : ∀ o ∈ ops, o.HasFields) {r : StreamRun}
    (hr : ∀ e ∈ r.stream.entries, 0 < e.fields.size) :
    ∀ e ∈ (ops.foldl step r).stream.entries, 0 < e.fields.size := by
  induction ops generalizing r with
  | nil => exact hr
  | cons o ops ih =>
      refine ih (fun o' ho' => h o' (List.mem_cons_of_mem o ho')) fun e he => ?_
      have ho := h o List.mem_cons_self
      rcases mem_entries_step he with he | ⟨now, rfl⟩ | ⟨id, rfl⟩
      · exact hr e he
      · exact ho
      · exact ho

end StreamRun

/-- A list with elements, or a stream that additions of entries with fields,
deletions, trims and group commands build from the new one. -/
def Value.ListOrStream : Value → Prop
  | .list items => items ≠ []
  | .stream s => ∃ ops : List StreamOp, (∀ o ∈ ops, o.HasFields) ∧
      (ops.foldl StreamRun.step StreamRun.initial).stream = s
  | _ => False

/-- The value is written, and whatever follows the record, its load takes
exactly the record and leaves the same contents under the key. -/
def Survives (checks : Bool) (ω : Nat → Ctx) (w : World) (db : Nat) (key : Key) (v : Value) : Prop :=
  ∃ record, writeKeyValue checks key v none = .ret record ∧ ∀ rest, ∃ w' v',
    (readRecord checks db (record ++ rest)).run (World.step ω) w = (.ok ((), rest), w') ∧
    w'.engine.entryAt db key = some ⟨v', none⟩ ∧ v.SameContents v'

/-- The record of a list or a stream. -/
theorem writeKeyValue_list (checks : Bool) {v : Value} (hv : v.ListOrStream) (key : Key) :
    ∃ body, writeKeyValue checks key v none =
      .ret (RdbOpcode.list.code :: (writeString key ++ body)) := by
  cases v with
  | list items => exact ⟨_, rfl⟩
  | stream s => exact ⟨_, rfl⟩
  | _ => cases hv

/-- The record of a stream in order. -/
theorem writeKeyValue_stream (checks : Bool) {s : Stream}
    (h : s.entries.Pairwise fun a b => a.id < b.id) (key : Key) :
    writeKeyValue checks key (.stream s) none = .ret (RdbOpcode.list.code :: (writeString key ++
      (writeLength (1 + itemCount s.entries) ++ writeString streamMarker ++
        s.entries.flatMap writeEntry))) := by
  rw [writeKeyValue, writeTyped, writeValue, Stream.range_all h, foldl_totalItems]
  rfl

/-- A list or stream whose record fits in a file survives a save and a load into
an engine without the key exactly when the key is short and the value is
restorable. -/
theorem rdb_restores_iff (checks : Bool) (ω : Nat → Ctx) (w : World) (db : Nat) (key : Key)
    (v : Value) (hv : v.ListOrStream) (hdb : db < w.engine.databases.length)
    (hm : w.engine.memory.maxMemory = 0) (hnone : w.engine.entryAt db key = none)
    (hfits : ∀ record, writeKeyValue checks key v none = .ret record → record.length < 2 ^ 63) :
    Survives checks ω w db key v ↔ key.length < 2 ^ 32 ∧ v.Restorable := by
  constructor
  · rintro ⟨record, hrecord, hload⟩
    obtain ⟨body, hbody⟩ := writeKeyValue_list checks hv key
    obtain rfl := Prog.ret.inj (hbody.symm.trans hrecord)
    obtain ⟨w', v', hrun, hent, hsame⟩ := hload []
    have hlen := hfits _ hbody
    rw [List.append_nil] at hrun
    obtain ⟨hk, hv'⟩ := readRecord_inv (Nat.lt_of_succ_lt hlen) hdb hm hnone hrun hent
    exact ⟨hk, hv'.of_same hsame⟩
  · rintro ⟨hk, hrest⟩
    cases v with
    | list items =>
        refine ⟨_, rfl, fun rest => ?_⟩
        obtain ⟨w', hrun, -, hent⟩ := run_readRecord_list (ω := ω) checks hk hrest hdb hm hnone rest
        exact ⟨w', _, hrun, hent, rfl⟩
    | stream s =>
        obtain ⟨ops, hops, rfl⟩ := hv
        have hfields := StreamRun.fields_run hops (r := StreamRun.initial) nofun
        have hsorted := List.pairwise_map.mp (List.pairwise_cons.mp hrest.2.1).2
        refine ⟨_, writeKeyValue_stream checks hsorted key, fun rest => ?_⟩
        obtain ⟨w', s', hrun, -, hent, hsame⟩ :=
          run_readRecord_stream (ω := ω) checks hk hrest hfields hdb hm hnone rest
        exact ⟨w', _, hrun, hent, hsame⟩
    | _ => cases hv

/-- An engine with one empty database. -/
def freshWorld : World := ⟨Engine.withConfig 1 .unlimited, 0⟩

/-- A stream that has been added to and trimmed, saved and loaded. -/
theorem rdb_restores_trimmed :
    let s := ([StreamOp.addAuto StreamRun.oneField 7, .addWithId (StreamId.new 7 5) StreamRun.oneField,
      .trimByCount 1].foldl StreamRun.step StreamRun.initial).stream
    Survives true (fun _ => .at 0) freshWorld 0 "s".toBytes (.stream s) ∧
      s.entries.map (·.id) = [StreamId.new 7 5] := by
  intro s
  have hv : (Value.stream s).ListOrStream := ⟨_, by decide, rfl⟩
  refine ⟨(rdb_restores_iff true (fun _ => .at 0) freshWorld 0 "s".toBytes _ hv (by decide) rfl
    (by decide) ?_).mpr (by decide), by decide⟩
  intro record hrecord
  obtain rfl := Prog.ret.inj hrecord
  decide

/-- A list whose first element is the marker is lost, and so is a stream whose
last entry was deleted. -/
theorem marked_list_and_emptied_stream_lost :
    ¬ Survives true (fun _ => .at 0) freshWorld 0 "l".toBytes (.list [streamMarker]) ∧
    ¬ Survives true (fun _ => .at 0) freshWorld 0 "s".toBytes
      (.stream ([StreamOp.addAuto StreamRun.oneField 7, .delete [StreamId.new 7 0]].foldl
        StreamRun.step StreamRun.initial).stream) := by
  have hlost : ∀ {key : Key} {v : Value} {record : Bytes},
      writeKeyValue true key v none = .ret record →
      (((readRecord true 0 record).run (World.step fun _ => .at 0) freshWorld).2.engine.entryAt 0 key) =
        none → ¬ Survives true (fun _ => .at 0) freshWorld 0 key v := by
    rintro key v record hrecord hnone ⟨record', hrecord', hload⟩
    obtain rfl := Prog.ret.inj (hrecord.symm.trans hrecord')
    obtain ⟨w', v', hrun, hent, -⟩ := hload []
    rw [List.append_nil] at hrun
    rw [hrun, hent] at hnone
    cases hnone
  exact ⟨hlost rfl rfl, hlost rfl rfl⟩

end Ferrous
