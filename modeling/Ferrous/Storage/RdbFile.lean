/-
# `Storage.RdbFile` — saving and loading a file of records

What a save and a load make of a whole store, given what they make of one key:
`Saves` is the bytes a key is written as, `Loads` what its bytes put back.  The
save lists every database in some order; the load goes through the file with
the invariant that what was loaded so far is there and nothing else is.
-/
import Ferrous.Storage.RdbRecords

namespace Ferrous

open Lib

namespace Rdb

/-! ## Saving -/

/-- What the save does for a key it lists. -/
def writeListed (checks : Bool) (db : Nat) (key : Key) : StoreProg Bytes := do
  let found ← Prog.perform (.key db key .get)
  match found with
  | .found value => do
      let ttl ← Prog.perform (.key db key .ttl)
      writeKeyValue checks key value ttl
  | _ => pure []

theorem writeKeys_cons (checks : Bool) (db : Nat) (key : Key) (keys : List Key) :
    writeKeys checks db (key :: keys) = (writeListed checks db key).bind fun here =>
      (writeKeys checks db keys).bind fun rest => .ret (here ++ rest) := by
  rw [writeKeys, writeListed]
  simp only [Prog.bind_eq, Prog.bind_assoc]
  refine congrArg (Prog.bind _) (funext fun found => ?_)
  cases found with
  | found value => exact (Prog.bind_assoc _ _ _).symm
  | _ => rfl

/-- How a panic that is a missing value ends. -/
def outcomeOf {α : Type} : Option α → Outcome α
  | some a => .ok a
  | none => .panic

/-- The entries of a database, each once. -/
structure Lists (e : Engine) (db : Nat) (ps : List (Key × StoredValue)) : Prop where
  nodup : (ps.map Prod.fst).Nodup
  mem : ∀ key sv, (key, sv) ∈ ps ↔ e.entryAt db key = some sv

section Save

variable (ω : Nat → Ctx) (checks : Bool) (e : Engine) (record : Key → StoredValue → Option Bytes)
  (Q : Engine → Engine → Prop)

/-- A key of the store is saved as its record, whatever else has been saved
before; `Q` is what the save of a key keeps of the store. -/
structure Saves : Prop where
  refl : ∀ e, Q e e
  trans : ∀ {e₁ e₂ e₃}, Q e₁ e₂ → Q e₂ e₃ → Q e₁ e₃
  key : ∀ {db key sv} {w : World}, e.entryAt db key = some sv → w.engine.entryAt db key = some sv →
    ∃ w', (writeListed checks db key).run (World.step ω) w = (outcomeOf (record key sv), w') ∧
      Q w.engine w'.engine ∧ OnlyChanges db key w.engine w'.engine

/-- The bytes of a database. -/
def sectionOf (db n : Nat) (records : List Bytes) : Bytes :=
  if n = 0 then [] else writeDbSelector db ++ writeResizeDb n n ++ records.flatten

/-- The records of the entries, in order. -/
def RecordsOf (ps : List (Key × StoredValue)) (records : List Bytes) : Prop :=
  List.Forall₂ (fun p r => record p.1 p.2 = some r) ps records

/-- The bytes are those of `n` databases from `db` on. -/
def Sections : Nat → Nat → Bytes → Prop
  | _, 0, bytes => bytes = []
  | db, n + 1, bytes => ∃ ps records rest, Lists e db ps ∧ RecordsOf record ps records ∧
      bytes = sectionOf db ps.length records ++ rest ∧ Sections (db + 1) n rest

/-- Some key cannot be written. -/
def Unwritable : Prop := ∃ db key sv, e.entryAt db key = some sv ∧ record key sv = none

variable {ω checks e record Q}

/-- The keys of a database: all are written, or the save panics at one. -/
theorem run_writeKeys (hs : Saves ω checks e record Q) {db : Nat} (ps : List (Key × StoredValue))
    {w : World} (hps : ∀ p ∈ ps, e.entryAt db p.1 = some p.2 ∧ w.engine.entryAt db p.1 = some p.2)
    (hnd : (ps.map Prod.fst).Nodup) :
    ∃ w', Q w.engine w'.engine ∧ w'.engine.databases.length = w.engine.databases.length ∧
      (∀ db' key, db' ≠ db → w'.engine.entryAt db' key = w.engine.entryAt db' key) ∧
      ((∃ records, RecordsOf record ps records ∧
          (writeKeys checks db (ps.map Prod.fst)).run (World.step ω) w = (.ok records.flatten, w')) ∨
        (writeKeys checks db (ps.map Prod.fst)).run (World.step ω) w = (.panic, w') ∧
          Unwritable e record) := by
  induction ps generalizing w with
  | nil => exact ⟨w, hs.refl _, rfl, fun _ _ _ => rfl, .inl ⟨[], .nil, rfl⟩⟩
  | cons p ps ih =>
      obtain ⟨hp, hwp⟩ := hps p List.mem_cons_self
      obtain ⟨w₁, hrun, hQ, hch⟩ := hs.key hp hwp
      simp only [List.map_cons, List.nodup_cons] at hnd
      rw [List.map_cons, writeKeys_cons]
      cases hr : record p.1 p.2 with
      | none =>
          rw [hr] at hrun
          refine ⟨w₁, hQ, hch.length, fun db' key hne => hch.others db' key fun h => hne h.1,
            .inr ⟨?_, db, p.1, p.2, hp, hr⟩⟩
          rw [Prog.run_bind, hrun]
          rfl
      | some r =>
          rw [hr] at hrun
          -- the other keys are as they were
          obtain ⟨w₂, hQ₂, hlen₂, hoth₂, hrest⟩ := ih (w := w₁) (fun q hq => by
            obtain ⟨hq', hwq⟩ := hps q (List.mem_cons_of_mem p hq)
            refine ⟨hq', (hch.others db q.1 fun h => ?_).trans hwq⟩
            exact hnd.1 (h.2 ▸ List.mem_map_of_mem hq)) hnd.2
          refine ⟨w₂, hs.trans hQ hQ₂, hlen₂.trans hch.length, fun db' key hne =>
            (hoth₂ db' key hne).trans (hch.others db' key fun h => hne h.1), ?_⟩
          rw [Prog.run_bind_of_ok _ hrun, Prog.run_bind]
          rcases hrest with ⟨records, hrecords, hrun₂⟩ | ⟨hrun₂, hbad⟩
          · refine .inl ⟨r :: records, .cons hr hrecords, ?_⟩
            rw [hrun₂]
            rfl
          · refine .inr ⟨?_, hbad⟩
            rw [hrun₂]
            rfl

/-- One database. -/
theorem run_writeDatabase (hs : Saves ω checks e record Q) {db : Nat} {w : World}
    (hdb : db < w.engine.databases.length) (hrouted : w.engine.Routed)
    (hent : ∀ key, w.engine.entryAt db key = e.entryAt db key) :
    ∃ w', Q w.engine w'.engine ∧ w'.engine.databases.length = w.engine.databases.length ∧
      (∀ db' key, db' ≠ db → w'.engine.entryAt db' key = w.engine.entryAt db' key) ∧
      ((∃ ps records, Lists e db ps ∧ RecordsOf record ps records ∧
          (writeDatabase checks db).run (World.step ω) w =
            (.ok (sectionOf db ps.length records), w')) ∨
        (writeDatabase checks db).run (World.step ω) w = (.panic, w') ∧ Unwritable e record) := by
  have hd : w.engine.databases[db]? = some w.engine.databases[db] := List.getElem?_eq_getElem hdb
  set ps := Engine.entriesOf w.engine.databases[db] with hps
  have hkeys : World.step ω _ (.store (.getAllKeys db)) w =
      (.ok (ps.map Prod.fst), ⟨w.engine, w.calls + 1⟩) := by
    simp only [World.step, Op.run, StoreCmd.run, Engine.getAllKeys, Engine.reading, hd, hps]
  have hlists : Lists e db ps :=
    ⟨Engine.nodup_keys_entriesOf hrouted hd, fun key sv => by
      rw [← hent key]
      exact Engine.mem_entriesOf hrouted hd⟩
  obtain ⟨w', hQ, hlen, hoth, hrun⟩ := run_writeKeys hs ps (w := ⟨w.engine, w.calls + 1⟩)
    (fun p hp => by
      have hp' := (hlists.mem p.1 p.2).mp hp
      exact ⟨hp', (hent p.1).trans hp'⟩) hlists.nodup
  rw [writeDatabase, Prog.bind_eq, Prog.run_bind_of_ok _ (Prog.run_perform_of_ok _ hkeys)]
  by_cases hnil : ps = []
  · refine ⟨⟨w.engine, w.calls + 1⟩, hs.refl _, rfl, fun _ _ _ => rfl,
      .inl ⟨ps, [], hlists, ?_, ?_⟩⟩
    · rw [hnil]
      exact .nil
    · rw [hnil]
      rfl
  · refine ⟨w', hQ, hlen, hoth, ?_⟩
    rw [if_neg (by simpa using hnil)]
    rcases hrun with ⟨records, hrecords, hrun⟩ | ⟨hrun, hbad⟩
    · refine .inl ⟨ps, records, hlists, hrecords, ?_⟩
      rw [Prog.bind_eq, Prog.run_bind_of_ok _ hrun, sectionOf,
        if_neg (by simpa using hnil), List.length_map]
      rfl
    · refine .inr ⟨?_, hbad⟩
      rw [Prog.bind_eq, Prog.run_bind, hrun]
      rfl

/-- The databases from `db` on, none of which has been touched. -/
theorem run_writeDatabases (hs : Saves ω checks e record Q) (n : Nat) {db : Nat} {w : World}
    (hn : db + n = w.engine.databases.length) (hrouted : w.engine.Routed)
    (hent : ∀ db' key, db ≤ db' → w.engine.entryAt db' key = e.entryAt db' key) :
    ∃ w', Q w.engine w'.engine ∧
      ((∃ bytes, Sections e record db n bytes ∧
          (writeDatabases checks db n).run (World.step ω) w = (.ok bytes, w')) ∨
        (writeDatabases checks db n).run (World.step ω) w = (.panic, w') ∧ Unwritable e record) := by
  induction n generalizing db w with
  | zero => exact ⟨w, hs.refl _, .inl ⟨[], rfl, rfl⟩⟩
  | succ n ih =>
      obtain ⟨w₁, hQ₁, hlen₁, hoth₁, hrun₁⟩ := run_writeDatabase hs
        (show db < w.engine.databases.length by omega) hrouted fun key => hent db key (Nat.le_refl _)
      rw [writeDatabases, Prog.bind_eq]
      rcases hrun₁ with ⟨ps, records, hlists, hrecords, hrun₁⟩ | ⟨hrun₁, hbad⟩
      · obtain ⟨w₂, hQ₂, hrun₂⟩ := ih
          (show db + 1 + n = w₁.engine.databases.length by omega) (World.run_routed hrun₁ hrouted) fun db' key hle =>
            (hoth₁ db' key (by omega)).trans (hent db' key (by omega))
        refine ⟨w₂, hs.trans hQ₁ hQ₂, ?_⟩
        rw [Prog.run_bind_of_ok _ hrun₁, Prog.bind_eq]
        rcases hrun₂ with ⟨bytes, hbytes, hrun₂⟩ | ⟨hrun₂, hbad⟩
        · refine .inl ⟨_, ⟨ps, records, bytes, hlists, hrecords, rfl, hbytes⟩, ?_⟩
          rw [Prog.run_bind_of_ok _ hrun₂]
          rfl
        · refine .inr ⟨?_, hbad⟩
          rw [Prog.run_bind, hrun₂]
          rfl
      · refine ⟨w₁, hQ₁, .inr ⟨?_, hbad⟩⟩
        rw [Prog.run_bind, hrun₁]
        rfl

/-- The save writes a file of all the records, or panics at one. -/
theorem run_writeSnapshot (hs : Saves ω checks e record Q) (hrouted : e.Routed) (n : Nat) :
    ∃ w', Q e w'.engine ∧
      ((∃ secs body, secs < 2 ^ 64 ∧ Sections e record 0 e.databases.length body ∧
          (writeSnapshot checks e.databases.length).run (World.step ω) ⟨e, n⟩ =
            (.ok (finishFile (writeHeader ++ writeMetadata secs ++ body)), w')) ∨
        (writeSnapshot checks e.databases.length).run (World.step ω) ⟨e, n⟩ = (.panic, w') ∧
          Unwritable e record) := by
  obtain ⟨w', hQ, hrun⟩ := run_writeDatabases hs e.databases.length (w := ⟨e, n + 1⟩)
    (Nat.zero_add _) hrouted fun _ _ _ => rfl
  have hnow : World.step ω _ (.store .systemTime) ⟨e, n⟩ = (.ok (ω n).sysNow, ⟨e, n + 1⟩) := rfl
  refine ⟨w', hQ, ?_⟩
  rw [writeSnapshot, Prog.bind_eq, Prog.run_bind_of_ok _ (Prog.run_perform_of_ok _ hnow),
    Prog.bind_eq]
  rcases hrun with ⟨body, hbody, hrun⟩ | ⟨hrun, hbad⟩
  · refine .inl ⟨(ω n).sysNow / 10 ^ 9 % 2 ^ 64, body, Nat.mod_lt _ (by norm_num), hbody, ?_⟩
    rw [Prog.run_bind_of_ok _ hrun]
    rfl
  · refine .inr ⟨?_, hbad⟩
    rw [Prog.run_bind, hrun]
    rfl

end Save

/-! ## Loading -/

/-- What a load makes of a key, which need not be there. -/
def Meets (R : StoredValue → Option StoredValue → Prop) :
    Option StoredValue → Option StoredValue → Prop
  | none, new => new = none
  | some sv, new => R sv new

section Load

variable (ω : Nat → Ctx) (checks : Bool) (e : Engine) (record : Key → StoredValue → Option Bytes)
  (R : StoredValue → Option StoredValue → Prop)

/-- The record of a key of the store takes the loop past it and leaves under the
key, which was not there, something in relation `R` to what was saved. -/
def Loads : Prop :=
  ∀ {db key sv r} {w : World}, e.entryAt db key = some sv → record key sv = some r →
    db < w.engine.databases.length → w.engine.memory.maxMemory = 0 →
    w.engine.entryAt db key = none → ∀ fuel rest, (r ++ rest).length < fuel →
    ∃ w' fuel', (loadLoop checks fuel db (r ++ rest)).run (World.step ω) w =
        (loadLoop checks fuel' db rest).run (World.step ω) w' ∧ rest.length < fuel' ∧
      OnlyChanges db key w.engine w'.engine ∧ R sv (w'.engine.entryAt db key)

/-- The entries loaded so far, those `P` names, are there and no others are. -/
structure Loaded (P : Nat → Key → Prop) (e' : Engine) : Prop where
  there : ∀ db key, P db key → Meets R (e.entryAt db key) (e'.entryAt db key)
  absent : ∀ db key, ¬ P db key → e'.entryAt db key = none
  length : e'.databases.length = e.databases.length
  unlimited : e'.memory.maxMemory = 0

variable {ω checks e record R}

theorem Loaded.congr {P Q : Nat → Key → Prop} {e' : Engine} (h : Loaded e R P e')
    (hpq : ∀ db key, P db key ↔ Q db key) : Loaded e R Q e' where
  there db key hq := h.there db key ((hpq db key).mpr hq)
  absent db key hq := h.absent db key fun hp => hq ((hpq db key).mp hp)
  length := h.length
  unlimited := h.unlimited

/-- One more entry has been loaded. -/
theorem Loaded.add {P : Nat → Key → Prop} {db : Nat} {key : Key} {e₁ e₂ : Engine} {sv : StoredValue}
    (h : Loaded e R P e₁) (hch : OnlyChanges db key e₁ e₂) (hent : e.entryAt db key = some sv)
    (hR : R sv (e₂.entryAt db key)) :
    Loaded e R (fun d k => P d k ∨ (d = db ∧ k = key)) e₂ where
  there d k hp := by
    by_cases hk : d = db ∧ k = key
    · rw [hk.1, hk.2, hent]
      exact hR
    · rw [hch.others d k hk]
      exact h.there d k (hp.resolve_right hk)
  absent d k hp := by
    rw [hch.others d k fun hk => hp (.inr hk)]
    exact h.absent d k fun hk => hp (.inl hk)
  length := hch.length.trans h.length
  unlimited := hch.maxMemory.trans h.unlimited

/-- The records of a database, none of them there yet. -/
theorem loop_records (hl : Loads ω checks e record R) {db : Nat} (hdb : db < e.databases.length)
    {ps : List (Key × StoredValue)} {records : List Bytes} (hrecords : RecordsOf record ps records)
    (hps : ∀ p ∈ ps, e.entryAt db p.1 = some p.2) (hnd : (ps.map Prod.fst).Nodup)
    {P : Nat → Key → Prop} {w : World} (hw : Loaded e R P w.engine) (hnew : ∀ p ∈ ps, ¬ P db p.1)
    (fuel : Nat) (rest : Bytes) (hfuel : (records.flatten ++ rest).length < fuel) :
    ∃ w' fuel', (loadLoop checks fuel db (records.flatten ++ rest)).run (World.step ω) w =
        (loadLoop checks fuel' db rest).run (World.step ω) w' ∧ rest.length < fuel' ∧
      Loaded e R (fun d k => P d k ∨ (d = db ∧ k ∈ ps.map Prod.fst)) w'.engine := by
  induction hrecords generalizing P w fuel with
  | nil =>
      refine ⟨w, fuel, rfl, hfuel, hw.congr fun d k => ?_⟩
      simp
  | @cons p r ps records hr hrecords ih =>
      simp only [List.map_cons, List.nodup_cons] at hnd
      rw [List.flatten_cons, List.append_assoc] at hfuel ⊢
      obtain ⟨w₁, fuel₁, hrun₁, hfuel₁, hch, hR⟩ := hl (hps p List.mem_cons_self) hr
        (hw.length ▸ hdb) hw.unlimited (hw.absent db p.1 (hnew p List.mem_cons_self)) fuel _ hfuel
      obtain ⟨w₂, fuel₂, hrun₂, hfuel₂, hw₂⟩ := ih (fun q hq => hps q (List.mem_cons_of_mem _ hq))
        hnd.2 (hw.add hch (hps p List.mem_cons_self) hR) (fun q hq hP => by
          rcases hP with hP | ⟨-, hk⟩
          · exact hnew q (List.mem_cons_of_mem _ hq) hP
          · exact hnd.1 (hk ▸ List.mem_map_of_mem hq)) fuel₁ hfuel₁
      refine ⟨w₂, fuel₂, hrun₁.trans hrun₂, hfuel₂, hw₂.congr fun d k => ?_⟩
      simp only [List.map_cons, List.mem_cons]
      tauto

/-- A database, behind those with a smaller number. -/
theorem loop_database (hl : Loads ω checks e record R) (hcount : e.databases.length < 2 ^ 32)
    {db : Nat} (hdb : db < e.databases.length) {ps : List (Key × StoredValue)} {records : List Bytes}
    (hlists : Lists e db ps) (hrecords : RecordsOf record ps records) {w : World}
    (hw : Loaded e R (fun d _ => d < db) w.engine) {fuel : Nat} {rest : Bytes}
    (hfuel : (sectionOf db ps.length records ++ rest).length < fuel) (current : Nat) :
    ∃ w' fuel' current', (loadLoop checks fuel current (sectionOf db ps.length records ++ rest)).run
        (World.step ω) w = (loadLoop checks fuel' current' rest).run (World.step ω) w' ∧
      rest.length < fuel' ∧ Loaded e R (fun d _ => d < db + 1) w'.engine := by
  -- a key the database does not list is absent on both sides
  have hfull : ∀ w' : World, Loaded e R (fun d k => d < db ∨ (d = db ∧ k ∈ ps.map Prod.fst)) w'.engine →
      Loaded e R (fun d _ => d < db + 1) w'.engine := by
    intro w' h
    refine ⟨fun d k hlt => ?_, fun d k hge => h.absent d k ?_, h.length, h.unlimited⟩
    · by_cases hk : d < db ∨ (d = db ∧ k ∈ ps.map Prod.fst)
      · exact h.there d k hk
      · have hdd : d = db := by
          by_contra hne
          exact hk (.inl (by omega))
        subst hdd
        have hnone : e.entryAt d k = none := by
          cases hent : e.entryAt d k with
          | none => rfl
          | some sv =>
              exact absurd (.inr ⟨rfl, List.mem_map_of_mem ((hlists.mem k sv).mpr hent)⟩) hk
        rw [hnone, h.absent d k hk]
        rfl
    · rintro (hlt | ⟨rfl, -⟩)
      · exact hge (by omega)
      · exact hge (by omega)
  unfold sectionOf at hfuel ⊢
  by_cases hnil : ps.length = 0
  · rw [if_pos hnil, List.nil_append] at hfuel ⊢
    refine ⟨w, fuel, current, rfl, hfuel, hfull w (hw.congr fun d k => ?_)⟩
    rw [List.eq_nil_of_length_eq_zero hnil]
    simp
  · rw [if_neg hnil] at hfuel ⊢
    obtain ⟨fuel, rfl⟩ : ∃ n, fuel = n + 1 + 1 := ⟨fuel - 2, by
      simp only [writeDbSelector, writeResizeDb, List.length_append, List.length_cons] at hfuel
      omega⟩
    obtain ⟨w', fuel', hrun, hfuel', hw'⟩ := loop_records hl hdb hrecords
      (fun p hp => (hlists.mem p.1 p.2).mp hp) hlists.nodup hw (fun p _ => Nat.lt_irrefl db)
      fuel rest (by
        simp only [writeDbSelector, writeResizeDb, List.length_append, List.length_cons] at hfuel ⊢
        omega)
    refine ⟨w', fuel', db, ?_, hfuel', hfull w' hw'⟩
    rw [writeDbSelector, writeResizeDb, ← List.singleton_append, List.append_assoc,
      List.append_assoc, List.append_assoc, loadLoop, (reads_byte _).bind_run,
      if_neg (by decide), if_pos rfl, (reads_length_of_lt (Nat.lt_trans hdb hcount)).bind_run,
      ← List.singleton_append, List.append_assoc, List.append_assoc, loadLoop,
      (reads_byte _).bind_run, if_neg (by decide), if_neg (by decide), if_pos rfl,
      (reads_length _).bind_run, (reads_length _).bind_run, hrun]

/-- The databases from `db` on. -/
theorem loop_databases (hl : Loads ω checks e record R) (hcount : e.databases.length < 2 ^ 32)
    (n : Nat) {db : Nat} (hn : db + n = e.databases.length) {body : Bytes}
    (hbody : Sections e record db n body) {w : World} (hw : Loaded e R (fun d _ => d < db) w.engine)
    {fuel : Nat} {rest : Bytes} (hfuel : (body ++ rest).length < fuel) (current : Nat) :
    ∃ w' fuel' current', (loadLoop checks fuel current (body ++ rest)).run (World.step ω) w =
        (loadLoop checks fuel' current' rest).run (World.step ω) w' ∧
      rest.length < fuel' ∧ Loaded e R (fun d _ => d < db + n) w'.engine := by
  induction n generalizing db body w fuel current with
  | zero =>
      obtain rfl : body = [] := hbody
      exact ⟨w, fuel, current, rfl, hfuel, hw⟩
  | succ n ih =>
      obtain ⟨ps, records, body, hlists, hrecords, rfl, hbody⟩ := hbody
      rw [List.append_assoc] at hfuel ⊢
      obtain ⟨w₁, fuel₁, cur₁, hrun₁, hfuel₁, hw₁⟩ :=
        loop_database hl hcount (by omega) hlists hrecords hw hfuel current
      obtain ⟨w₂, fuel₂, cur₂, hrun₂, hfuel₂, hw₂⟩ := ih (by omega) hbody hw₁ hfuel₁ cur₁
      refine ⟨w₂, fuel₂, cur₂, hrun₁.trans hrun₂, hfuel₂, hw₂.congr fun d _ => ?_⟩
      rw [Nat.add_assoc, Nat.add_comm 1 n]

theorem reads_header : Reads readHeader writeHeader () := by
  refine (reads_exact_of_length magic rfl).bind ?_
  rw [if_neg (by simp)]
  have hok : Reads (if isU16 (fromUtf8Lossy version) then (pure () : Reader Unit)
      else fails "Invalid RDB version") [] () := by
    rw [if_pos (by decide)]
    exact Reads.pure ()
  have hv := (reads_exact_of_length version rfl).bind
    (f := fun v => if isU16 (fromUtf8Lossy v) then pure () else fails "Invalid RDB version") hok
  rwa [List.append_nil] at hv

/-- A round of the loop on an auxiliary field. -/
theorem loop_aux {checks : Bool} {key value : String} (hk : key.toBytes.length < 2 ^ 32)
    (hv : value.toBytes.length < 2 ^ 32) (fuel db : Nat) (rest : Bytes) :
    loadLoop checks (fuel + 1) db (writeAux key value ++ rest) = loadLoop checks fuel db rest := by
  rw [writeAux, ← List.singleton_append, List.append_assoc, List.append_assoc, loadLoop,
    (reads_byte _).bind_run, if_neg (by decide), if_neg (by decide), if_neg (by decide), if_pos rfl,
    (reads_string hk).bind_run, (reads_string hv).bind_run]

/-- The last round. -/
theorem loop_eof {checks : Bool} (fuel db n : Nat) :
    loadLoop checks (fuel + 1) db (RdbOpcode.eof.code :: writeU64Le n) = .ret ((), []) := by
  rw [← List.singleton_append, loadLoop, (reads_byte _).bind_run, if_pos rfl]
  have h := (reads_u64Le n).map (fun _ => ()) []
  rwa [List.append_nil] at h

/-- The load of a saved file into an empty engine of the same size. -/
theorem run_loadInto (hl : Loads ω checks e record R) (hcount : e.databases.length < 2 ^ 32)
    {secs : Nat} (hsecs : secs < 2 ^ 64) {body : Bytes}
    (hbody : Sections e record 0 e.databases.length body) {w : World}
    (hw : Loaded e R (fun _ _ => False) w.engine) :
    ∃ w', (loadInto checks (finishFile (writeHeader ++ writeMetadata secs ++ body))).run
        (World.step ω) w = (.ok [], w') ∧ Loaded e R (fun d _ => d < e.databases.length) w'.engine := by
  have hfile : ∀ bs, finishFile bs = bs ++ RdbOpcode.eof.code ::
      writeU64Le (checksum (bs ++ [RdbOpcode.eof.code])).toNat := fun _ => rfl
  rw [hfile]
  generalize (checksum _).toNat = crc
  set tail := RdbOpcode.eof.code :: writeU64Le crc with htail
  have hhead : writeHeader.length = 9 := by decide
  have hsec : (toString secs).toBytes.length < 2 ^ 32 := by
    have := length_toBytes_toString hsecs
    omega
  -- two rounds go to the auxiliary fields, the rest is enough for the databases
  obtain ⟨fuel, hfuel, hlt⟩ : ∃ fuel, (writeHeader ++ writeMetadata secs ++ body ++ tail).length + 1 =
      fuel + 1 + 1 ∧ (body ++ tail).length < fuel := by
    refine ⟨(writeHeader ++ writeMetadata secs ++ body ++ tail).length - 1, ?_, ?_⟩ <;>
    · simp only [List.length_append, hhead]
      omega
  obtain ⟨w', fuel', cur', hrun, hfuel', hw'⟩ := loop_databases hl hcount e.databases.length
    (Nat.zero_add _) hbody (hw.congr (Q := fun d _ => d < 0) (by simp)) hlt 0
  obtain ⟨fuel', rfl⟩ : ∃ n, fuel' = n + 1 := ⟨fuel' - 1, by omega⟩
  refine ⟨w', ?_, hw'.congr fun d _ => by rw [Nat.zero_add]⟩
  have hread : ((do
      readHeader
      loadLoop checks ((writeHeader ++ writeMetadata secs ++ body ++ tail).length + 1) 0 :
        Reader Unit) (writeHeader ++ writeMetadata secs ++ body ++ tail)).run (World.step ω) w =
      (.ok ((), []), w') := by
    rw [hfuel]
    simp only [List.append_assoc]
    rw [reads_header.bind_run, writeMetadata, List.append_assoc, loop_aux (by decide) (by decide),
      loop_aux (by decide) hsec, hrun, htail, loop_eof]
    rfl
  exact Prog.run_bind_of_ok _ hread _

end Load

/-! ## Saving and loading -/

/-- An engine without entries. -/
structure Blank (e₀ : Engine) (n : Nat) : Prop where
  empty : ∀ db i sh, e₀.shardAt db i = some sh → sh.data = ∅
  length : e₀.databases.length = n
  unlimited : e₀.memory.maxMemory = 0

theorem Blank.entryAt {e₀ : Engine} {n : Nat} (h : Blank e₀ n) (db : Nat) (key : Key) :
    e₀.entryAt db key = none := by
  cases hsh : e₀.shardAt db (getShardIndex key) with
  | none => rw [Engine.entryAt_eq, hsh]; rfl
  | some sh =>
      rw [Engine.entryAt_eq, hsh, Option.bind_some, h.empty db _ sh hsh]
      exact Map.get?_empty key

theorem Blank.routed {e₀ : Engine} {n : Nat} (h : Blank e₀ n) : e₀.Routed := by
  intro db i sh key sv hsh hsv
  rw [h.empty db i sh hsh, Map.get?_empty] at hsv
  cases hsv

/-- A save that does not panic is loaded to its end, and gives every key what
its record gives it. -/
theorem run_save_load {ω ω₀ : Nat → Ctx} {checks : Bool} {e e₀ : Engine}
    {record : Key → StoredValue → Option Bytes} {Q : Engine → Engine → Prop}
    {R : StoredValue → Option StoredValue → Prop} (hs : Saves ω checks e record Q)
    (hl : Loads ω₀ checks e record R) (hrouted : e.Routed) (hcount : e.databases.length < 2 ^ 32)
    (hblank : Blank e₀ e.databases.length) (n n₀ : Nat) :
    (∃ file w₁ w₂, (writeSnapshot checks e.databases.length).run (World.step ω) ⟨e, n⟩ =
        (.ok file, w₁) ∧ Q e w₁.engine ∧
      (loadInto checks file).run (World.step ω₀) ⟨e₀, n₀⟩ = (.ok [], w₂) ∧
      w₂.engine.databases.length = e.databases.length ∧ w₂.engine.Routed ∧
      ∀ db key, Meets R (e.entryAt db key) (w₂.engine.entryAt db key)) ∨
    (∃ w₁, (writeSnapshot checks e.databases.length).run (World.step ω) ⟨e, n⟩ = (.panic, w₁)) ∧
      Unwritable e record := by
  obtain ⟨w₁, hQ, hsave⟩ := run_writeSnapshot hs hrouted n
  rcases hsave with ⟨secs, body, hsecs, hbody, hsave⟩ | ⟨hsave, hbad⟩
  · obtain ⟨w₂, hload, hw₂⟩ := run_loadInto hl hcount hsecs hbody (w := ⟨e₀, n₀⟩)
      ⟨nofun, fun db key _ => hblank.entryAt db key, hblank.length, hblank.unlimited⟩
    refine .inl ⟨_, w₁, w₂, hsave, hQ, hload, hw₂.length,
      World.run_routed hload hblank.routed, fun db key => ?_⟩
    by_cases hlt : db < e.databases.length
    · exact hw₂.there db key hlt
    · have hgone : e.entryAt db key = none := by
        rw [Engine.entryAt_eq, Engine.shardAt, List.getElem?_eq_none (by omega)]
        rfl
      rw [hgone, hw₂.absent db key hlt]
      rfl
  · exact .inr ⟨⟨w₁, hsave⟩, hbad⟩

end Rdb

end Ferrous
