/-
# `Storage.RdbRoundTrip` — a store without deadlines is loaded as it was saved

Every entry is written as its record, which no clock enters, and the record puts
it back; the save changes nothing.
-/
import Ferrous.Storage.RdbFile

namespace Ferrous

open Lib

namespace Rdb

variable {ω : Nat → Ctx} {db : Nat} {key : Key}

variable {e : Engine}

/-- The values of the store can be saved and come back, and none has a deadline. -/
def Plain (e : Engine) : Prop := ∀ db key sv, e.entryAt db key = some sv →
  sv.expiresAt = none ∧ sv.value.Portable ∧ key.length < 2 ^ 32

theorem saves_plain (checks : Bool) (he : Plain e) :
    Saves ω checks e (fun key sv => some (recordOf checks key sv.value)) (· = ·) where
  refl _ := rfl
  trans := Eq.trans
  key := by
    intro db key sv w hent hw
    obtain ⟨hdead, hport, -⟩ := he db key sv hent
    obtain ⟨body, hbody⟩ := writeValue_isSome checks hport
    have hget : World.step ω _ (.key db key .get) w =
        (.ok (.found sv.value), ⟨w.engine, w.calls + 1⟩) := by
      refine step_answer hw ?_
      show (if sv.isExpired _ then _ else _) = _
      rw [StoredValue.isExpired, hdead]
      rfl
    have httl : World.step ω _ (.key db key .ttl) ⟨w.engine, w.calls + 1⟩ =
        (.ok none, ⟨w.engine, w.calls + 1 + 1⟩) := by
      refine step_answer hw ?_
      show KeyStep.answer (sv.expiresAt.map _) = _
      rw [hdead]
      rfl
    refine ⟨⟨w.engine, w.calls + 1 + 1⟩, ?_, rfl, .refl _ _ _⟩
    rw [writeListed, Prog.bind_eq, Prog.run_bind_of_ok _ (Prog.run_perform_of_ok _ hget)]
    simp only [Prog.bind_eq]
    rw [Prog.run_bind_of_ok _ (Prog.run_perform_of_ok _ httl), writeKeyValue, (recordOf_eq hbody).1]
    rfl

theorem loads_plain (checks : Bool) (he : Plain e) :
    Loads ω checks e (fun key sv => some (recordOf checks key sv.value))
      fun sv new => SameEntry (some sv) new := by
  intro db key sv r w hent hr hdb hm hnone fuel rest hfuel
  obtain rfl := Option.some.inj hr
  obtain ⟨hdead, hport, hkey⟩ := he db key sv hent
  obtain ⟨body, hbody⟩ := writeValue_isSome checks hport
  obtain ⟨w', v', hrun, hch, hent', hsame⟩ :=
    run_readKeyValueWithType (ω := ω) hport hkey hdb hm hnone hbody rest
  rw [(recordOf_eq hbody).2, List.length_append, List.length_cons] at hfuel
  obtain ⟨fuel, rfl⟩ : ∃ n, fuel = n + 1 := ⟨fuel - 1, by omega⟩
  refine ⟨w', fuel, ?_, by omega, hch, ?_⟩
  · obtain ⟨h₁, h₂, h₃, h₄, h₅, h₆⟩ := typeCode_special sv.value
    rw [(recordOf_eq hbody).2, List.cons_append, ← List.singleton_append, List.append_assoc, loadLoop,
      (reads_byte _).bind_run, if_neg h₁, if_neg h₂, if_neg h₃, if_neg h₄, if_neg h₅, if_neg h₆,
      run_bind_of_ok hrun]
  · rw [hent']
    exact ⟨hsame, hdead⟩

end Rdb

open Rdb

/-- The save of a reachable store without deadlines, whose values are strings
and non-empty sets, hashes and sorted sets without NaNs, leaves the store as it
is; loading the file into an empty engine with as many databases and no memory
limit reads it to the end and gives every database the same entries. -/
theorem rdb_round_trip (checks : Bool) (ω ω₀ : Nat → Ctx) (e e₀ : Engine) (n n₀ : Nat)
    (hreach : e.Reachable) (hcount : e.databases.length < 2 ^ 32)
    (hentries : ∀ db key sv, e.entryAt db key = some sv →
      sv.expiresAt = none ∧ sv.value.Portable ∧ key.length < 2 ^ 32)
    (hempty : ∀ db i sh, e₀.shardAt db i = some sh → sh.data = ∅)
    (hsize : e₀.databases.length = e.databases.length) (hmem : e₀.memory.maxMemory = 0) :
    ∃ file n', (writeSnapshot checks e.databases.length).run (World.step ω) ⟨e, n⟩ =
        (.ok file, ⟨e, n'⟩) ∧
      ∃ w, (loadInto checks file).run (World.step ω₀) ⟨e₀, n₀⟩ = (.ok [], w) ∧
        w.engine.databases.length = e.databases.length ∧ w.engine.Routed ∧
        ∀ db key, SameEntry (e.entryAt db key) (w.engine.entryAt db key) := by
  have hsaves := saves_plain (ω := ω) checks hentries
  rcases run_save_load hsaves (loads_plain (ω := ω₀) checks hentries) hreach.routed hcount
    ⟨hempty, hsize, hmem⟩ n n₀ with ⟨file, w₁, w₂, hsave, rfl, hload, hlength, hrouted, hmeets⟩ |
      ⟨-, db, key, sv, -, hnone⟩
  · refine ⟨file, w₁.calls, hsave, w₂, hload, hlength, hrouted, fun db key => ?_⟩
    have hmeet := hmeets db key
    cases hent : w₁.engine.entryAt db key with
    | none =>
        rw [hent] at hmeet
        rw [show w₂.engine.entryAt db key = none from hmeet]
        trivial
    | some sv =>
        rw [hent] at hmeet
        exact hmeet
  · cases hnone

/-- A run that stores a string, a set, a hash and a sorted set in the second of
two databases. -/
def savedRun : List CleanupEvent :=
  [.op (.key 1 "s".toBytes (.setValue (.string "v".toBytes) none)) (.at 0),
    .op (.key 1 "t".toBytes (.sadd ["m".toBytes, "n".toBytes])) (.at 1),
    .op (.key 1 "h".toBytes (.hset [("f".toBytes, "v".toBytes)])) (.at 2),
    .op (.key 1 "z".toBytes (.zadd "m".toBytes (Float64.ofRatio false 3 2))) (.at 3)]

def savedStore : Engine :=
  (savedRun.foldl CleanupState.step (.initial 2 MemoryManager.unlimited)).engine

/-- Loading the file of that store gives back its four keys. -/
theorem savedStore_round_trip : ∃ file n',
    (writeSnapshot true savedStore.databases.length).run (World.step fun _ => .at 4)
      ⟨savedStore, 0⟩ = (.ok file, ⟨savedStore, n'⟩) ∧
    ∃ w, (loadInto true file).run (World.step fun _ => .at 5) ⟨Engine.withConfig 2 .unlimited, 0⟩ =
        (.ok [], w) ∧
      w.engine.databases.length = savedStore.databases.length ∧ w.engine.Routed ∧
      ∀ db key, SameEntry (savedStore.entryAt db key) (w.engine.entryAt db key) := by
  have hreach : savedStore.Reachable := ⟨2, MemoryManager.unlimited, savedRun, rfl⟩
  refine rdb_round_trip true (fun _ => .at 4) (fun _ => .at 5) savedStore
    (Engine.withConfig 2 .unlimited) 0 0 hreach (by decide) ?_ ?_ (by decide) rfl
  · intro db key sv hsv
    exact Engine.forall_entryAt hreach.routed (P := fun key sv =>
      sv.expiresAt = none ∧ sv.value.Portable ∧ key.length < 2 ^ 32) (by decide) hsv
  · intro db i sh hsh
    obtain ⟨d, hd, rfl⟩ := Option.map_eq_some_iff.mp hsh
    obtain rfl := List.eq_of_mem_replicate (List.mem_of_getElem? hd)
    rfl

end Ferrous
