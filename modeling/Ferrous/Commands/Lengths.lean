/-
# `Commands.Lengths` — how long the lists of the store can get

A list grows by what LPUSH, RPUSH and a whole new value bring, and by a RENAME
onto its key; every other operation leaves each list as long as it was, or
shorter.
-/
import Ferrous.Commands.Failures
import Ferrous.Storage.Absence

namespace Ferrous

open Lib

/-! ## One entry -/

/-- The number of elements of a stored list; of anything else it is none. -/
def listLength : Option StoredValue → Nat
  | some ⟨.list items, _⟩ => items.length
  | _ => 0

/-- A push finds a list, or makes one. -/
def takesElements : Option StoredValue → Bool
  | none => true
  | some ⟨.list _, _⟩ => true
  | some _ => false

/-- The elements a command brings to the entry of its key. -/
def KeyCmd.brought {α : Type} (entry : Option StoredValue) : KeyCmd α → Nat
  | lpush elements => if takesElements entry then elements.length else 0
  | rpush elements => if takesElements entry then elements.length else 0
  | setValue (.list items) _ => items.length
  | _ => 0

/-- The list under the key is longer by at most `n` elements. -/
def KeyStep.Adds {α : Type} (entry : Option StoredValue) (n : Nat) (st : KeyStep α) : Prop :=
  listLength (st.entry.leaves entry) ≤ listLength entry + n

theorem SameEntry.listLength_eq : ∀ {a b : Option StoredValue}, SameEntry a b → listLength b = listLength a
  | none, none, _ => rfl
  | some ⟨.string _, _⟩, some ⟨.string _, _⟩, _ => rfl
  | some ⟨.list _, _⟩, some ⟨.list _, _⟩, h => congrArg List.length (Eq.symm h.1)
  | some ⟨.set _, _⟩, some ⟨.set _, _⟩, _ => rfl
  | some ⟨.hash _, _⟩, some ⟨.hash _, _⟩, _ => rfl
  | some ⟨.sortedSet _, _⟩, some ⟨.sortedSet _, _⟩, _ => rfl
  | some ⟨.stream _, _⟩, some ⟨.stream _, _⟩, _ => rfl

namespace KeyStep

variable {α : Type} {ctx : Ctx} {entry : Option StoredValue} {n : Nat}

theorem adds_of_keep {st : KeyStep α} (h : st.entry = .keep) : st.Adds entry n := by
  unfold Adds
  rw [h]
  exact Nat.le_add_right _ n

theorem adds_of_keeps {st : KeyStep α} (h : st.Keeps ctx entry) : st.Adds entry n := by
  unfold Adds
  rcases h with hs | ⟨hn, -⟩
  · rw [hs.listLength_eq]
    exact Nat.le_add_right _ n
  · rw [hn]
    exact Nat.zero_le _

/-- What a step leaves is no list with elements. -/
theorem adds_of_zero {st : KeyStep α} (h : listLength (st.entry.leaves entry) = 0) : st.Adds entry n := by
  unfold Adds
  rw [h]
  exact Nat.zero_le _

/-- Only the deadline is another. -/
theorem adds_deadline (sv : StoredValue) (d : Option Instant) {st : KeyStep α}
    (h : st.entry = .store { sv with expiresAt := d }) : st.Adds (some sv) n := by
  have hsame : listLength (some { sv with expiresAt := d }) = listLength (some sv) := by
    obtain ⟨v, d'⟩ := sv
    cases v <;> rfl
  unfold Adds
  rw [h]
  exact hsame.le.trans (Nat.le_add_right _ n)

theorem adds_shrink {sv : StoredValue} {v : Value} {isEmpty marks : Bool} {a : α}
    (h : listLength (some { sv with value := v }) ≤ listLength entry + n) :
    (shrink sv v isEmpty marks a).Adds entry n := by
  unfold Adds shrink
  split
  · exact Nat.zero_le _
  · exact h

end KeyStep

theorem listLength_of_value {sv : StoredValue} {items : List Bytes} (h : sv.value = .list items) :
    listLength (some sv) = items.length := by
  obtain ⟨v, d⟩ := sv
  cases h
  rfl

theorem takesElements_of_value {sv : StoredValue} {items : List Bytes} (h : sv.value = .list items) :
    takesElements (some sv) = true := by
  obtain ⟨v, d⟩ := sv
  cases h
  rfl

/-! ## Parts of a list -/

theorem length_sliceOf_le (items : List Bytes) (start stop : Int) :
    (KeyOps.sliceOf items start stop).length ≤ items.length := by
  rw [KeyOps.sliceOf, List.length_drop, List.length_take]
  omega

theorem length_removeFirst_le (element : Bytes) (n : Nat) (items : List Bytes) :
    (KeyOps.removeFirst element n items).2.length ≤ items.length := by
  induction items generalizing n with
  | nil => cases n <;> exact le_rfl
  | cons item items ih =>
      cases n with
      | zero => exact le_rfl
      | succ n =>
          simp only [KeyOps.removeFirst]
          split
          · exact (ih n).trans (Nat.le_succ _)
          · exact Nat.succ_le_succ (ih (n + 1))

theorem length_lremList_le {checks : Bool} {count : Int} {element : Bytes} {items rest : List Bytes}
    {removed : Nat} (h : KeyOps.lremList checks count element items = some (removed, rest)) :
    rest.length ≤ items.length := by
  unfold KeyOps.lremList at h
  split at h
  · cases h
    exact List.length_filter_le _ _
  · split at h
    · have hrest := length_removeFirst_le element count.toNat items
      rw [Option.some.inj h] at hrest
      exact hrest
    · split at h
      · cases h
      · cases h
        rw [List.length_reverse]
        exact (length_removeFirst_le _ _ _).trans List.length_reverse.le

/-! ## Every command -/

namespace KeyOps

theorem onList_adds {α : Type} (ctx : Ctx) {entry : Option StoredValue} {n : Nat} {absent : KeyStep α}
    {f : StoredValue → List Bytes → KeyStep α} (h₀ : entry = none → absent.Adds entry n)
    (h₁ : ∀ sv items, entry = some sv → sv.value = .list items → (f sv items).Adds entry n) :
    (onList absent f ctx entry).Adds entry n :=
  onList_rule (P := fun st => st.Adds entry n) ctx h₀ h₁ (KeyStep.adds_of_keep rfl)

end KeyOps

open KeyOps KeyStep in
/-- A command adds no more to the list of its key than what it brings. -/
theorem KeyCmd.step_adds {α : Type} (c : KeyCmd α) (key : Key) (ctx : Ctx) (entry : Option StoredValue) :
    (c.step key ctx entry).Adds entry (c.brought entry) := by
  cases hreads : c.reads with
  | true => exact adds_of_keeps (reads_spec hreads key ctx entry)
  | false =>
      cases c with
      | setStringNx value =>
          simp only [step, KeyOps.setStringNx]
          split
          · exact adds_of_keep rfl
          · exact adds_of_zero rfl
      | setStringNxEx value d =>
          simp only [step, KeyOps.setStringNxEx]
          split
          · exact adds_of_keep rfl
          · split
            · exact adds_of_zero rfl
            · exact adds_of_keep rfl
      | setValue value d =>
          have hstored (dl : Option Instant) :
              listLength (some ⟨value, dl⟩) ≤ listLength entry + (setValue value d).brought entry := by
            cases value with
            | list items => exact Nat.le_add_left _ _
            | _ => exact Nat.zero_le _
          cases d with
          | none => exact hstored none
          | some d =>
              simp only [step, KeyOps.setValue]
              split
              · exact hstored _
              · exact adds_of_keep rfl
      | delete =>
          simp only [step, KeyOps.delete]
          split
          · exact adds_of_keep rfl
          · exact adds_of_zero rfl
      | expire d =>
          simp only [step, KeyOps.expire]
          split
          · exact adds_of_keep rfl
          · split
            · exact adds_of_keep rfl
            · split
              · exact adds_deadline _ _ rfl
              · exact adds_deadline _ _ rfl
      | persist =>
          simp only [step, KeyOps.persist]
          split
          · exact adds_of_keep rfl
          · split
            · exact adds_of_keep rfl
            · exact adds_deadline _ _ rfl
      | incrBy n =>
          simp only [step, KeyOps.incrBy]
          split
          · split
            · exact adds_of_keep rfl
            · split
              · exact adds_of_zero rfl
              · exact adds_of_keep rfl
          · exact adds_of_zero rfl
      | append value =>
          exact onString_rule (P := fun st => st.Adds entry _) ctx (fun _ => adds_of_zero rfl)
            (fun _ _ _ _ => adds_of_zero rfl) (adds_of_keep rfl)
      | setrange offset value =>
          refine onString_rule (P := fun st => st.Adds entry _) ctx (fun _ => ?_) (fun _ _ _ _ => ?_)
            (adds_of_keep rfl)
          · split
            · exact adds_of_keep rfl
            · exact adds_of_zero rfl
          · split
            · exact adds_of_keep rfl
            · exact adds_of_zero rfl
      | lpush elements =>
          refine onList_adds ctx (fun he => ?_) fun sv items he hv => ?_
          · subst he
            exact (List.length_reverse).le.trans (Nat.le_add_left _ _)
          · subst he
            have hbrought : (lpush elements).brought (some sv) = elements.length :=
              if_pos (takesElements_of_value hv)
            rw [hbrought, Adds, listLength_of_value hv]
            refine (List.length_append).le.trans ?_
            rw [List.length_reverse, Nat.add_comm]
      | rpush elements =>
          refine onList_adds ctx (fun he => ?_) fun sv items he hv => ?_
          · subst he
            exact Nat.le_add_left _ _
          · subst he
            have hbrought : (rpush elements).brought (some sv) = elements.length :=
              if_pos (takesElements_of_value hv)
            rw [hbrought, Adds, listLength_of_value hv]
            exact (List.length_append).le
      | lpop =>
          refine onList_adds ctx (fun _ => adds_of_keep rfl) fun sv items he hv => adds_shrink ?_
          rw [he, listLength_of_value hv]
          exact (List.length_tail).le.trans (Nat.sub_le _ _)
      | rpop =>
          refine onList_adds ctx (fun _ => adds_of_keep rfl) fun sv items he hv => adds_shrink ?_
          rw [he, listLength_of_value hv]
          exact (List.length_dropLast).le.trans (Nat.sub_le _ _)
      | lset index value =>
          refine onList_adds ctx (fun _ => adds_of_keep rfl) fun sv items he hv => ?_
          split
          · unfold Adds
            rw [he, listLength_of_value hv]
            exact (List.length_set).le
          · exact adds_of_keep rfl
      | ltrim start stop =>
          refine onList_adds ctx (fun _ => adds_of_keep rfl) fun sv items he hv => adds_shrink ?_
          rw [he, listLength_of_value hv]
          exact length_sliceOf_le items start stop
      | lrem count element =>
          refine onList_adds ctx (fun _ => adds_of_keep rfl) fun sv items he hv => ?_
          split
          · exact adds_of_keep rfl
          · next hrest =>
              refine adds_shrink ?_
              rw [he, listLength_of_value hv]
              exact length_lremList_le hrest
      | sadd members =>
          exact onSet_rule (P := fun st => st.Adds entry _) ctx (fun _ => adds_of_zero rfl)
            (fun _ _ _ _ => adds_of_zero rfl) (adds_of_keep rfl)
      | srem members =>
          exact onSet_rule (P := fun st => st.Adds entry _) ctx (fun _ => adds_of_keep rfl)
            (fun _ _ _ _ => adds_shrink (Nat.zero_le _)) (adds_of_keep rfl)
      | spop count =>
          refine onSet_rule (P := fun st => st.Adds entry _) ctx (fun _ => adds_of_keep rfl)
            (fun _ _ _ _ => ?_) (adds_of_keep rfl)
          dsimp only
          split
          · exact adds_of_keep rfl
          · exact adds_shrink (Nat.zero_le _)
      | hset fvs =>
          exact onHash_rule (P := fun st => st.Adds entry _) ctx (fun _ => adds_of_zero rfl)
            (fun _ _ _ _ => adds_of_zero rfl) (adds_of_keep rfl)
      | hdel fields =>
          exact onHash_rule (P := fun st => st.Adds entry _) ctx (fun _ => adds_of_keep rfl)
            (fun _ _ _ _ => adds_shrink (Nat.zero_le _)) (adds_of_keep rfl)
      | hincrby field n =>
          refine onHash_rule (P := fun st => st.Adds entry _) ctx (fun _ => adds_of_zero rfl)
            (fun _ _ _ _ => ?_) (adds_of_keep rfl)
          dsimp only
          split
          · exact adds_of_zero rfl
          · split
            · exact adds_of_keep rfl
            · split
              · exact adds_of_keep rfl
              · exact adds_of_zero rfl
      | zadd member score =>
          exact onZset_rule (P := fun st => st.Adds entry _) ctx (fun _ => adds_of_zero rfl)
            (fun _ _ _ _ => adds_of_zero rfl) (adds_of_keep rfl)
      | zincrby member n =>
          exact onZset_rule (P := fun st => st.Adds entry _) ctx (fun _ => adds_of_zero rfl)
            (fun _ _ _ _ => adds_of_zero rfl) (adds_of_keep rfl)
      | zrem member =>
          refine onZset_rule (P := fun st => st.Adds entry _) ctx (fun _ => adds_of_keep rfl)
            (fun sv z _ _ => ?_) (adds_of_keep rfl)
          split
          · next z' _ =>
              have hshrink : (shrink sv (.sortedSet z') z'.isEmpty true true).Adds entry
                  ((zrem member).brought entry) := adds_shrink (Nat.zero_le _)
              exact hshrink
          · exact adds_of_keep rfl
      | xadd fields =>
          exact onStream_rule (P := fun st => st.Adds entry _) ctx (fun _ => adds_of_zero rfl)
            (fun _ _ _ _ => adds_of_zero rfl) (adds_of_keep rfl)
      | xaddWithId id fields =>
          refine onStream_rule (P := fun st => st.Adds entry _) ctx (fun _ => ?_) (fun _ _ _ _ => ?_)
            (adds_of_keep rfl)
          · split
            · exact adds_of_zero rfl
            · exact adds_of_keep rfl
          · split
            · exact adds_of_zero rfl
            · exact adds_of_keep rfl
      | xtrim maxLen =>
          exact onStream_rule (P := fun st => st.Adds entry _) ctx (fun _ => adds_of_keep rfl)
            (fun _ _ _ _ => adds_of_zero rfl) (adds_of_keep rfl)
      | xdel ids =>
          exact onStream_rule (P := fun st => st.Adds entry _) ctx (fun _ => adds_of_keep rfl)
            (fun _ _ _ _ => adds_of_zero rfl) (adds_of_keep rfl)
      | _ =>
          first
            | (cases hreads; done)
            | exact onGroups_rule (P := fun st => st.Adds entry _) ctx (adds_of_keep rfl)
                (fun _ _ _ => adds_of_zero rfl) (fun _ _ _ _ _ => adds_of_zero rfl) (adds_of_keep rfl)

/-! ## The store -/

/-- The length of the list under a key. -/
def Engine.lengthAt (e : Engine) (db : Nat) (key : Key) : Nat := listLength (e.entryAt db key)

variable {ω : Nat → Ctx} {w : World}

/-- An operation on one key adds to the list of that key only. -/
theorem World.step_key_lengthAt (db : Nat) (key : Key) {β : Type} (c : KeyCmd β) (db' : Nat) (key' : Key) :
    (World.step ω β (.key db key c) w).2.engine.lengthAt db' key' ≤ w.engine.lengthAt db' key' +
      if db' = db ∧ key' = key then c.brought (w.engine.entryAt db key) else 0 := by
  show listLength ((w.engine.withEntry db key (ω w.calls) (c.step key)).2.entryAt db' key') ≤ _
  by_cases hdb : db < w.engine.databases.length
  · rw [Engine.withEntry_snd hdb, Engine.lengthAt]
    split
    · next hc =>
        obtain ⟨rfl, rfl⟩ := hc
        unfold Engine.leftBy
        split
        · exact Nat.le_add_right _ _
        · exact c.step_adds _ _ _
    · exact Nat.le_add_right _ _
  · rw [Engine.withEntry_missing hdb]
    exact Nat.le_add_right _ _

/-- Of the operations on several keys a RENAME brings the list of one key to
another, and no other adds to a list. -/
theorem World.step_store_lengthAt {β : Type} (c : StoreCmd β) (db' : Nat) (key' : Key) :
    (World.step ω β (.store c) w).2.engine.lengthAt db' key' ≤ w.engine.lengthAt db' key' ∨
      ∃ old, c.renames = some (db', old, key') ∧
        (World.step ω β (.store c) w).2.engine.lengthAt db' key' = w.engine.lengthAt db' old := by
  have hentry : (World.step ω β (.store c) w).2.engine.lengthAt db' key' =
      listLength ((c.run (ω w.calls) w.engine).2.entryAt db' key') := rfl
  rw [hentry]
  unfold Engine.lengthAt
  cases c with
  | rename db old new =>
      rw [StoreCmd.run, Engine.rename_entryAt]
      cases hold : w.engine.entryAt db old with
      | none => exact .inl le_rfl
      | some sv =>
          dsimp only
          split
          · next hc =>
              obtain ⟨rfl, rfl⟩ := hc
              exact .inr ⟨old, rfl, by rw [hold]⟩
          · split
            · exact .inl (Nat.zero_le _)
            · exact .inl le_rfl
  | flushDb db =>
      rw [StoreCmd.run, Engine.flushDb_entryAt]
      split
      · exact .inl (Nat.zero_le _)
      · exact .inl le_rfl
  | _ => exact .inl (congrArg listLength (StoreCmd.run_entryAt (by rfl) _ _ _ _)).le

/-- Nothing that only keeps entries or removes them adds to a list. -/
theorem Kept.lengthAt_le {w' : World} (h : Kept ω w w') (db : Nat) (key : Key) :
    w'.engine.lengthAt db key ≤ w.engine.lengthAt db key := by
  unfold Engine.lengthAt
  rcases h.entry db key with hs | ⟨hn, -⟩
  · exact hs.listLength_eq.le
  · rw [hn]
    exact Nat.zero_le _

end Ferrous
