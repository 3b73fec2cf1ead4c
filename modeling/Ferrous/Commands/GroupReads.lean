/-
# `Commands.GroupReads` — XREADGROUP and XGROUP CREATE half done

XREADGROUP opens its streams one after the other, and one that it cannot open
ends the command after the earlier ones have handed out entries.  The walk over
the arguments (`readGroupClean`) keeps the keys that have changed so far, and
those found past their deadline, which the reads have removed.
-/
import Ferrous.Commands.Halfway

namespace Ferrous

open Lib Args

variable {ω : Nat → Ctx} {db : Nat}

/-! ## What a group command finds -/

/-- What a handler of the group commands finds under a key at a moment. -/
def seen (ctx : Ctx) : Option StoredValue → StreamAccess Stream
  | none => .missing
  | some sv =>
      if sv.isExpired ctx.now then .missing
      else
        match sv.value with
        | .stream s => .found s
        | _ => .wrongType

theorem seen_found {ctx : Ctx} {entry : Option StoredValue} {s : Stream}
    (h : seen ctx entry = .found s) :
    ∃ t, entry = some ⟨.stream s, t⟩ ∧ (⟨.stream s, t⟩ : StoredValue).isExpired ctx.now = false := by
  cases entry with
  | none => cases h
  | some sv =>
      obtain ⟨v, t⟩ := sv
      simp only [seen] at h
      split at h
      · cases h
      · next he =>
          cases v with
          | stream s' =>
              cases h
              exact ⟨t, rfl, by simpa using he⟩
          | _ => cases h

theorem seen_stream {ctx : Ctx} {s : Stream} {t : Option Instant}
    (h : (⟨.stream s, t⟩ : StoredValue).isExpired ctx.now = false) :
    seen ctx (some ⟨.stream s, t⟩) = .found s := by
  simp only [seen, h, Bool.false_eq_true, if_false]

/-- A missing stream is gone, or was past its deadline. -/
theorem seen_missing {ctx : Ctx} {entry : Option StoredValue} (h : seen ctx entry = .missing) :
    entry = none ∨ ∃ sv, entry = some sv ∧ sv.isExpired ctx.now := by
  cases entry with
  | none => exact .inl rfl
  | some sv =>
      simp only [seen] at h
      split at h
      · next he => exact .inr ⟨sv, rfl, he⟩
      · split at h <;> cases h

/-- A group command on what it found: its answer and the entry it leaves. -/
theorem step_group {w : World} (hw : w.Ready db) (key : Key) {α : Type} {g : GroupCmd α}
    {c : KeyCmd (StreamAccess α)}
    (hc : ∀ ctx entry, c.step key ctx entry = KeyOps.onGroups g ctx entry) :
    ∃ r w', World.step ω _ (.key db key c) w = (.ok r, w') ∧ w'.calls = w.calls + 1 ∧
      OnlyChanges db key w.engine w'.engine ∧
      match seen (ω w.calls) (w.engine.entryAt db key) with
      | .missing => r = .missing ∧ w'.engine.entryAt db key = none
      | .wrongType => r = .wrongType ∧ w'.engine.entryAt db key = w.engine.entryAt db key
      | .found s => r = .found (g.apply (ω w.calls) s).1 ∧ w'.engine.entryAt db key =
          (w.engine.entryAt db key).map fun sv =>
            { sv with value := .stream (g.apply (ω w.calls) s).2 } := by
  obtain ⟨e', hstep, hch, hent⟩ := World.step_key key c hw.database hw.unlimited (ω := ω)
  rw [hc] at hstep hent
  cases hold : w.engine.entryAt db key with
  | none =>
      rw [hold] at hstep hent
      exact ⟨_, _, hstep, rfl, hch, rfl, hent⟩
  | some sv =>
      rw [hold] at hstep hent
      obtain ⟨v, t⟩ := sv
      cases he : (⟨v, t⟩ : StoredValue).isExpired (ω w.calls).now with
      | true =>
          simp only [KeyOps.onGroups, seen, he, if_true] at hstep hent ⊢
          exact ⟨_, _, hstep, rfl, hch, rfl, hent⟩
      | false =>
          simp only [KeyOps.onGroups, seen, he, Bool.false_eq_true, if_false] at hstep hent ⊢
          cases v with
          | stream s => exact ⟨_, _, hstep, rfl, hch, rfl, hent⟩
          | _ => exact ⟨_, _, hstep, rfl, hch, rfl, hent⟩

/-- A fetch: what it found and the entry it leaves. -/
theorem step_get {w : World} (hw : w.Ready db) (key : Key) :
    ∃ r w', World.step ω _ (.key db key .get) w = (.ok r, w') ∧ w'.calls = w.calls + 1 ∧
      OnlyChanges db key w.engine w'.engine ∧
      r.stream = seen (ω w.calls) (w.engine.entryAt db key) ∧
      w'.engine.entryAt db key =
        match seen (ω w.calls) (w.engine.entryAt db key) with
        | .missing => none
        | _ => w.engine.entryAt db key := by
  obtain ⟨e', hstep, hch, hent⟩ := World.step_key key .get hw.database hw.unlimited (ω := ω)
  cases hold : w.engine.entryAt db key with
  | none =>
      rw [hold] at hstep hent
      exact ⟨_, _, hstep, rfl, hch, rfl, hent⟩
  | some sv =>
      rw [hold] at hstep hent
      obtain ⟨v, t⟩ := sv
      cases he : (⟨v, t⟩ : StoredValue).isExpired (ω w.calls).now with
      | true =>
          simp only [KeyCmd.step, KeyOps.get, seen, he, if_true] at hstep hent ⊢
          exact ⟨_, _, hstep, rfl, hch, rfl, hent⟩
      | false =>
          simp only [KeyCmd.step, KeyOps.get, seen, he, Bool.false_eq_true, if_false] at hstep hent ⊢
          cases v with
          | stream s => exact ⟨_, _, hstep, rfl, hch, rfl, hent⟩
          | _ => exact ⟨_, _, hstep, rfl, hch, rfl, hent⟩

/-! ## XREADGROUP -/

/-- The arguments of one round of XREADGROUP. -/
def readGroupPair (k i : RespFrame) : Args (Key × String) := do
  let key ← bulk [k] 0 "key"
  let id ← text [i] 0 "ID"
  return (key, id)

/-- The arguments of XREADGROUP. -/
def readGroupArgs (parts : Parts) :
    Args (String × String × ReadGroupOptions × List (RespFrame × RespFrame)) := do
  arity "xreadgroup" (6 ≤ parts.length)
  if (parts[1]?).bind word? ≠ some "GROUP" then reject "ERR syntax error"
  let group ← textOr "ERR invalid group name" parts 2
  let consumer ← textOr "ERR invalid consumer name" parts 3
  let (o, rest) ← readGroupOptions (parts.drop 4) {}
  let pairs ← keysAndIds "ERR Unbalanced XREADGROUP list of streams" rest
  return (group, consumer, o, pairs)

/-- The entries a read of a group is answered with. -/
def Stream.groupEntries (s : Stream) (g : ConsumerGroup) (after : StreamId) (limit : Option Nat) :
    List StreamEntry :=
  if after = StreamId.max then s.rangeAfter g.lastDeliveredId limit else s.rangeAfter after limit

/-- The walk over the streams of XREADGROUP, `j` of them done: `changed` have
handed out entries, `gone` were found missing.  A stream that cannot be opened
ends it, and then nothing may have changed. -/
def readGroupClean (ω : Nat → Ctx) (w : World) (db : Nat) (group : String) (o : ReadGroupOptions) :
    Nat → List Key → List Key → List (RespFrame × RespFrame) → Prop
  | _, _, _, [] => True
  | j, changed, gone, (k, i) :: rest =>
      match readGroupPair k i with
      | .error _ => changed = []
      | .ok (key, id) =>
          match if key ∈ gone then .missing
            else seen (ω (w.calls + j)) (w.engine.entryAt db key) with
          | .missing =>
              readGroupClean ω w db group o (j + 1) (changed.filter (· ≠ key)) (key :: gone) rest
          | .wrongType => changed = []
          | .found s =>
              match readGroupStart id, s.consumerGroups.get? group with
              | some after, some g =>
                  readGroupClean ω w db group o (j + 1)
                    (if o.noack || (s.groupEntries g after o.limit).isEmpty then changed
                      else key :: changed) gone rest
              | _, _ => changed = []

/-- The stream has handed out more entries to the group than before. -/
def Stream.HandedOut (group : String) (s s' : Stream) : Prop :=
  ∃ g g', s.consumerGroups.get? group = some g ∧ s'.consumerGroups.get? group = some g' ∧
    g.totalPending < g'.totalPending

/-- Where the walk is: the keys that changed hold the same stream with more
entries handed out, those that are gone have been removed lazily, and the
others are untouched. -/
structure Walked (ω : Nat → Ctx) (db : Nat) (group : String) (w₀ w : World) (j : Nat)
    (changed gone : List Key) : Prop where
  ready : w.Ready db
  calls : w.calls = w₀.calls + j
  elsewhere : ∀ db' key, db' ≠ db → w.engine.entryAt db' key = w₀.engine.entryAt db' key
  removed : ∀ key ∈ gone, w.engine.entryAt db key = none ∧ KeptEntry ω w₀ w db key
  kept : ∀ key, key ∉ gone → key ∉ changed → w.engine.entryAt db key = w₀.engine.entryAt db key
  grown : ∀ key ∈ changed, key ∉ gone ∧ ∃ s s' t, w₀.engine.entryAt db key = some ⟨.stream s, t⟩ ∧
    w.engine.entryAt db key = some ⟨.stream s', t⟩ ∧ s.HandedOut group s'

namespace Walked

variable {group : String} {w₀ w w' : World} {j : Nat} {changed gone : List Key}

theorem start (h : w₀.Ready db) : Walked ω db group w₀ w₀ 0 [] [] where
  ready := h
  calls := rfl
  elsewhere := fun _ _ _ => rfl
  removed := nofun
  kept := fun _ _ _ => rfl
  grown := nofun

/-- The store is kept exactly if nothing has changed. -/
theorem kept_iff (h : Walked ω db group w₀ w j changed gone) : Kept ω w₀ w ↔ changed = [] := by
  have hle : w₀.calls ≤ w.calls := by
    have := h.calls
    omega
  constructor
  · intro hk
    by_contra hne
    obtain ⟨key, hkey⟩ := List.exists_mem_of_ne_nil changed hne
    obtain ⟨-, s, s', t, hold, hnew, g, g', hg, hg', hlt⟩ := h.grown key hkey
    have hentry := hk.entry db key
    rw [KeptEntry, hold, hnew] at hentry
    rcases hentry with ⟨hs, -⟩ | ⟨hn, -⟩
    · obtain rfl : s = s' := hs
      rw [hg] at hg'
      cases hg'
      exact lt_irrefl _ hlt
    · cases hn
  · rintro rfl
    refine ⟨hle, fun db' key => ?_⟩
    by_cases hdb : db' = db
    · subst hdb
      by_cases hg : key ∈ gone
      · exact (h.removed key hg).2
      · exact .inl (by rw [h.kept key hg List.not_mem_nil]; exact .refl _)
    · exact .inl (by rw [h.elsewhere db' key hdb]; exact .refl _)

/-- A removal seen from a later moment. -/
theorem later {key : Key} (h : KeptEntry ω w₀ w db key) (hn : w.engine.entryAt db key = none)
    (hn' : w'.engine.entryAt db key = none) (hle : w.calls ≤ w'.calls) : KeptEntry ω w₀ w' db key := by
  rw [KeptEntry, hn] at h
  rw [KeptEntry, hn']
  rcases h with hs | ⟨-, sv, i, hsv, hi, hi', he⟩
  · exact .inl hs
  · exact .inr ⟨rfl, sv, i, hsv, hi, hi'.trans_le hle, he⟩

/-- A step that changes no entry. -/
theorem same {key : Key} (h : Walked ω db group w₀ w j changed gone) (hw : w'.Ready db)
    (hc : w'.calls = w.calls + 1) (hch : OnlyChanges db key w.engine w'.engine)
    (he : w'.engine.entryAt db key = w.engine.entryAt db key) :
    Walked ω db group w₀ w' (j + 1) changed gone := by
  have hall : ∀ db' key', w'.engine.entryAt db' key' = w.engine.entryAt db' key' := by
    intro db' key'
    by_cases hk : db' = db ∧ key' = key
    · rw [hk.1, hk.2, he]
    · exact hch.others db' key' hk
  refine ⟨hw, by rw [hc, h.calls]; omega, fun db' k hdb => by rw [hall, h.elsewhere db' k hdb],
    fun k hk => ?_, fun k hg hk => by rw [hall, h.kept k hg hk], fun k hk => ?_⟩
  · obtain ⟨hn, hkept⟩ := h.removed k hk
    exact ⟨by rw [hall, hn], later hkept hn (by rw [hall, hn]) (by omega)⟩
  · rw [hall]
    exact h.grown k hk

/-- A step that finds the key missing. -/
theorem miss {key : Key} (h : Walked ω db group w₀ w j changed gone) (hw : w'.Ready db)
    (hc : w'.calls = w.calls + 1) (hch : OnlyChanges db key w.engine w'.engine)
    (hm : seen (ω w.calls) (w.engine.entryAt db key) = .missing)
    (he : w'.engine.entryAt db key = none) :
    Walked ω db group w₀ w' (j + 1) (changed.filter (· ≠ key)) (key :: gone) := by
  have hne {db' : Nat} {k : Key} (hk : k ≠ key) :
      w'.engine.entryAt db' k = w.engine.entryAt db' k :=
    hch.others db' k fun e => hk e.2
  have hcalls := h.calls
  refine ⟨hw, by omega, fun db' k hdb => ?_, fun k hk => ?_, fun k hg hk => ?_, fun k hk => ?_⟩
  · rw [hch.others db' k fun e => hdb e.1, h.elsewhere db' k hdb]
  · by_cases hkk : k = key
    · subst hkk
      refine ⟨he, ?_⟩
      by_cases hg : k ∈ gone
      · obtain ⟨hn, hkept⟩ := h.removed k hg
        exact later hkept hn he (by omega)
      · rw [KeptEntry, he]
        rcases seen_missing hm with hnone | ⟨sv, hsv, hexp⟩
        · by_cases hch : k ∈ changed
          · obtain ⟨-, s, s', t, -, hnew, -⟩ := h.grown k hch
            rw [hnone] at hnew
            cases hnew
          · rw [← h.kept k hg hch, hnone]
            exact .inl trivial
        · refine .inr ⟨rfl, ?_⟩
          by_cases hch : k ∈ changed
          · obtain ⟨-, s, s', t, hold, hnew, -⟩ := h.grown k hch
            rw [hsv] at hnew
            cases hnew
            exact ⟨_, w.calls, hold, by omega, by omega, hexp⟩
          · rw [← h.kept k hg hch]
            exact ⟨sv, w.calls, hsv, by omega, by omega, hexp⟩
    · have hg : k ∈ gone := (List.mem_cons.mp hk).resolve_left hkk
      obtain ⟨hn, hkept⟩ := h.removed k hg
      exact ⟨by rw [hne hkk, hn], later hkept hn (by rw [hne hkk, hn]) (by omega)⟩
  · have hkk : k ≠ key := fun e => hg (e ▸ List.mem_cons_self)
    rw [hne hkk]
    refine h.kept k (fun hg' => hg (List.mem_cons_of_mem _ hg')) fun hk' => hk ?_
    exact List.mem_filter.mpr ⟨hk', by simpa using hkk⟩
  · obtain ⟨hk', hkk⟩ := List.mem_filter.mp hk
    have hkk : k ≠ key := by simpa using hkk
    obtain ⟨hg, hrest⟩ := h.grown k hk'
    refine ⟨fun hg' => (List.mem_cons.mp hg').elim hkk hg, ?_⟩
    rw [hne hkk]
    exact hrest

/-- A step that hands out entries of the stream under the key. -/
theorem grow {key : Key} {s s' : Stream} {t : Option Instant}
    (h : Walked ω db group w₀ w j changed gone) (hw : w'.Ready db) (hc : w'.calls = w.calls + 1)
    (hch : OnlyChanges db key w.engine w'.engine) (hg : key ∉ gone)
    (hold : w₀.engine.entryAt db key = some ⟨.stream s, t⟩)
    (hnew : w'.engine.entryAt db key = some ⟨.stream s', t⟩) (hout : s.HandedOut group s') :
    Walked ω db group w₀ w' (j + 1) (key :: changed) gone := by
  have hne {db' : Nat} {k : Key} (hk : k ≠ key) :
      w'.engine.entryAt db' k = w.engine.entryAt db' k :=
    hch.others db' k fun e => hk e.2
  have hcalls := h.calls
  refine ⟨hw, by omega, fun db' k hdb => ?_, fun k hk => ?_, fun k hg' hk => ?_, fun k hk => ?_⟩
  · rw [hch.others db' k fun e => hdb e.1, h.elsewhere db' k hdb]
  · have hkk : k ≠ key := fun e => hg (e ▸ hk)
    obtain ⟨hn, hkept⟩ := h.removed k hk
    exact ⟨by rw [hne hkk, hn], later hkept hn (by rw [hne hkk, hn]) (by omega)⟩
  · have hkk : k ≠ key := fun e => hk (e ▸ List.mem_cons_self)
    rw [hne hkk]
    exact h.kept k hg' fun hk' => hk (List.mem_cons_of_mem _ hk')
  · by_cases hkk : k = key
    · subst hkk
      exact ⟨hg, s, s', t, hold, hnew, hout⟩
    · rw [hne hkk]
      exact h.grown k ((List.mem_cons.mp hk).resolve_left hkk)

/-- What is seen at the key now, against what the walk takes to be there. -/
theorem seen_cases (h : Walked ω db group w₀ w j changed gone) (key : Key) :
    let taken := if key ∈ gone then .missing else seen (ω (w₀.calls + j)) (w₀.engine.entryAt db key)
    let now := seen (ω w.calls) (w.engine.entryAt db key)
    taken = .missing ∧ now = .missing ∨
      key ∉ gone ∧ w.engine.entryAt db key = w₀.engine.entryAt db key ∧ taken = now ∨
      key ∈ changed ∧ key ∉ gone ∧ ∃ s s' t, s.HandedOut group s' ∧
        w₀.engine.entryAt db key = some ⟨.stream s, t⟩ ∧
        w.engine.entryAt db key = some ⟨.stream s', t⟩ ∧ taken = .found s ∧ now = .found s' := by
  dsimp only
  by_cases hg : key ∈ gone
  · refine .inl ?_
    rw [if_pos hg, (h.removed key hg).1]
    exact ⟨rfl, rfl⟩
  · rw [if_neg hg]
    by_cases hk : key ∈ changed
    · obtain ⟨-, s, s', t, hold, hnew, hout⟩ := h.grown key hk
      rw [hold, hnew, h.calls]
      cases he : (⟨.stream s, t⟩ : StoredValue).isExpired (ω (w₀.calls + j)).now with
      | true =>
          have he' : (⟨.stream s', t⟩ : StoredValue).isExpired (ω (w₀.calls + j)).now = true := he
          refine .inl ?_
          simp only [seen, he, he', if_true, and_self]
      | false =>
          have he' : (⟨.stream s', t⟩ : StoredValue).isExpired (ω (w₀.calls + j)).now = false := he
          exact .inr (.inr ⟨hk, hg, s, s', t, hout, rfl, rfl, seen_stream he, seen_stream he'⟩)
    · exact .inr (.inl ⟨hg, h.kept key hg hk, by rw [h.kept key hg hk, h.calls]⟩)

end Walked

/-- Handing out entries raises the count of the group. -/
theorem ConsumerGroup.addPending_totalPending (g : ConsumerGroup) (consumer : String)
    (es : List StreamEntry) (now : Nat) :
    (g.addPending consumer es now).totalPending = g.totalPending + es.length := by
  have hcreate : (g.createConsumer consumer now).2.totalPending = g.totalPending := by
    unfold createConsumer
    split <;> rfl
  rw [addPending, ← hcreate]

/-- What a read of a group leaves of the stream: the same, or one that has
handed out the entries. -/
theorem readGroup_apply (ctx : Ctx) (s : Stream) (group consumer : String) (after : StreamId)
    (limit : Option Nat) (noack : Bool) :
    match s.consumerGroups.get? group with
    | none => ∃ msg, (GroupCmd.readGroup group consumer after limit noack).apply ctx s = (.error msg, s)
    | some g =>
        ∃ s', (GroupCmd.readGroup group consumer after limit noack).apply ctx s =
            (.ok (s.groupEntries g after limit), s') ∧
          ((noack || (s.groupEntries g after limit).isEmpty) = true → s' = s) ∧
          ((noack || (s.groupEntries g after limit).isEmpty) = false → s.HandedOut group s') := by
  cases hg : s.consumerGroups.get? group with
  | none => exact ⟨Stream.noGroup group, by simp only [GroupCmd.apply, Stream.readGroup, hg, GroupCmd.settle]⟩
  | some g =>
      dsimp only
      generalize hes : s.groupEntries g after limit = es
      unfold Stream.groupEntries at hes
      cases hcond : (noack || es.isEmpty) with
      | true =>
          refine ⟨s, ?_, fun _ => rfl, by rintro ⟨⟩⟩
          have hneg : (!noack && !es.isEmpty) = false := by
            rw [← Bool.not_or, hcond]
            rfl
          simp only [GroupCmd.apply, Stream.readGroup, hg, hes, hneg, GroupCmd.settle,
            Bool.false_eq_true, if_false]
      | false =>
          refine ⟨s.setGroup group (g.addPending consumer es ctx.sysNow), ?_, by rintro ⟨⟩, fun _ => ?_⟩
          · have hpos : (!noack && !es.isEmpty) = true := by
              rw [← Bool.not_or, hcond]
              rfl
            simp only [GroupCmd.apply, Stream.readGroup, hg, hes, hpos, GroupCmd.settle, if_true]
          · refine ⟨g, _, hg, Map.get?_set_self .., ?_⟩
            rw [ConsumerGroup.addPending_totalPending]
            cases es with
            | nil => simp at hcond
            | cons e es => simp

/-- What has been handed out stays so. -/
theorem Stream.HandedOut.readGroup {group : String} {s s' : Stream} (h : s.HandedOut group s')
    (ctx : Ctx) (consumer : String) (after : StreamId) (limit : Option Nat) (noack : Bool) :
    ∃ es s'', (GroupCmd.readGroup group consumer after limit noack).apply ctx s' = (.ok es, s'') ∧
      s.HandedOut group s'' := by
  obtain ⟨g, g', hg, hg', hlt⟩ := h
  have happly := readGroup_apply ctx s' group consumer after limit noack
  rw [hg'] at happly
  obtain ⟨s'', happly, hsame, hmore⟩ := happly
  refine ⟨_, s'', happly, ?_⟩
  cases hcond : (noack || (s'.groupEntries g' after limit).isEmpty) with
  | true =>
      rw [hsame hcond]
      exact ⟨g, g', hg, hg', hlt⟩
  | false =>
      obtain ⟨g₁, g₂, hg₁, hg₂, hlt₂⟩ := hmore hcond
      rw [hg'] at hg₁
      cases hg₁
      exact ⟨g, g₂, hg, hg₂, hlt.trans hlt₂⟩

/-- A reply that ends the loop with an error. -/
theorem Walked.ends {group : String} {w₀ w : World} {j : Nat} {changed gone : List Key}
    (h : Walked ω db group w₀ w j changed gone) {f : RespFrame} (hf : f.isError = true) :
    (Failed (.ok f) → Kept ω w₀ w) ↔ changed = [] :=
  ⟨fun hk => h.kept_iff.mp (hk hf), fun hc _ => h.kept_iff.mpr hc⟩

/-- XREADGROUP after the look at a stream whose start is no identifier. -/
def afterLook (db : Nat) (group consumer : String) (o : ReadGroupOptions)
    (rest : List (RespFrame × RespFrame)) (acc : List RespFrame) : StreamAccess Stream → StoreProg RespFrame
  | .wrongType => .ret (.err wrongTypeText)
  | .missing => readGroupLoop db group consumer o rest acc
  | .found _ => .ret (.err "ERR Invalid stream ID specified")

/-- XREADGROUP after the read of one stream. -/
def afterRead (db : Nat) (group consumer : String) (o : ReadGroupOptions)
    (rest : List (RespFrame × RespFrame)) (acc : List RespFrame) (key : Key) :
    StreamAccess (Except String (List StreamEntry)) → StoreProg RespFrame
  | .wrongType => .ret (.err wrongTypeText)
  | .missing => readGroupLoop db group consumer o rest acc
  | .found (.error msg) => .ret (.err msg)
  | .found (.ok es) => readGroupLoop db group consumer o rest
      (if es.isEmpty then acc else acc ++ [streamFrame key es])

/-- Wherever the walk is, the rest of XREADGROUP fails without a trace exactly
if the rest of the walk says so. -/
theorem readGroupLoop_clean_iff {group consumer : String} {o : ReadGroupOptions} {w₀ : World} :
    ∀ (pairs : List (RespFrame × RespFrame)) (acc : List RespFrame) (j : Nat)
      (changed gone : List Key) (w : World), Walked ω db group w₀ w j changed gone →
    ((Failed ((readGroupLoop db group consumer o pairs acc).run (World.step ω) w).1 →
        Kept ω w₀ ((readGroupLoop db group consumer o pairs acc).run (World.step ω) w).2) ↔
      readGroupClean ω w₀ db group o j changed gone pairs)
  | [], acc, _, _, _, w, h => by
      refine ⟨fun _ => trivial, fun _ hf => ?_⟩
      have hf : (if acc.isEmpty && o.block.isSome then RespFrame.nullArray else .list acc).isError =
          true := hf
      split at hf <;> cases hf
  | (k, i) :: rest, acc, j, changed, gone, w, h => by
      cases hp : readGroupPair k i with
      | error f =>
          have hrun : (readGroupLoop db group consumer o ((k, i) :: rest) acc).run (World.step ω) w =
              (.ok f, w) := by
            show ((reading (readGroupPair k i) _).run (World.step ω) w) = _
            rw [hp]
            rfl
          have hf : f.isError = true := by
            refine isError_both (fun _ h => isError_bulk h) (fun g hg => ?_) hp
            cases hb : bulk [i] 0 "ID" with
            | error g' =>
                rw [text, hb] at hg
                cases hg
                exact isError_bulk hb
            | ok bytes =>
                rw [text, hb] at hg
                cases hg
          rw [hrun, readGroupClean, hp]
          exact h.ends hf
      | ok p =>
          obtain ⟨key, id⟩ := p
          rw [readGroupClean, hp]
          dsimp only
          cases hstart : readGroupStart id with
          | none =>
              obtain ⟨r, w', hstep, hcalls, hch, hr, hent⟩ := step_get (ω := ω) h.ready key
              have hw' := h.ready.step (ω := ω) (.key db key .get)
              rw [hstep] at hw'
              have hrun : (readGroupLoop db group consumer o ((k, i) :: rest) acc).run
                  (World.step ω) w =
                  (afterLook db group consumer o rest acc r.stream).run (World.step ω) w' := by
                show ((reading (readGroupPair k i) _).run (World.step ω) w) = _
                rw [hp]
                simp only [reading, hstart]
                exact run_need hstep
              rw [hrun, hr]
              rcases h.seen_cases key with ⟨ht, hn⟩ | ⟨-, -, ht⟩ | ⟨-, -, s, s', t, -, -, -, ht, hn⟩
              · rw [ht, hn]
                rw [hn] at hent
                exact readGroupLoop_clean_iff rest acc _ _ _ w' (h.miss hw' hcalls hch hn hent)
              · rw [ht]
                cases hn : seen (ω w.calls) (w.engine.entryAt db key) with
                | missing =>
                    rw [hn] at hent
                    exact readGroupLoop_clean_iff rest acc _ _ _ w' (h.miss hw' hcalls hch hn hent)
                | wrongType =>
                    rw [hn] at hent
                    exact (h.same hw' hcalls hch hent).ends rfl
                | found s =>
                    rw [hn] at hent
                    exact (h.same hw' hcalls hch hent).ends rfl
              · rw [ht, hn]
                rw [hn] at hent
                exact (h.same hw' hcalls hch hent).ends rfl
          | some after =>
              obtain ⟨r, w', hstep, hcalls, hch, hr⟩ :=
                step_group (ω := ω) h.ready key (g := .readGroup group consumer after o.limit o.noack)
                  (c := .readGroup group consumer after o.limit o.noack) fun _ _ => rfl
              have hw' := h.ready.step (ω := ω)
                (.key db key (.readGroup group consumer after o.limit o.noack))
              rw [hstep] at hw'
              have hrun : (readGroupLoop db group consumer o ((k, i) :: rest) acc).run
                  (World.step ω) w =
                  (afterRead db group consumer o rest acc key r).run (World.step ω) w' := by
                show ((reading (readGroupPair k i) _).run (World.step ω) w) = _
                rw [hp]
                simp only [reading, hstart]
                exact run_need hstep
              rw [hrun]
              rcases h.seen_cases key with ⟨ht, hn⟩ | ⟨hg, hsame, ht⟩ |
                ⟨hk, hg, s, s', t, hout, hold, hnew, ht, hn⟩
              · rw [ht]
                rw [hn] at hr
                rw [hr.1]
                exact readGroupLoop_clean_iff rest acc _ _ _ w' (h.miss hw' hcalls hch hn hr.2)
              · rw [ht]
                cases hn : seen (ω w.calls) (w.engine.entryAt db key) with
                | missing =>
                    rw [hn] at hr
                    rw [hr.1]
                    exact readGroupLoop_clean_iff rest acc _ _ _ w' (h.miss hw' hcalls hch hn hr.2)
                | wrongType =>
                    rw [hn] at hr
                    rw [hr.1]
                    exact (h.same hw' hcalls hch hr.2).ends rfl
                | found s =>
                    rw [hn] at hr
                    obtain ⟨t, hentry, -⟩ := seen_found hn
                    have happly := readGroup_apply (ω w.calls) s group consumer after o.limit o.noack
                    dsimp only at hr ⊢
                    cases hgroup : s.consumerGroups.get? group with
                    | none =>
                        rw [hgroup] at happly
                        obtain ⟨msg, happly⟩ := happly
                        rw [happly] at hr
                        rw [hr.1]
                        refine (h.same hw' hcalls hch ?_).ends rfl
                        rw [hr.2, hentry]
                        rfl
                    | some g =>
                        rw [hgroup] at happly
                        obtain ⟨s', happly, hkeep, hout⟩ := happly
                        rw [happly] at hr
                        rw [hr.1]
                        dsimp only
                        cases hcond : o.noack || (s.groupEntries g after o.limit).isEmpty with
                        | true =>
                            rw [if_pos rfl]
                            refine readGroupLoop_clean_iff rest _ _ _ _ w'
                              (h.same hw' hcalls hch ?_)
                            rw [hr.2, hentry, hkeep hcond]
                            rfl
                        | false =>
                            rw [if_neg Bool.false_ne_true]
                            refine readGroupLoop_clean_iff rest _ _ _ _ w'
                              (h.grow hw' hcalls hch hg (hsame ▸ hentry) ?_ (hout hcond))
                            rw [hr.2, hentry]
                            rfl
              · rw [ht]
                rw [hn] at hr
                obtain ⟨es, s'', happly, hout'⟩ :=
                  hout.readGroup (ω w.calls) consumer after o.limit o.noack
                dsimp only at hr ⊢
                rw [happly] at hr
                rw [hr.1]
                obtain ⟨g, -, hgroup, -⟩ := hout
                have hwalk := h.grow hw' hcalls hch hg hold (by rw [hr.2, hnew]; rfl) hout'
                simp only [hgroup]
                -- the key is among the changed ones already
                split
                · refine readGroupLoop_clean_iff rest _ _ _ _ w' ⟨hwalk.ready, hwalk.calls,
                    hwalk.elsewhere, hwalk.removed, fun key' hg' hk' => ?_, fun key' hk' => ?_⟩
                  · refine hwalk.kept key' hg' fun hc => hk' ?_
                    exact (List.mem_cons.mp hc).elim (fun e => e ▸ hk) fun hc => hc
                  · exact hwalk.grown key' (List.mem_cons_of_mem _ hk')
                · exact readGroupLoop_clean_iff rest _ _ _ _ w' hwalk

/-- The streams before one that cannot be opened hand out nothing. -/
def readGroupRestates (ω : Nat → Ctx) (w : World) (db : Nat) (parts : Parts) : Prop :=
  ∀ group consumer o pairs, readGroupArgs parts = .ok (group, consumer, o, pairs) →
    readGroupClean ω w db group o 0 [] [] pairs

/-- A failed XREADGROUP keeps the store exactly if the streams before the one
that could not be opened hand out nothing. -/
theorem handleXreadgroup_cleanAt_iff {w : World} (hw : w.Ready db) (parts : Parts) :
    CleanAt ω (handleXreadgroup db parts) w ↔ readGroupRestates ω w db parts := by
  change CleanAt ω (reading (readGroupArgs parts) _) w ↔ _
  unfold readGroupRestates
  cases hargs : readGroupArgs parts with
  | error f => exact ⟨fun _ => by rintro _ _ _ _ ⟨⟩, fun _ => Clean.ret _ w hw⟩
  | ok a =>
      obtain ⟨group, consumer, o, pairs⟩ := a
      refine (readGroupLoop_clean_iff pairs [] 0 [] [] w (Walked.start hw)).trans
        ⟨fun h group' consumer' o' pairs' he => ?_, fun h => h group consumer o pairs rfl⟩
      cases he
      exact h

/-! ## XGROUP CREATE -/

/-- MKSTREAM stands at the end of XGROUP CREATE. -/
def asksStream (parts : Parts) : Bool :=
  decide (5 < parts.length) && ((parts[5]?).bind word? == some "MKSTREAM")

/-- With MKSTREAM and an ID that cannot be read the key holds something. -/
def createRestates (ω : Nat → Ctx) (w : World) (db : Nat) (parts : Parts) : Prop :=
  ∀ key group id complaint, groupArgs "xgroup create" parts = .ok (key, group, id) →
    groupStart true id = .error complaint → asksStream parts = true →
      KeyOps.live (ω w.calls) (w.engine.entryAt db key) = true

theorem seen_missing_iff (ctx : Ctx) (entry : Option StoredValue) :
    seen ctx entry = .missing ↔ KeyOps.live ctx entry = false := by
  cases entry with
  | none => exact ⟨fun _ => rfl, fun _ => rfl⟩
  | some sv =>
      simp only [seen, KeyOps.live, Bool.not_eq_false']
      cases sv.isExpired ctx.now with
      | true => simp
      | false =>
          simp only [Bool.false_eq_true, if_false, iff_false]
          split <;> exact nofun

/-- Storing an empty stream over nothing, or over an expired value, shows. -/
theorem not_kept_of_stored {w w' : World} {key : Key} {v : Value}
    (hold : seen (ω w.calls) (w.engine.entryAt db key) = .missing)
    (hnew : w'.engine.entryAt db key = some ⟨v, none⟩) : ¬ Kept ω w w' := by
  intro h
  have hentry := h.entry db key
  rw [KeptEntry, hnew] at hentry
  rcases hentry with hs | ⟨hn, -⟩
  · rcases seen_missing hold with hnone | ⟨old, hsome, he⟩
    · rw [hnone] at hs
      exact hs
    · rw [hsome] at hs
      rw [StoredValue.isExpired, show old.expiresAt = none from hs.2] at he
      cases he
  · cases hn

theorem isError_groupStart {zero : Bool} {id : String} {f : RespFrame}
    (h : groupStart zero id = .error f) : f.isError = true := by
  unfold groupStart at h
  split at h
  · cases h
  · split at h
    · cases h
    · split at h
      · cases h
      · cases h
        rfl

/-- Storing an empty stream, and what comes after it. -/
theorem step_newStream {w : World} (hw : w.Ready db) (key : Key) :
    ∃ w', World.step ω _ (.key db key (.setValue (.stream Stream.new) none)) w = (.ok (), w') ∧
      w'.Ready db ∧ w'.engine.entryAt db key = some ⟨.stream Stream.new, none⟩ := by
  obtain ⟨e', hstep, -, hent⟩ :=
    World.step_key key (.setValue (.stream Stream.new) none) hw.database hw.unlimited (ω := ω)
  have hw' := hw.step (ω := ω) (.key db key (.setValue (.stream Stream.new) none))
  rw [hstep] at hw'
  exact ⟨_, hstep, hw', hent⟩

/-- A group is created on an empty stream without fail. -/
theorem grouping_newStream {w : World} (hw : w.Ready db) {key : Key} (group : String)
    (start : Option StreamId) (missing : RespFrame)
    (hent : w.engine.entryAt db key = some ⟨.stream Stream.new, none⟩) :
    ¬ Failed ((grouping db key (.groupCreate group start) missing createdFrame).run
      (World.step ω) w).1 := by
  obtain ⟨r, w', hstep, -, -, hr⟩ := step_group (ω := ω) hw key (g := .create group start)
    (c := .groupCreate group start) fun _ _ => rfl
  rw [hent] at hr
  obtain ⟨rfl, -⟩ := hr
  rw [grouping, run_need hstep]
  exact nofun

/-- XGROUP CREATE after its first attempt. -/
def afterCreate (db : Nat) (key : Key) (group : String) (start : Option StreamId) (asks : Bool) :
    StreamAccess (Except String Unit) → StoreProg RespFrame
  | .found a => .ret (createdFrame a)
  | .wrongType => .ret (.err wrongTypeText)
  | .missing =>
      if asks then do
        need (.key db key (.setValue (.stream Stream.new) none))
        grouping db key (.groupCreate group start) (.err wrongTypeText) createdFrame
      else .ret (.err "ERR The XGROUP subcommand requires the key to exist")

/-- A group that exists already is not created: the stream stays as it was. -/
theorem create_refused {ctx : Ctx} {group : String} {start : Option StreamId} {s : Stream}
    (h : (createdFrame ((GroupCmd.create group start).apply ctx s).1).isError = true) :
    ((GroupCmd.create group start).apply ctx s).2 = s := by
  simp only [GroupCmd.apply] at h ⊢
  cases hc : s.createConsumerGroup group (GroupCmd.lastOr s start) with
  | ok s' =>
      rw [hc] at h
      cases h
  | error e => rfl

/-- An operation that touches one key keeps the store if it keeps that entry. -/
theorem kept_of_entry {w w' : World} {key : Key} (hcalls : w.calls ≤ w'.calls)
    (hch : OnlyChanges db key w.engine w'.engine) (h : KeptEntry ω w w' db key) : Kept ω w w' where
  calls_le := hcalls
  entry db' key' := by
    by_cases hk : db' = db ∧ key' = key
    · obtain ⟨rfl, rfl⟩ := hk
      exact h
    · refine .inl ?_
      rw [hch.others db' key' hk]
      exact .refl _

/-- The first attempt, and what becomes of it, change nothing where the whole fails. -/
theorem afterCreate_cleanAt {w : World} (hw : w.Ready db) (key : Key) (group : String)
    (start : Option StreamId) (asks : Bool) :
    CleanAt ω (need (.key db key (.groupCreate group start)) >>=
      afterCreate db key group start asks) w := by
  obtain ⟨r, w', hstep, hcalls, hch, hr⟩ := step_group (ω := ω) hw key
    (g := .create group start) (c := .groupCreate group start) fun _ _ => rfl
  have hw' := hw.step (ω := ω) (.key db key (.groupCreate group start))
  have hle : w.calls ≤ w'.calls := by omega
  rw [hstep] at hw'
  unfold CleanAt
  rw [run_need hstep]
  cases hn : seen (ω w.calls) (w.engine.entryAt db key) with
  | found s =>
      rw [hn] at hr
      obtain ⟨rfl, hent⟩ := hr
      intro hf
      rw [create_refused hf] at hent
      obtain ⟨t, hold, -⟩ := seen_found hn
      have hsame : SameEntry (w.engine.entryAt db key) (w'.engine.entryAt db key) := by
        rw [hent, hold]
        exact .refl _
      exact kept_of_entry hle hch (.inl hsame)
  | wrongType =>
      rw [hn] at hr
      obtain ⟨rfl, hent⟩ := hr
      have hsame : SameEntry (w.engine.entryAt db key) (w'.engine.entryAt db key) := by
        rw [hent]
        exact .refl _
      exact fun _ => kept_of_entry hle hch (.inl hsame)
  | missing =>
      rw [hn] at hr
      obtain ⟨rfl, hent⟩ := hr
      cases asks with
      | false =>
          have hkept : KeptEntry ω w w' db key := by
            rw [KeptEntry, hent]
            rcases seen_missing hn with hold | ⟨old, hold, he⟩
            · rw [hold]
              exact .inl trivial
            · exact .inr ⟨rfl, old, w.calls, hold, le_rfl, by omega, he⟩
          exact fun _ => kept_of_entry hle hch hkept
      | true =>
          obtain ⟨w'', hset, hw'', hent'⟩ := step_newStream (ω := ω) hw' key
          simp only [afterCreate, if_true]
          rw [run_need hset]
          exact fun hf => absurd hf (grouping_newStream hw'' group start _ hent')

/-- A failed XGROUP CREATE keeps the store exactly if it had no stream to make
before an ID that cannot be read. -/
theorem handleXgroupCreate_cleanAt_iff {w : World} (hw : w.Ready db) (parts : Parts) :
    CleanAt ω (handleXgroupCreate db parts) w ↔ createRestates ω w db parts := by
  unfold createRestates handleXgroupCreate
  cases hargs : groupArgs "xgroup create" parts with
  | error f => exact ⟨fun _ => by rintro _ _ _ _ ⟨⟩, fun _ => Clean.ret _ w hw⟩
  | ok a =>
      obtain ⟨key, group, id⟩ := a
      have hcond : (∀ key' group' id' complaint,
          (Except.ok (key, group, id) : Args (Key × String × String)) = .ok (key', group', id') →
          groupStart true id' = .error complaint → asksStream parts = true →
            KeyOps.live (ω w.calls) (w.engine.entryAt db key') = true) ↔
          ∀ complaint, groupStart true id = .error complaint → asksStream parts = true →
            KeyOps.live (ω w.calls) (w.engine.entryAt db key) = true := by
        refine ⟨fun h complaint => h key group id complaint rfl, fun h key' group' id' complaint he => ?_⟩
        cases he
        exact h complaint
      rw [hcond]
      have hlive := seen_missing_iff (ω w.calls) (w.engine.entryAt db key)
      simp only [reading]
      cases hstart : groupStart true id with
      | error complaint =>
          obtain ⟨r, w', hstep, -, -, hr, -⟩ := step_get (ω := ω) hw key
          have hw' := hw.step (ω := ω) (.key db key .get)
          have hkept := World.step_kept (ω := ω) (o := .key db key .get) rfl w
          rw [hstep] at hw' hkept
          unfold CleanAt
          rw [run_need hstep, hr]
          cases hn : seen (ω w.calls) (w.engine.entryAt db key) with
          | found s =>
              refine ⟨fun _ _ _ _ => ?_, fun _ _ => hkept⟩
              rw [hn] at hlive
              simpa using hlive.not.mp (by rintro ⟨⟩)
          | wrongType =>
              refine ⟨fun _ _ _ _ => ?_, fun _ _ => hkept⟩
              rw [hn] at hlive
              simpa using hlive.not.mp (by rintro ⟨⟩)
          | missing =>
              rw [hlive.mp hn]
              show (Failed ((if asksStream parts then _ else _ : StoreProg RespFrame).run
                (World.step ω) w').1 → Kept ω w ((if asksStream parts then _ else _ :
                  StoreProg RespFrame).run (World.step ω) w').2) ↔ _
              cases asksStream parts with
              | false => exact ⟨fun _ => by rintro _ _ ⟨⟩, fun _ _ => hkept⟩
              | true =>
                  obtain ⟨w'', hset, -, hent⟩ := step_newStream (ω := ω) hw' key
                  rw [if_pos rfl, run_need hset]
                  refine ⟨fun h => absurd (h (isError_groupStart hstart)) ?_, fun h => ?_⟩
                  · exact not_kept_of_stored hn hent
                  · cases h complaint rfl rfl
      | ok start =>
          refine ⟨fun _ => by rintro _ ⟨⟩, fun _ => ?_⟩
          exact afterCreate_cleanAt hw key group start (asksStream parts)

end Ferrous
