/-
# `Storage.Scan` — a SCAN iteration over a keyspace that changes

The cursor of SCAN is a position in the sorted list of live keys, which every
call makes anew.  Between two calls the other clients and the cleanup take any
steps.  A key is skipped only if it slides in front of the cursor: when keys that
sort before it go away.
-/
import Ferrous.Lib.Paging
import Ferrous.Storage.Absence
import Ferrous.Storage.Expiry
import Ferrous.Storage.SkipChains

namespace Ferrous

open Lib

/-! ## One page -/

/-- The loop looks at a stretch from where it starts, and keeps what passes. -/
theorem scanLoop_spec {β : Type} (keep : β → Bool) (limit : Nat) (xs : List β) (examined found : Nat) :
    ∃ n, scanLoop keep limit xs examined found = (examined + n, (xs.take n).filter keep) := by
  induction xs generalizing examined found with
  | nil => exact ⟨0, rfl⟩
  | cons x xs ih =>
      rw [scanLoop]
      split
      · split
        · next hkeep =>
            obtain ⟨n, hn⟩ := ih (examined + 1) (found + 1)
            refine ⟨n + 1, ?_⟩
            rw [hn, List.take_succ_cons, List.filter_cons_of_pos hkeep, Nat.add_assoc, Nat.add_comm 1 n]
        · next hkeep =>
            obtain ⟨n, hn⟩ := ih (examined + 1) found
            refine ⟨n + 1, ?_⟩
            rw [hn, List.take_succ_cons, List.filter_cons_of_neg hkeep, Nat.add_assoc, Nat.add_comm 1 n]
      · exact ⟨0, rfl⟩

/-- It looks at one element at least. -/
theorem scanLoop_pos {β : Type} (keep : β → Bool) {limit : Nat} (hl : 0 < limit) (x : β) (xs : List β) :
    0 < (scanLoop keep limit (x :: xs) 0 0).1 := by
  rw [scanLoop, if_pos ⟨Nat.mul_pos hl (by decide), hl⟩]
  split
  · obtain ⟨n, hn⟩ := scanLoop_spec keep limit xs (0 + 1) (0 + 1)
    rw [hn]
    exact Nat.le_add_right 1 n
  · obtain ⟨n, hn⟩ := scanLoop_spec keep limit xs (0 + 1) 0
    rw [hn]
    exact Nat.le_add_right 1 n

theorem scanLimit_pos (count : Nat) : 0 < scanLimit count := by
  unfold scanLimit
  split <;> omega

/-- A page is what passes of a stretch from the cursor; the next cursor is where
the stretch ends, or 0 at the end of the list. -/
theorem scanPage_spec {β : Type} (keep : β → Bool) (items : List β) (cursor count : Nat) :
    ∃ n, (scanPage keep items cursor count).2 = ((items.drop cursor).take n).filter keep ∧
      (scanPage keep items cursor count).1 = (if items.length ≤ cursor + n then 0 else cursor + n) ∧
      (cursor < items.length → 0 < n) := by
  unfold scanPage
  split
  · next hend => exact ⟨0, rfl, (if_pos hend.1).symm, fun h => absurd hend.1 (Nat.not_le_of_lt h)⟩
  · obtain ⟨n, hn⟩ := scanLoop_spec keep (scanLimit count) (items.drop cursor) 0 0
    rw [Nat.zero_add] at hn
    have hpos : cursor < items.length → 0 < n := by
      intro hlt
      cases hrest : items.drop cursor with
      | nil => exact absurd (List.drop_eq_nil_iff.mp hrest) (Nat.not_le_of_lt hlt)
      | cons x xs =>
          have hone := scanLoop_pos keep (scanLimit_pos count) x xs
          rwa [← hrest, hn] at hone
    rw [hn]
    exact ⟨n, rfl, rfl, hpos⟩

theorem perm_sortByKey {V : Type} (l : List (Bytes × V)) : (sortByKey l).Perm l := List.perm_insertionSort _ l

/-- Sorting by name sorts the names. -/
theorem ascending_sortByKey {V : Type} (l : List (Bytes × V)) :
    Ascending ((sortByKey l).map Prod.fst) := by
  have hle : ∀ a b : Bytes × V, SkipList.compareBytes a.1 b.1 ≠ .gt ↔ compare a.1 b.1 ≠ .gt := by
    intro a b
    rw [SkipChain.compareBytes_eq_compare]
  have htotal : Std.Total fun a b : Bytes × V => SkipList.compareBytes a.1 b.1 ≠ .gt := by
    refine ⟨fun a b => ?_⟩
    have hswap : compare b.1 a.1 = (compare a.1 b.1).swap := Std.OrientedOrd.eq_swap
    rw [hle, hle, hswap]
    cases compare a.1 b.1
    · exact .inl nofun
    · exact .inl nofun
    · exact .inr nofun
  have htrans : IsTrans (Bytes × V) fun a b => SkipList.compareBytes a.1 b.1 ≠ .gt := by
    refine ⟨fun a b c => ?_⟩
    rw [hle, hle, hle]
    intro hab hbc
    exact Ordering.isLE_iff_ne_gt.mp
      (Std.TransCmp.isLE_trans (Ordering.isLE_iff_ne_gt.mpr hab) (Ordering.isLE_iff_ne_gt.mpr hbc))
  refine List.pairwise_map.mpr ((List.pairwise_insertionSort _ l).imp ?_)
  exact fun h => (hle _ _).mp h

/-! ## An iteration -/

/-- What the other clients and the cleanup do, and the call behind it. -/
structure ScanTurn : Type 1 where
  others : List CleanupEvent
  ctx : Ctx
  count : Nat

/-- A call that was made: on which store, when, with which cursor, and its answer. -/
structure ScanCall where
  engine : Engine
  ctx : Ctx
  cursor : Nat
  answer : Outcome (Nat × List Key)

namespace ScanCall

/-- The keys a call returns. -/
def page (c : ScanCall) : List Key :=
  match c.answer with
  | .ok (_, keys) => keys
  | _ => []

/-- The cursor a call returns, if it succeeds. -/
def next? (c : ScanCall) : Option Nat :=
  match c.answer with
  | .ok (next, _) => some next
  | _ => none

/-- The live keys of the type asked for, as the call sorts them. -/
def names (c : ScanCall) (db : Nat) (typeFilter : Option String) : List Key :=
  match c.engine.databases[db]? with
  | none => []
  | some d => (sortByKey (Engine.scanned d c.ctx.now typeFilter)).map Prod.fst

/-- At the time of the call the key is there, not expired and of the type asked for. -/
def Shows (c : ScanCall) (db : Nat) (typeFilter : Option String) (key : Key) : Prop :=
  ∃ sv, c.engine.liveAt c.ctx.now db key = some sv ∧
    (typeFilter.map (· == sv.value.valueType.name)).getD true = true

/-- The position behind the last name the call looked at. -/
def stop (c : ScanCall) (db : Nat) (typeFilter : Option String) : Nat :=
  match c.next? with
  | none => c.cursor
  | some next => if next = 0 then (c.names db typeFilter).length else next

/-- What the call looked at. -/
def look (c : ScanCall) (db : Nat) (typeFilter : Option String) : Look Key :=
  ⟨c.names db typeFilter, c.cursor, c.stop db typeFilter - c.cursor⟩

/-- The call as it is made. -/
def made (db : Nat) (pattern : Option Bytes) (typeFilter : Option String) (e : Engine) (ctx : Ctx)
    (cursor count : Nat) : ScanCall :=
  ⟨e, ctx, cursor, (Op.run ctx e (.store (.scan db cursor pattern typeFilter count))).1⟩

end ScanCall

/-- The calls of an iteration: each hands back the cursor of the one before it. -/
def scanCalls (db : Nat) (pattern : Option Bytes) (typeFilter : Option String) :
    CleanupState → Nat → List ScanTurn → List ScanCall
  | _, _, [] => []
  | s, cursor, t :: ts =>
      let s₁ := t.others.foldl CleanupState.step s
      let c := ScanCall.made db pattern typeFilter s₁.engine t.ctx cursor t.count
      let s₂ := s₁.step (.op (.store (.scan db cursor pattern typeFilter t.count)) t.ctx)
      c :: match c.next? with
        | some next => scanCalls db pattern typeFilter s₂ next ts
        | none => []

/-- The iteration is run to its end: the last call, and no other, returns 0. -/
def FullScan : List ScanCall → Prop
  | [] => False
  | [c] => c.next? = some 0
  | c :: d :: cs => c.next? ≠ some 0 ∧ FullScan (d :: cs)

/-- If at least as many names as the cursor says sorted before the key at one call,
then so it is at the next. -/
def StaysBehind (db : Nat) (typeFilter : Option String) (key : Key) (c d : ScanCall) : Prop :=
  d.cursor ≤ ahead (c.names db typeFilter) key → d.cursor ≤ ahead (d.names db typeFilter) key

/-! ## What a call looks at -/

section Calls

variable {db : Nat} {pattern : Option Bytes} {typeFilter : Option String}

variable (pattern typeFilter) in
/-- A call returns the names of its stretch that match, and the end of the stretch
or 0. -/
theorem ScanCall.made_spec {e : Engine} {d : Database} (hd : e.databases[db]? = some d) (ctx : Ctx)
    (cursor count : Nat) :
    let c := made db pattern typeFilter e ctx cursor count
    let v := c.look db typeFilter
    c.page = ((v.items.drop v.start).take v.length).filter (keeps pattern) ∧
      ∃ next, c.next? = some next ∧
        (next = 0 ∧ v.items.length ≤ v.start + v.length ∨ next ≠ 0 ∧ next = v.start + v.length) := by
  intro c v
  have hnames : c.names db typeFilter = (sortByKey (Engine.scanned d ctx.now typeFilter)).map Prod.fst := by
    change (match e.databases[db]? with
      | none => []
      | some d => (sortByKey (Engine.scanned d ctx.now typeFilter)).map Prod.fst) = _
    rw [hd]
  have hanswer : c.answer =
      let r := scanPage (fun p => keeps pattern p.1) (sortByKey (Engine.scanned d ctx.now typeFilter))
        cursor count
      .ok (r.1, r.2.map Prod.fst) := by
    change (e.reading db _).1 = _
    rw [Engine.reading, hd]
  obtain ⟨n, hpage, hnext, hpos⟩ := scanPage_spec (fun p : Key × StoredValue => keeps pattern p.1)
    (sortByKey (Engine.scanned d ctx.now typeFilter)) cursor count
  generalize sortByKey (Engine.scanned d ctx.now typeFilter) = items at hnames hanswer hpage hnext hpos
  have hlen : v.items.length = items.length := (congrArg List.length hnames).trans (List.length_map _)
  have hnext' : c.next? = some (if items.length ≤ cursor + n then 0 else cursor + n) := by
    rw [← hnext, ScanCall.next?, hanswer]
  have hkeys : c.page = ((v.items.drop cursor).take n).filter (keeps pattern) := by
    have hv : v.items = items.map Prod.fst := hnames
    rw [hv, ScanCall.page, hanswer, ← List.map_drop, ← List.map_take, List.filter_map]
    exact congrArg (List.map Prod.fst) hpage
  have hstretch : v.length = c.stop db typeFilter - cursor := rfl
  rw [hkeys]
  by_cases hend : items.length ≤ cursor + n
  · rw [if_pos hend] at hnext'
    have hstop : c.stop db typeFilter = v.items.length := by
      rw [ScanCall.stop, hnext']
      rfl
    have hall : (v.items.drop cursor).take n = (v.items.drop cursor).take v.length := by
      rw [List.take_of_length_le (by rw [List.length_drop]; omega),
        List.take_of_length_le (by rw [List.length_drop]; omega)]
    refine ⟨by rw [hall]; rfl, 0, hnext', .inl ⟨rfl, ?_⟩⟩
    change v.items.length ≤ cursor + v.length
    omega
  · rw [if_neg hend] at hnext'
    have hne : cursor + n ≠ 0 := by
      have hn := hpos (by omega)
      omega
    have hstop : c.stop db typeFilter = cursor + n := by
      rw [ScanCall.stop, hnext']
      exact if_neg hne
    have hn : v.length = n := by omega
    exact ⟨by rw [hn]; rfl, cursor + n, hnext', .inr ⟨hne, by rw [hn]; rfl⟩⟩

variable (pattern typeFilter) in
/-- A call on a database that does not exist fails. -/
theorem ScanCall.made_failed {e : Engine} (hd : e.databases[db]? = none) (ctx : Ctx) (cursor count : Nat) :
    (made db pattern typeFilter e ctx cursor count).next? = none := by
  have hanswer : (made db pattern typeFilter e ctx cursor count).answer = .err Engine.invalidDatabase := by
    change (e.reading db _).1 = _
    rw [Engine.reading, hd]
  rw [next?, hanswer]

/-- The calls of a full iteration walk through what they list. -/
theorem walks_scanCalls {turns : List ScanTurn} {s : CleanupState} {cursor : Nat}
    (hfull : FullScan (scanCalls db pattern typeFilter s cursor turns)) :
    Walks cursor ((scanCalls db pattern typeFilter s cursor turns).map (·.look db typeFilter)) := by
  induction turns generalizing s cursor with
  | nil => exact hfull
  | cons t ts ih =>
      rw [scanCalls] at hfull ⊢
      cases hd : (t.others.foldl CleanupState.step s).engine.databases[db]? with
      | none =>
          have hfail := ScanCall.made_failed pattern typeFilter hd t.ctx cursor t.count
          rw [hfail] at hfull
          cases hfail.symm.trans hfull
      | some d =>
          obtain ⟨-, next, hnext, hends⟩ :=
            ScanCall.made_spec pattern typeFilter hd t.ctx cursor t.count
          have hstart : (ScanCall.made db pattern typeFilter (t.others.foldl CleanupState.step s).engine t.ctx
            cursor t.count).cursor = cursor := rfl
          rw [hnext] at hfull ⊢
          generalize ScanCall.made db pattern typeFilter _ t.ctx cursor t.count = c
            at hfull hnext hends hstart ⊢
          dsimp only at hfull hends ⊢
          generalize hrest : scanCalls db pattern typeFilter _ next ts = rest at hfull ⊢
          cases rest with
          | nil =>
              have hzero : next = 0 := Option.some.inj (hnext.symm.trans hfull)
              rcases hends with ⟨-, hend⟩ | ⟨hne, -⟩
              · exact ⟨hstart, hend⟩
              · exact absurd hzero hne
          | cons d rest =>
              rcases hends with ⟨hzero, -⟩ | ⟨-, hend⟩
              · exact absurd (hzero ▸ hnext) hfull.1
              · have hwalk := ih (hrest.symm ▸ hfull.2)
                rw [hrest, hend] at hwalk
                exact ⟨hstart, hwalk⟩

/-- Every call of an iteration is made on a store the steps lead to. -/
theorem made_of_mem {turns : List ScanTurn} {s : CleanupState} (hs : s.engine.Routed) {cursor : Nat}
    {c : ScanCall} (hc : c ∈ scanCalls db pattern typeFilter s cursor turns) :
    c.engine.Routed ∧ ∃ count, c = .made db pattern typeFilter c.engine c.ctx c.cursor count := by
  induction turns generalizing s cursor with
  | nil => cases hc
  | cons t ts ih =>
      have hmid := CleanupState.foldl_routed hs t.others
      rw [scanCalls] at hc
      rcases List.mem_cons.mp hc with rfl | hc
      · exact ⟨hmid, t.count, rfl⟩
      · split at hc
        · exact ih (CleanupState.step_routed hmid _) hc
        · cases hc

/-- What SCAN walks over at an instant: the live keys of the type asked for. -/
theorem Engine.mem_scanned {e : Engine} (h : e.Routed) {d : Database} (hd : e.databases[db]? = some d)
    {now : Instant} {key : Key} : key ∈ (Engine.scanned d now typeFilter).map Prod.fst ↔
      ∃ sv, e.liveAt now db key = some sv ∧
        (typeFilter.map (· == sv.value.valueType.name)).getD true = true := by
  have hlive (sv : StoredValue) : e.liveAt now db key = some sv ↔
      e.entryAt db key = some sv ∧ (!sv.isExpired now) = true := Option.filter_eq_some_iff
  rw [List.mem_map]
  constructor
  · rintro ⟨⟨k, sv⟩, hmem, rfl⟩
    obtain ⟨hin, hpass⟩ := List.mem_filter.mp hmem
    obtain ⟨hfresh, htype⟩ := Bool.and_eq_true_iff.mp hpass
    exact ⟨sv, (hlive sv).mpr ⟨(Engine.mem_entriesOf h hd).mp hin, hfresh⟩, htype⟩
  · rintro ⟨sv, hsv, htype⟩
    obtain ⟨hin, hfresh⟩ := (hlive sv).mp hsv
    refine ⟨(key, sv), List.mem_filter.mpr ⟨?_, ?_⟩, rfl⟩
    · exact (Engine.mem_entriesOf h hd).mpr hin
    · exact Bool.and_eq_true_iff.mpr ⟨hfresh, htype⟩

/-- A call lists a key if and only if it shows it. -/
theorem ScanCall.mem_names {c : ScanCall} (hc : c.engine.Routed) {key : Key} :
    key ∈ c.names db typeFilter ↔ c.Shows db typeFilter key := by
  cases hd : c.engine.databases[db]? with
  | none =>
      have hnone : c.names db typeFilter = [] := by rw [names, hd]
      rw [hnone]
      refine iff_of_false List.not_mem_nil ?_
      rintro ⟨sv, hsv, -⟩
      have hlt := Engine.lt_of_entryAt (Option.filter_eq_some_iff.mp hsv).1
      rw [List.getElem?_eq_getElem hlt] at hd
      cases hd
  | some d =>
      have hnames : c.names db typeFilter =
          (sortByKey (Engine.scanned d c.ctx.now typeFilter)).map Prod.fst := by rw [names, hd]
      rw [hnames, ((perm_sortByKey _).map Prod.fst).mem_iff]
      exact Engine.mem_scanned hc hd

/-- The names are listed in order. -/
theorem ScanCall.ascending_names (c : ScanCall) : Ascending (c.names db typeFilter) := by
  unfold names
  split
  · exact .nil
  · exact ascending_sortByKey _

/-- No name is listed twice. -/
theorem ScanCall.nodup_names {c : ScanCall} (hc : c.engine.Routed) : (c.names db typeFilter).Nodup := by
  unfold names
  split
  · exact List.nodup_nil
  · next d hd =>
      rw [((perm_sortByKey _).map Prod.fst).nodup_iff]
      exact (Engine.nodup_keys_entriesOf hc hd).sublist (List.filter_sublist.map Prod.fst)

/-- If the names in front of the cursor are still listed, nothing slides. -/
theorem staysBehind_of_kept {c d : ScanCall} (hc : c.engine.Routed) (key : Key)
    (hkept : ∀ name ∈ (c.names db typeFilter).take d.cursor, name ∈ d.names db typeFilter) :
    StaysBehind db typeFilter key c d :=
  fun hbehind => le_ahead_of_kept c.ascending_names (ScanCall.nodup_names hc) hbehind hkept

/-- A key in the stretch a call looks at is returned if it matches. -/
theorem ScanCall.mem_page {e : Engine} {ctx : Ctx} {cursor count : Nat} {key : Key} (he : e.Routed)
    (hshown : (made db pattern typeFilter e ctx cursor count).Shows db typeFilter key)
    (hkey : keeps pattern key = true)
    (hcovers : ((made db pattern typeFilter e ctx cursor count).look db typeFilter).Covers key) :
    key ∈ (made db pattern typeFilter e ctx cursor count).page := by
  have ⟨sv, hsv, _⟩ := hshown
  have hlt : db < e.databases.length := Engine.lt_of_entryAt (Option.filter_eq_some_iff.mp hsv).1
  obtain ⟨hpage, -⟩ := made_spec pattern typeFilter
    (List.getElem?_eq_getElem hlt) ctx cursor count
  rw [hpage]
  refine List.mem_filter.mpr ⟨mem_stretch (ascending_names _) ?_ hcovers.1 hcovers.2, hkey⟩
  exact (mem_names he).mpr hshown

end Calls

/-- In an iteration run to its end, a key that every call shows, that matches and
that never slides in front of the cursor is returned. -/
theorem scan_returns_shown {s : CleanupState} (hs : s.engine.Reachable) {db : Nat} {pattern : Option Bytes}
    {typeFilter : Option String} {turns : List ScanTurn}
    (hfull : FullScan (scanCalls db pattern typeFilter s 0 turns)) {key : Key}
    (hshown : ∀ c ∈ scanCalls db pattern typeFilter s 0 turns, c.Shows db typeFilter key)
    (hkey : keeps pattern key = true)
    (hstays : (scanCalls db pattern typeFilter s 0 turns).IsChain (StaysBehind db typeFilter key)) :
    ∃ c ∈ scanCalls db pattern typeFilter s 0 turns, key ∈ c.page := by
  have hlisted : ∀ v ∈ (scanCalls db pattern typeFilter s 0 turns).map (·.look db typeFilter),
      key ∈ v.items := by
    intro v hv
    obtain ⟨c, hc, rfl⟩ := List.mem_map.mp hv
    exact (ScanCall.mem_names (made_of_mem hs.routed hc).1).mpr (hshown c hc)
  obtain ⟨v, hv, hcovers⟩ := (walks_scanCalls hfull).covers hlisted (fun _ _ => Nat.zero_le _)
    ((List.isChain_map _).mpr hstays)
  obtain ⟨c, hc, rfl⟩ := List.mem_map.mp hv
  obtain ⟨hrouted, count, hmade⟩ := made_of_mem hs.routed hc
  have hshow := hshown c hc
  refine ⟨c, hc, ?_⟩
  rw [hmade] at hcovers hshow ⊢
  exact ScanCall.mem_page hrouted hshow hkey hcovers

/-- SET of an empty string. -/
def setting (key : Key) : CleanupEvent := .op (.key 0 key (.setValue (.string []) none)) (.at 0)

/-- Three keys and a call for one of them; then another client does something, and
the iteration is run to its end. -/
def twoTurns (between : CleanupEvent) : List ScanTurn :=
  [⟨["a", "b", "c"].map fun key => setting key.toBytes, .at 0, 1⟩, ⟨[between], .at 0, 10⟩]

/-- A key that another client inserts behind the cursor does not hide one. -/
theorem scan_returns_shown_insert :
    let calls := scanCalls 0 none none (.initial 1 .unlimited) 0 (twoTurns (setting "d".toBytes))
    FullScan calls ∧ ∃ c ∈ calls, "b".toBytes ∈ c.page := by
  have hfull : FullScan (scanCalls 0 none none (.initial 1 .unlimited) 0 (twoTurns (setting "d".toBytes))) := by
    refine ⟨?_, ?_⟩
    · decide
    · change _ = _
      rfl
  refine ⟨hfull, scan_returns_shown ⟨1, .unlimited, [], rfl⟩ hfull ?_ rfl ?_⟩
  · intro c hc
    refine ⟨⟨.string [], none⟩, ?_, rfl⟩
    revert c
    decide
  · refine .cons_cons ?_ (.singleton _)
    unfold StaysBehind
    decide

/-- A key that another client deletes in front of the cursor hides one. -/
theorem scan_skips :
    let calls := scanCalls 0 none none (.initial 1 .unlimited) 0
      (twoTurns (.op (.key 0 "a".toBytes .delete) (.at 0)))
    FullScan calls ∧ (∀ c ∈ calls, c.Shows 0 none "b".toBytes) ∧
      ¬ ∃ c ∈ calls, "b".toBytes ∈ c.page := by
  refine ⟨⟨?_, ?_⟩, ?_, ?_⟩
  · decide
  · change _ = _
    rfl
  · intro c hc
    refine ⟨⟨.string [], none⟩, ?_, rfl⟩
    revert c
    decide
  · decide

end Ferrous
