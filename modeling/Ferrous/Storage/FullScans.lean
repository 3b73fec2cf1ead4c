/-
# `Storage.FullScans` — a scan of a collection that stays as it is

SCAN, HSCAN, SSCAN and ZSCAN called again and again with the cursor each call
hands back, while the others do what they like, as long as every call finds the
collection it is about unchanged.  A call looks at the sorted elements from the
cursor on and goes forward by one at least, or returns a small collection whole;
so more calls than there are elements end the iteration, and its pages together
are the matching elements.  For a sorted set these are the nodes of its chain,
which are its members only as long as chain and index are in step.
-/
import Ferrous.Storage.Scan
import Ferrous.Storage.RdbRecords
import Ferrous.Storage.SkipAgreement
import Mathlib.Data.List.Dedup

namespace Ferrous

open Lib

/-! ## Iterations -/

/-- A call of an iteration: what it found, and its answer. -/
structure Visit (β : Type) where
  engine : Engine
  ctx : Ctx
  answer : Outcome (Nat × List β)

namespace Visit

variable {β : Type}

/-- The elements a call returns. -/
def page (v : Visit β) : List β :=
  match v.answer with
  | .ok (_, page) => page
  | _ => []

/-- The cursor a call returns, if it succeeds. -/
def next? (v : Visit β) : Option Nat :=
  match v.answer with
  | .ok (next, _) => some next
  | _ => none

end Visit

section Iterations

variable {β : Type} (call : Nat → Nat → Op (Nat × List β))

/-- The calls of an iteration, up to the one that returns 0 or fails. -/
def visits : CleanupState → Nat → List ScanTurn → List (Visit β)
  | _, _, [] => []
  | s, cursor, t :: ts =>
      let s₁ := t.others.foldl CleanupState.step s
      let v : Visit β := ⟨s₁.engine, t.ctx, ((call cursor t.count).run t.ctx s₁.engine).1⟩
      v :: match v.next? with
        | none => []
        | some next => if next = 0 then [] else visits (s₁.step (.op (call cursor t.count) t.ctx)) next ts

/-- The last call returned 0. -/
def Finished (vs : List (Visit β)) : Prop := ∃ v, vs.getLast? = some v ∧ v.next? = some 0

/-- All that the calls returned. -/
def returned (vs : List (Visit β)) : List β := vs.flatMap Visit.page

/-- A call hands out the elements of a stretch that are kept, or at cursor 0 all at
once in any order. -/
structure Pages {α : Type} (items : List α) (keep : α → Bool) (emit : α → List β) (cursor next : Nat)
    (page : List β) : Prop where
  stretch : (cursor = 0 ∧ next = 0 ∧ ∃ l : List α, l.Perm (items.filter keep) ∧ page = l.flatMap emit) ∨
    ∃ n, page = (((items.drop cursor).take n).filter keep).flatMap emit ∧
      next = (if items.length ≤ cursor + n then 0 else cursor + n) ∧ (cursor < items.length → 0 < n)

variable {call} {α : Type} {items : List α} {keep : α → Bool} {emit : α → List β}
  {Shown : Engine → Ctx → Prop}

theorem visits_cons_stop {s : CleanupState} {cursor : Nat} {t : ScanTurn} (ts : List ScanTurn) {page : List β}
    (h : ((call cursor t.count).run t.ctx (t.others.foldl CleanupState.step s).engine).1 = .ok (0, page)) :
    visits call s cursor (t :: ts) = [⟨(t.others.foldl CleanupState.step s).engine, t.ctx, .ok (0, page)⟩] := by
  rw [visits]
  rw [h]
  rfl

theorem visits_cons_next {s : CleanupState} {cursor next : Nat} {t : ScanTurn} (ts : List ScanTurn)
    {page : List β} (hnext : next ≠ 0)
    (h : ((call cursor t.count).run t.ctx (t.others.foldl CleanupState.step s).engine).1 = .ok (next, page)) :
    visits call s cursor (t :: ts) =
      ⟨(t.others.foldl CleanupState.step s).engine, t.ctx, .ok (next, page)⟩ ::
        visits call ((t.others.foldl CleanupState.step s).step (.op (call cursor t.count) t.ctx)) next ts := by
  rw [visits]
  rw [h]
  exact congrArg _ (if_neg hnext)

/-- From a position in the list the calls go through the rest of it. -/
theorem visits_rest
    (hcall : ∀ e ctx, Shown e ctx → ∀ cursor count, ∃ next page,
      ((call cursor count).run ctx e).1 = .ok (next, page) ∧ Pages items keep emit cursor next page)
    {turns : List ScanTurn} {s : CleanupState} {cursor : Nat} (hcursor : cursor = 0 ∨ cursor < items.length)
    (hshown : ∀ v ∈ visits call s cursor turns, Shown v.engine v.ctx)
    (hmany : items.length - cursor < turns.length) :
    Finished (visits call s cursor turns) ∧
      (returned (visits call s cursor turns) = ((items.drop cursor).filter keep).flatMap emit ∨
        cursor = 0 ∧ ∃ l : List α, l.Perm (items.filter keep) ∧ returned (visits call s cursor turns) = l.flatMap emit) := by
  induction turns generalizing s cursor with
  | nil => exact absurd hmany (Nat.not_lt_zero _)
  | cons t ts ih =>
      have hfirst : Shown (t.others.foldl CleanupState.step s).engine t.ctx := hshown _ List.mem_cons_self
      obtain ⟨next, page, hanswer, hpages⟩ := hcall _ _ hfirst cursor t.count
      by_cases hnext : next = 0
      · subst hnext
        rw [visits_cons_stop ts hanswer]
        refine ⟨⟨_, rfl, rfl⟩, ?_⟩
        have hpage : returned [(⟨(t.others.foldl CleanupState.step s).engine, t.ctx, .ok (0, page)⟩ : Visit β)] =
            page := List.append_nil _
        rw [hpage]
        rcases hpages.stretch with ⟨hzero, -, hwhole⟩ | ⟨n, hpage, hend, hpos⟩
        · exact .inr ⟨hzero, hwhole⟩
        · -- the stretch reaches the end of the list
          have hall : items.length ≤ cursor + n := by
            by_contra hmore
            rw [if_neg hmore] at hend
            omega
          refine .inl ?_
          rw [hpage, List.take_of_length_le]
          rw [List.length_drop]
          omega
      · rw [visits_cons_next ts hnext hanswer] at hshown ⊢
        rcases hpages.stretch with ⟨-, hzero, -⟩ | ⟨n, hpage, hend, hpos⟩
        · exact absurd hzero hnext
        · have hmore : ¬ items.length ≤ cursor + n := fun h => hnext (hend.trans (if_pos h))
          rw [if_neg hmore] at hend
          have hn : 0 < n := hpos (by omega)
          subst hend
          simp only [List.length_cons] at hmany
          have hrest := ih (.inr (by omega)) (fun v hv => hshown v (List.mem_cons_of_mem _ hv)) (by omega)
          obtain ⟨⟨v, hlast, hdone⟩, hreturned⟩ := hrest
          refine ⟨⟨v, ?_, hdone⟩, .inl ?_⟩
          · rw [List.getLast?_cons, hlast]
            rfl
          · have hrest := hreturned.resolve_right fun h => hnext h.1
            rw [returned, List.flatMap_cons, ← returned, hrest]
            change page ++ _ = _
            rw [hpage, ← List.flatMap_append, ← List.filter_append, ← List.drop_drop, List.take_append_drop]

/-- More calls than there are elements end an iteration, and it returns what is
kept of them. -/
theorem visits_exact
    (hcall : ∀ e ctx, Shown e ctx → ∀ cursor count, ∃ next page,
      ((call cursor count).run ctx e).1 = .ok (next, page) ∧ Pages items keep emit cursor next page)
    {turns : List ScanTurn} {s : CleanupState} (hshown : ∀ v ∈ visits call s 0 turns, Shown v.engine v.ctx)
    (hmany : items.length < turns.length) :
    Finished (visits call s 0 turns) ∧
      ∃ l : List α, l.Perm (items.filter keep) ∧ returned (visits call s 0 turns) = l.flatMap emit := by
  obtain ⟨hdone, hreturned | ⟨-, hwhole⟩⟩ := visits_rest hcall (.inl rfl) hshown (by omega)
  · exact ⟨hdone, _, .refl _, hreturned⟩
  · exact ⟨hdone, hwhole⟩

end Iterations

/-! ## The four scans -/

/-- What is scanned, and as what it is found: the live keys of a type, or the value
under a key. -/
inductive ScanTarget
  | keyspace (typeFilter : Option String) (names : List Key)
  | hash (key : Key) (noValues : Bool) (h : Map Bytes Bytes)
  | set (key : Key) (s : FSet Bytes)
  | zset (key : Key) (z : SkipList) (nonempty : z.len ≠ 0)

namespace ScanTarget

/-- What a call returns a list of. -/
abbrev Element : ScanTarget → Type
  | keyspace .. => Key
  | hash .. => Bytes
  | set .. => Bytes
  | zset .. => Bytes × Float64

/-- The call with a cursor and a COUNT. -/
def call (db : Nat) (pattern : Option Bytes) :
    (target : ScanTarget) → Nat → Nat → Op (Nat × List target.Element)
  | keyspace typeFilter _, cursor, count => .store (.scan db cursor pattern typeFilter count)
  | hash key noValues _, cursor, count => .key db key (.hscan cursor pattern count noValues)
  | set key _, cursor, count => .key db key (.sscan cursor pattern count)
  | zset key _ _, cursor, count => .key db key (.zscan cursor pattern count)

/-- A value is found under the key, and its deadline has not passed. -/
def Holds (db : Nat) (key : Key) (value : Value) (e : Engine) (ctx : Ctx) : Prop :=
  (e.liveAt ctx.now db key).map (·.value) = some value

/-- The database is there, and its live keys of the type asked for are these. -/
def Lists (db : Nat) (typeFilter : Option String) (names : List Key) (e : Engine) (ctx : Ctx) : Prop :=
  db < e.databases.length ∧ ∀ key, key ∈ names ↔ ∃ sv, e.liveAt ctx.now db key = some sv ∧
    (typeFilter.map (· == sv.value.valueType.name)).getD true = true

/-- The collection is found as it was. -/
def Unchanged (db : Nat) : ScanTarget → Engine → Ctx → Prop
  | keyspace typeFilter names => Lists db typeFilter names
  | hash key _ h => Holds db key (.hash h)
  | set key s => Holds db key (.set s)
  | zset key z _ => Holds db key (.sortedSet z)

/-- The number of elements. -/
def size : ScanTarget → Nat
  | keyspace _ names => names.length
  | hash _ _ h => h.size
  | set _ s => s.size
  | zset _ z _ => z.len

/-- What is kept with a name. -/
abbrev Payload : ScanTarget → Type
  | keyspace .. => Unit
  | hash .. => Bytes
  | set .. => Unit
  | zset .. => Float64

/-- The elements; those of a sorted set are the nodes of its chain. -/
def entries : (target : ScanTarget) → List (Bytes × target.Payload)
  | keyspace _ names => names.dedup.map fun key => (key, ())
  | hash _ _ h => h.toPairs
  | set _ s => s.toPairs
  | zset _ z _ => z.items

/-- How an element is returned. -/
def emit : (target : ScanTarget) → Bytes × target.Payload → List target.Element
  | keyspace .., p => [p.1]
  | hash _ noValues _, p => if noValues then [p.1] else [p.1, p.2]
  | set .., p => [p.1]
  | zset .., p => [p]

/-- Every matching element, with its value or its score, is there once, and nothing
else is. -/
def Exact (pattern : Option Bytes) : (target : ScanTarget) → List target.Element → Prop
  | keyspace _ names, out => out.Nodup ∧ ∀ key, key ∈ out ↔ key ∈ names ∧ keeps pattern key = true
  | hash _ noValues h, out => ∃ l : List (Bytes × Bytes), (l.map Prod.fst).Nodup ∧
      (∀ field value, (field, value) ∈ l ↔ h.get? field = some value ∧ keeps pattern field = true) ∧
      out = l.flatMap fun p => if noValues then [p.1] else [p.1, p.2]
  | set _ s, out => out.Nodup ∧ ∀ m, m ∈ out ↔ s.contains m = true ∧ keeps pattern m = true
  | zset _ z _, out => (out.map Prod.fst).Nodup ∧
      ∀ m score, (m, score) ∈ out ↔ z.getScore m = some score ∧ keeps pattern m = true

/-- For a sorted set: the chain has one node for each matching member, with its
score, and no other node that matches. -/
def InStep (pattern : Option Bytes) : ScanTarget → Prop
  | zset _ z _ => ((z.items.filter fun p => keeps pattern p.1).map Prod.fst).Nodup ∧
      ∀ m, keeps pattern m = true → ∀ score, (m, score) ∈ z.items ↔ z.getScore m = some score
  | _ => True

end ScanTarget

/-- Without a pattern everything is kept. -/
theorem filter_none {V : Type} (l : List (Bytes × V)) : (l.filter fun p => keeps none p.1) = l :=
  List.filter_eq_self.mpr fun _ _ => rfl

namespace SkipList

/-- Chain and index that agree are in step for every pattern. -/
theorem inStep_of_agrees {z : SkipList} (h : z.1.Agrees) (pattern : Option Bytes) (key : Key)
    (hz : z.len ≠ 0) : (ScanTarget.zset key z hz).InStep pattern := by
  have hitems (m : Bytes) (score : Float64) : (m, score) ∈ z.items ↔ ∃ n ∈ z.1.chain, n.key = m ∧ n.value = score := by
    change (m, score) ∈ z.1.chain.map (fun n => (n.key, n.value)) ↔ _
    rw [List.mem_map]
    simp only [Prod.mk.injEq]
  refine ⟨?_, fun m _ score => (hitems m score).trans (h.indexed m score).symm⟩
  have hnodup : (z.items.map Prod.fst).Nodup := by
    change ((z.1.chain.map fun n => (n.key, n.value)).map Prod.fst).Nodup
    rw [List.map_map]
    exact h.nodup
  exact hnodup.sublist (List.filter_sublist.map _)

/-- Without a pattern nothing else is in step. -/
theorem agrees_of_inStep {z : SkipList} {key : Key} {hz : z.len ≠ 0}
    (h : (ScanTarget.zset key z hz).InStep none) : z.1.Agrees := by
  obtain ⟨hnodup, hindexed⟩ := h
  rw [filter_none] at hnodup
  have hmembers : z.items.map Prod.fst = z.1.chain.map (·.key) := by
    change (z.1.chain.map fun n => (n.key, n.value)).map Prod.fst = _
    rw [List.map_map]
    rfl
  refine .of_nodes z.2 (hmembers ▸ hnodup) fun m score => ?_
  refine (hindexed m rfl score).symm.trans ?_
  change (m, score) ∈ z.1.chain.map (fun n => (n.key, n.value)) ↔ _
  rw [List.mem_map]
  simp only [Prod.mk.injEq]

end SkipList

/-! ## What a call answers -/

section Calls

variable {α : Type}

/-- A page of the loop is a stretch. -/
theorem pages_scanPage {V β : Type} (keep : Bytes × V → Bool) (emit : Bytes × V → List β)
    (items : List (Bytes × V)) (cursor count : Nat) :
    Pages items keep emit cursor (scanPage keep items cursor count).1
      ((scanPage keep items cursor count).2.flatMap emit) := by
  obtain ⟨n, hpage, hnext, hpos⟩ := scanPage_spec keep items cursor count
  exact ⟨.inr ⟨n, by rw [hpage], hnext, hpos⟩⟩

/-- An operation that starts with `get` answers from the value it finds. -/
theorem run_viaGet {c : KeyCmd α} {f : Option Value → Outcome α} {e : Engine} {ctx : Ctx} {db : Nat} {key : Key}
    {value : Value} (hc : c.step key ctx = KeyOps.viaGet f ctx)
    (h : ScanTarget.Holds db key value e ctx) : ((Op.key db key c).run ctx e).1 = f (some value) := by
  obtain ⟨sv, hsv, rfl⟩ := Option.map_eq_some_iff.mp h
  obtain ⟨hentry, hfresh⟩ := Option.filter_eq_some_iff.mp hsv
  have hstep : c.step key ctx (some sv) = { result := f (some sv.value) } := by
    rw [hc, KeyOps.viaGet]
    exact if_neg (by simpa using hfresh)
  change (e.withEntry db key ctx (c.step key)).1 = _
  rw [Engine.withEntry_fst (Engine.lt_of_entryAt hentry), hentry, hstep]
  rfl

/-- In a database with these live keys SCAN pages through them in order. -/
theorem scan_pages {e : Engine} {ctx : Ctx} {db : Nat} {typeFilter : Option String} {names sorted : List Key}
    (he : e.Routed) (h : ScanTarget.Lists db typeFilter names e ctx) (hsorted : Ascending sorted)
    (hnodup : sorted.Nodup) (hmem : ∀ key, key ∈ sorted ↔ key ∈ names) (pattern : Option Bytes)
    (cursor count : Nat) :
    ∃ next page, ((Op.store (.scan db cursor pattern typeFilter count)).run ctx e).1 = .ok (next, page) ∧
      Pages sorted (keeps pattern) (fun key => [key]) cursor next page := by
  obtain ⟨hdb, hlive⟩ := h
  have hd : e.databases[db]? = some e.databases[db] := List.getElem?_eq_getElem hdb
  have hc := @ScanCall.mem_names db typeFilter (.made db pattern typeFilter e ctx cursor count) he
  have hnames : (ScanCall.made db pattern typeFilter e ctx cursor count).names db typeFilter =
      (sortByKey (Engine.scanned e.databases[db] ctx.now typeFilter)).map Prod.fst := by
    unfold ScanCall.names
    dsimp only [ScanCall.made]
    rw [hd]
  have hsame : (sortByKey (Engine.scanned e.databases[db] ctx.now typeFilter)).map Prod.fst = sorted := by
    rw [← hnames]
    refine List.Perm.eq_of_pairwise ?_ (ScanCall.ascending_names _) hsorted ?_
    · intro a b _ _ hab hba
      have hswap : compare b a = (compare a b).swap := Std.OrientedOrd.eq_swap
      rw [hswap] at hba
      apply Std.LawfulEqOrd.eq_of_compare
      cases hcmp : compare a b with
      | lt => rw [hcmp] at hba; exact absurd rfl hba
      | eq => rfl
      | gt => exact absurd hcmp hab
    · refine (List.perm_ext_iff_of_nodup (ScanCall.nodup_names he) hnodup).mpr fun key => ?_
      rw [hc, hmem, hlive key]
      rfl
  obtain ⟨n, hpage, hnext, hpos⟩ := scanPage_spec (fun p : Key × StoredValue => keeps pattern p.1)
    (sortByKey (Engine.scanned e.databases[db] ctx.now typeFilter)) cursor count
  have hanswer : ((Op.store (.scan db cursor pattern typeFilter count)).run ctx e).1 =
      let r := scanPage (fun p => keeps pattern p.1) (sortByKey (Engine.scanned e.databases[db] ctx.now typeFilter))
        cursor count
      .ok (r.1, r.2.map Prod.fst) := by
    change (e.reading db _).1 = _
    rw [Engine.reading, hd]
  refine ⟨_, _, hanswer, ⟨.inr ⟨n, ?_, ?_, ?_⟩⟩⟩
  · rw [← hsame, ← List.map_drop, ← List.map_take, List.filter_map, List.flatMap_singleton']
    exact congrArg (List.map Prod.fst) hpage
  · rw [← hsame, List.length_map]
    exact hnext
  · rw [← hsame, List.length_map]
    exact hpos

theorem hscan_pages {e : Engine} {ctx : Ctx} {db : Nat} {key : Key} {h : Map Bytes Bytes}
    (hh : ScanTarget.Holds db key (.hash h) e ctx) (pattern : Option Bytes) (noValues : Bool)
    (cursor count : Nat) :
    ∃ next page, ((Op.key db key (.hscan cursor pattern count noValues)).run ctx e).1 = .ok (next, page) ∧
      Pages (sortByKey h.toPairs) (fun p => keeps pattern p.1)
        (fun p => if noValues then [p.1] else [p.1, p.2]) cursor next page := by
  have hstep : (KeyCmd.hscan cursor pattern count noValues).step key = KeyOps.hscan cursor pattern count noValues := rfl
  rw [run_viaGet (congrFun (hstep.trans (by unfold KeyOps.hscan; rfl)) ctx) hh]
  by_cases hwhole : h.size ≤ scanLimit count ∧ cursor = 0 ∧ pattern = none
  · refine ⟨0, _, if_pos hwhole, ⟨.inl ⟨hwhole.2.1, rfl, h.toPairs, ?_, rfl⟩⟩⟩
    obtain ⟨-, -, rfl⟩ := hwhole
    rw [filter_none]
    exact (perm_sortByKey _).symm
  · exact ⟨_, _, if_neg hwhole, pages_scanPage _ _ _ _ _⟩

theorem sscan_pages {e : Engine} {ctx : Ctx} {db : Nat} {key : Key} {st : FSet Bytes}
    (hst : ScanTarget.Holds db key (.set st) e ctx) (pattern : Option Bytes) (cursor count : Nat) :
    ∃ next page, ((Op.key db key (.sscan cursor pattern count)).run ctx e).1 = .ok (next, page) ∧
      Pages (sortByKey st.toPairs) (fun p => keeps pattern p.1) (fun p => [p.1]) cursor next page := by
  have hspread (l : List (Bytes × Unit)) : l.flatMap (fun p => [p.1]) = l.map Prod.fst :=
    List.map_eq_flatMap.symm
  have hstep : (KeyCmd.sscan cursor pattern count).step key = KeyOps.sscan cursor pattern count := rfl
  rw [run_viaGet (congrFun (hstep.trans (by unfold KeyOps.sscan; rfl)) ctx) hst]
  by_cases hwhole : st.size ≤ scanLimit count ∧ cursor = 0 ∧ pattern = none
  · refine ⟨0, _, if_pos hwhole, ⟨.inl ⟨hwhole.2.1, rfl, st.toPairs, ?_, (hspread _).symm⟩⟩⟩
    obtain ⟨-, -, rfl⟩ := hwhole
    rw [filter_none]
    exact (perm_sortByKey _).symm
  · refine ⟨_, _, if_neg hwhole, ?_⟩
    rw [← hspread]
    exact pages_scanPage _ _ _ _ _

theorem zscan_pages {e : Engine} {ctx : Ctx} {db : Nat} {key : Key} {z : SkipList} (hz : z.len ≠ 0)
    (hheld : ScanTarget.Holds db key (.sortedSet z) e ctx) (pattern : Option Bytes) (cursor count : Nat) :
    ∃ next page, ((Op.key db key (.zscan cursor pattern count)).run ctx e).1 = .ok (next, page) ∧
      Pages (sortByKey z.items) (fun p => keeps pattern p.1) (fun p => [p]) cursor next page := by
  have hstep : (KeyCmd.zscan cursor pattern count).step key = KeyOps.zscan cursor pattern count := rfl
  rw [run_viaGet ((congrFun hstep ctx).trans (by unfold KeyOps.zscan; rfl)) hheld]
  dsimp only
  rw [if_neg fun h => hz h.1, if_neg hz, SkipList.rangeByRank_all]
  by_cases hwhole : (sortByKey z.items).length ≤ scanLimit count ∧ cursor = 0 ∧ pattern = none
  · refine ⟨0, _, if_pos hwhole, ⟨.inl ⟨hwhole.2.1, rfl, sortByKey z.items, ?_, (List.flatMap_singleton' _).symm⟩⟩⟩
    obtain ⟨-, -, rfl⟩ := hwhole
    rw [filter_none]
  · refine ⟨_, _, if_neg hwhole, ?_⟩
    have hpages := pages_scanPage (fun p : Bytes × Float64 => keeps pattern p.1) (fun p => [p])
      (sortByKey z.items) cursor count
    rwa [List.flatMap_singleton'] at hpages

end Calls

/-! ## The whole scan -/

/-- The calls of an iteration are made on stores the steps lead to. -/
theorem routed_of_mem_visits {β : Type} {call : Nat → Nat → Op (Nat × List β)} {turns : List ScanTurn}
    {s : CleanupState} (hs : s.engine.Routed) {cursor : Nat} {v : Visit β}
    (hv : v ∈ visits call s cursor turns) : v.engine.Routed := by
  induction turns generalizing s cursor with
  | nil => cases hv
  | cons t ts ih =>
      have hmid := CleanupState.foldl_routed hs t.others
      rw [visits] at hv
      rcases List.mem_cons.mp hv with rfl | hv
      · exact hmid
      · split at hv
        · cases hv
        · split at hv
          · cases hv
          · exact ih (CleanupState.step_routed hmid _) hv

theorem length_sortByKey {V : Type} (l : List (Bytes × V)) : (sortByKey l).length = l.length :=
  (perm_sortByKey l).length_eq

namespace ScanTarget

theorem length_entries_le (target : ScanTarget) : target.entries.length ≤ target.size := by
  cases target with
  | keyspace typeFilter names =>
      change (names.dedup.map _).length ≤ names.length
      rw [List.length_map]
      exact (List.dedup_sublist names).length_le
  | hash key noValues h => exact Nat.le_refl _
  | set key st => exact Nat.le_refl _
  | zset key z hz => exact z.length_items.le

/-- As long as the calls find the collection unchanged, more of them than it has
elements reach the cursor 0, and return the elements that match. -/
theorem visits_kept {s : CleanupState} (hs : s.engine.Routed) (db : Nat) (pattern : Option Bytes)
    (target : ScanTarget) {turns : List ScanTurn}
    (hunchanged : ∀ v ∈ visits (target.call db pattern) s 0 turns, target.Unchanged db v.engine v.ctx)
    (hmany : target.size < turns.length) :
    Finished (visits (target.call db pattern) s 0 turns) ∧
      ∃ l : List (Bytes × target.Payload), l.Perm (target.entries.filter fun p => keeps pattern p.1) ∧
        returned (visits (target.call db pattern) s 0 turns) = l.flatMap target.emit := by
  have hlen := Nat.lt_of_le_of_lt target.length_entries_le hmany
  cases target with
  | keyspace typeFilter names =>
      have hshown : ∀ v ∈ visits (call db pattern (.keyspace typeFilter names)) s 0 turns,
          v.engine.Routed ∧ Lists db typeFilter names v.engine v.ctx := fun v hv =>
        ⟨routed_of_mem_visits hs hv, hunchanged v hv⟩
      -- the keys in order, whatever order they are given in
      have hperm := perm_sortByKey (names.dedup.map fun key => (key, ()))
      have hnames : (names.dedup.map fun key => (key, ())).map Prod.fst = names.dedup := by
        rw [List.map_map]
        exact List.map_id _
      have hkeys := hperm.map Prod.fst
      rw [hnames] at hkeys
      obtain ⟨hdone, l, hl, hreturned⟩ := visits_exact
        (fun e (ctx : Ctx) (h : e.Routed ∧ Lists db typeFilter names e ctx) cursor count => scan_pages h.1 h.2 (ascending_sortByKey _)
          (hkeys.nodup_iff.mpr names.nodup_dedup) (fun _ => hkeys.mem_iff.trans List.mem_dedup)
          pattern cursor count)
        hshown (hkeys.length_eq.trans_lt ((List.length_map _).symm.trans_lt hlen))
      refine ⟨hdone, l.map fun key => (key, ()), ?_, ?_⟩
      · have hpairs := (hl.trans (hkeys.filter _)).map fun key => (key, ())
        change (l.map fun key => (key, ())).Perm ((names.dedup.map fun key => (key, ())).filter _)
        rw [List.filter_map]
        exact hpairs
      · rw [List.flatMap_map]
        exact hreturned
  | hash key noValues h =>
      obtain ⟨hdone, l, hl, hreturned⟩ := visits_exact
        (fun e ctx hh cursor count => hscan_pages hh pattern noValues cursor count) hunchanged
        ((length_sortByKey _).trans_lt hlen)
      exact ⟨hdone, l, hl.trans ((perm_sortByKey _).filter _), hreturned⟩
  | set key st =>
      obtain ⟨hdone, l, hl, hreturned⟩ := visits_exact
        (fun e ctx hst cursor count => sscan_pages hst pattern cursor count) hunchanged
        ((length_sortByKey _).trans_lt hlen)
      exact ⟨hdone, l, hl.trans ((perm_sortByKey _).filter _), hreturned⟩
  | zset key z hz =>
      obtain ⟨hdone, l, hl, hreturned⟩ := visits_exact
        (fun e ctx hheld cursor count => zscan_pages hz hheld pattern cursor count) hunchanged
        ((length_sortByKey _).trans_lt hlen)
      exact ⟨hdone, l, hl.trans ((perm_sortByKey _).filter _), hreturned⟩

end ScanTarget

/-- What is kept of a map: no name twice, and the pairs that match. -/
theorem kept_of_map {V : Type} {m : Map Bytes V} {l : List (Bytes × V)} {pattern : Option Bytes}
    (h : l.Perm (m.toPairs.filter fun p => keeps pattern p.1)) :
    (l.map Prod.fst).Nodup ∧
      ∀ name v, (name, v) ∈ l ↔ m.get? name = some v ∧ keeps pattern name = true := by
  refine ⟨?_, fun name v => ?_⟩
  · rw [(h.map Prod.fst).nodup_iff]
    exact m.nodup_keyList.sublist (List.filter_sublist.map _)
  · rw [h.mem_iff, List.mem_filter, Map.mem_toPairs]

/-- What is kept of the live keys is each matching one, once. -/
theorem ScanTarget.exact_keyspace {typeFilter : Option String} {names : List Key} {pattern : Option Bytes}
    {l : List (Bytes × Unit)}
    (hl : l.Perm ((entries (.keyspace typeFilter names)).filter fun p => keeps pattern p.1)) :
    (ScanTarget.keyspace typeFilter names).Exact pattern
      (l.flatMap (ScanTarget.emit (.keyspace typeFilter names))) := by
  have hmap : l.flatMap (ScanTarget.emit (.keyspace typeFilter names)) = l.map Prod.fst :=
    List.map_eq_flatMap.symm
  have hkeys : (l.map Prod.fst).Perm (names.dedup.filter (keeps pattern)) := by
    have hnames := hl.map Prod.fst
    change (l.map Prod.fst).Perm (((names.dedup.map fun key => (key, ())).filter _).map Prod.fst) at hnames
    rw [List.filter_map, List.map_map] at hnames
    exact hnames.trans (.of_eq (List.map_id _))
  rw [hmap]
  refine ⟨hkeys.nodup_iff.mpr (names.nodup_dedup.sublist List.filter_sublist), fun key => ?_⟩
  rw [hkeys.mem_iff, List.mem_filter, List.mem_dedup]

/-- As long as the calls find the collection unchanged, more of them than it has
elements reach the cursor 0, whatever their COUNTs and the pattern; what they returned
is exact for keyspaces, hashes and sets, and for a sorted set exactly if its chain is
in step with its index. -/
theorem full_scan_exact_iff {s : CleanupState} (hs : s.engine.Reachable) (db : Nat) (pattern : Option Bytes)
    (target : ScanTarget) {turns : List ScanTurn}
    (hunchanged : ∀ v ∈ visits (target.call db pattern) s 0 turns, target.Unchanged db v.engine v.ctx)
    (hmany : target.size < turns.length) :
    Finished (visits (target.call db pattern) s 0 turns) ∧
      (target.Exact pattern (returned (visits (target.call db pattern) s 0 turns)) ↔ target.InStep pattern) := by
  obtain ⟨hdone, l, hl, hreturned⟩ := target.visits_kept hs.routed db pattern hunchanged hmany
  refine ⟨hdone, ?_⟩
  rw [hreturned]
  cases target with
  | keyspace typeFilter names => exact iff_of_true (ScanTarget.exact_keyspace hl) trivial
  | hash key noValues h =>
      obtain ⟨hnodup, hmem⟩ := kept_of_map hl
      exact iff_of_true ⟨l, hnodup, hmem, rfl⟩ trivial
  | set key st =>
      have hmap : l.flatMap (ScanTarget.emit (.set key st)) = l.map Prod.fst := List.map_eq_flatMap.symm
      obtain ⟨hnodup, hmem⟩ := kept_of_map hl
      refine iff_of_true ?_ trivial
      rw [hmap]
      refine ⟨hnodup, fun m => ?_⟩
      rw [List.mem_map, Map.contains_iff]
      constructor
      · rintro ⟨⟨m, u⟩, hp, rfl⟩
        obtain ⟨hin, hkeep⟩ := (hmem m u).mp hp
        exact ⟨⟨u, hin⟩, hkeep⟩
      · rintro ⟨⟨u, hu⟩, hkeep⟩
        exact ⟨(m, u), (hmem m u).mpr ⟨hu, hkeep⟩, rfl⟩
  | zset key z hz =>
      have hl : l.Perm (z.items.filter fun p => keeps pattern p.1) := hl
      have hself : l.flatMap (ScanTarget.emit (.zset key z hz)) = l := List.flatMap_singleton' l
      have hmem (m : Bytes) (score : Float64) : (m, score) ∈ l ↔ (m, score) ∈ z.items ∧ keeps pattern m = true := by
        rw [hl.mem_iff, List.mem_filter]
      rw [hself]
      refine and_congr (hl.map Prod.fst).nodup_iff ?_
      simp only [hmem]
      constructor
      · intro h m hm score
        exact ⟨fun hin => ((h m score).mp ⟨hin, hm⟩).1, fun hscore => ((h m score).mpr ⟨hscore, hm⟩).1⟩
      · intro h m score
        exact and_congr_left fun hm => h m hm score

/-- Two calls with COUNT 1 for the two members of a set. -/
def twoCalls : List ScanTurn :=
  [⟨[.op (.key 0 "s".toBytes (.sadd ["a".toBytes, "b".toBytes])) (.at 0)], .at 0, 1⟩, ⟨[], .at 0, 1⟩, ⟨[], .at 0, 0⟩]

theorem full_scan_exact_twoCalls :
    let target := ScanTarget.set "s".toBytes ((∅ : FSet Bytes).add "a".toBytes |>.add "b".toBytes)
    let vs := visits (target.call 0 (some "*".toBytes)) (.initial 1 .unlimited) 0 twoCalls
    Finished vs ∧ target.Exact (some "*".toBytes) (returned vs) := by
  intro target vs
  have hunchanged : ∀ v ∈ vs, target.Unchanged 0 v.engine v.ctx := by
    change ∀ v ∈ vs, (v.engine.liveAt v.ctx.now 0 "s".toBytes).map (·.value) =
      some (.set ((∅ : FSet Bytes).add "a".toBytes |>.add "b".toBytes))
    decide
  obtain ⟨hdone, hexact⟩ := full_scan_exact_iff ⟨1, .unlimited, [], rfl⟩ 0 (some "*".toBytes) target hunchanged
    (by decide)
  exact ⟨hdone, hexact.mpr trivial⟩

/-- A member whose score was a NaN is returned twice once it has been added again. -/
theorem zscan_repeats :
    let turns : List ScanTurn :=
      [⟨[.op (.key 0 "z".toBytes (.zadd "a".toBytes .nan)) (.at 0),
          .op (.key 0 "z".toBytes (.zadd "a".toBytes (.infinity false))) (.at 0)], .at 0, 10⟩,
        ⟨[], .at 0, 10⟩, ⟨[], .at 0, 10⟩]
    ∃ (z : SkipList) (hz : z.len ≠ 0), z.len < turns.length ∧
      let target := ScanTarget.zset "z".toBytes z hz
      let vs := visits (target.call 0 none) (.initial 1 .unlimited) 0 turns
      (∀ v ∈ vs, target.Unchanged 0 v.engine v.ctx) ∧ ¬ target.Exact none (returned vs) := by
  intro turns
  refine ⟨((SkipList.new.insert "a".toBytes .nan 0).2.insert "a".toBytes (.infinity false) 0).2, ?_, ?_, ?_, ?_⟩
  · decide
  · decide
  · change ∀ v ∈ visits _ _ _ _, (v.engine.liveAt v.ctx.now 0 "z".toBytes).map (·.value) = some (Value.sortedSet _)
    decide
  · rintro ⟨hnodup, -⟩
    revert hnodup
    decide

end Ferrous
