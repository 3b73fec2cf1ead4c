/-
# `Storage.ExactFilters` — patterns that are names

KEYS and the MATCH filters of the SCAN family compare texts: pattern and name are
decoded first, and bytes that are no UTF-8 become U+FFFD.  A pattern without special
characters so stands for every name with its text, and picks out its own bytes only
where no other stored name has that text.
-/
import Ferrous.Storage.FullScans
import Ferrous.Storage.GlobLanguage

namespace Ferrous

open Lib

/-- None of the bytes `* ? [ ] ^ - \` is in the pattern. -/
def Literal (pattern : Bytes) : Prop := ∀ b ∈ pattern, b ∉ ([42, 63, 91, 93, 94, 45, 92] : Bytes)

/-- A literal pattern matches what has its text. -/
theorem matchesBytes_literal {pattern : Bytes} (h : Literal pattern) (name : Bytes) :
    Glob.matchesBytes pattern name = true ↔ fromUtf8Lossy name = fromUtf8Lossy pattern := by
  have hplain : ∀ c ∈ (fromUtf8Lossy pattern).toList, c ∉ ['*', '?', '[', '\\'] := by
    intro c hc hmem
    simp only [List.mem_cons, List.not_mem_nil, or_false] at hmem
    rcases hmem with rfl | rfl | rfl | rfl <;>
      exact h _ (mem_of_mem_fromUtf8Lossy hc (by decide) (by decide)) (by decide)
  rw [Glob.matchesBytes, (Glob.patternMatches_decides _ _).2, Glob.denotes_literal hplain, String.toList_inj]

/-- No other name has the text of the pattern. -/
def Unrivalled (pattern : Bytes) (names : List Bytes) : Prop :=
  ∀ name ∈ names, fromUtf8Lossy name = fromUtf8Lossy pattern → name = pattern

/-- The filter keeps the pattern alone exactly if no other name has its text. -/
theorem filter_literal_iff {pattern : Bytes} (h : Literal pattern) {V : Type} (l : List (Bytes × V)) :
    (l.filter fun p => keeps (some pattern) p.1).length = (l.filter fun p => p.1 = pattern).length ↔
      Unrivalled pattern (l.map Prod.fst) := by
  have hsub : (l.filter fun p => p.1 = pattern) =
      (l.filter fun p => keeps (some pattern) p.1).filter fun p => p.1 = pattern := by
    rw [List.filter_filter]
    refine List.filter_congr fun p _ => ?_
    by_cases hp : p.1 = pattern
    · have hkeep : keeps (some pattern) p.1 = true := (matchesBytes_literal h _).mpr (by rw [hp])
      rw [hkeep, Bool.and_true]
    · rw [decide_eq_false hp, Bool.false_and]
  rw [hsub, eq_comm, List.length_filter_eq_length_iff]
  constructor
  · intro hall name hname htext
    obtain ⟨p, hp, rfl⟩ := List.mem_map.mp hname
    exact of_decide_eq_true (hall p (List.mem_filter.mpr ⟨hp, (matchesBytes_literal h _).mpr htext⟩))
  · intro hnames p hp
    obtain ⟨hin, hkeep⟩ := List.mem_filter.mp hp
    exact decide_eq_true (hnames _ (List.mem_map_of_mem hin) ((matchesBytes_literal h _).mp hkeep))

/-- Then it keeps just the pattern. -/
theorem filter_literal {pattern : Bytes} (h : Literal pattern) {V : Type} {l : List (Bytes × V)}
    (hnames : Unrivalled pattern (l.map Prod.fst)) :
    (l.filter fun p => keeps (some pattern) p.1) = l.filter fun p => p.1 = pattern := by
  refine List.filter_congr fun p hp => Bool.eq_iff_iff.mpr ?_
  rw [decide_eq_true_iff]
  refine (matchesBytes_literal h _).trans ⟨hnames _ (List.mem_map_of_mem hp), fun heq => by rw [heq]⟩

namespace ScanTarget

/-- The elements whose name is the pattern are returned, and nothing else is. -/
def Only (pattern : Bytes) (target : ScanTarget) (out : List target.Element) : Prop :=
  ∃ l : List (Bytes × target.Payload),
    l.Perm (target.entries.filter fun p => p.1 = pattern) ∧ out = l.flatMap target.emit

/-- Every element is returned as so many. -/
theorem length_emit (target : ScanTarget) : ∃ n, 0 < n ∧ ∀ p, (target.emit p).length = n := by
  cases target with
  | hash key noValues h =>
      cases noValues with
      | true => exact ⟨1, Nat.one_pos, fun _ => rfl⟩
      | false => exact ⟨2, Nat.two_pos, fun _ => rfl⟩
  | _ => exact ⟨1, Nat.one_pos, fun _ => rfl⟩

theorem length_flatMap_emit {target : ScanTarget} {n : Nat} (h : ∀ p, (target.emit p).length = n)
    (l : List (Bytes × target.Payload)) : (l.flatMap target.emit).length = l.length * n := by
  rw [List.length_flatMap, List.map_congr_left fun p _ => h p, List.map_const', List.sum_replicate_nat]

/-- What a scan with a literal pattern returns is the element of that name exactly if
no other element's name has its text. -/
theorem only_iff {pattern : Bytes} (h : Literal pattern) {target : ScanTarget}
    {l : List (Bytes × target.Payload)}
    (hl : l.Perm (target.entries.filter fun p => keeps (some pattern) p.1)) :
    target.Only pattern (l.flatMap target.emit) ↔ Unrivalled pattern (target.entries.map Prod.fst) := by
  constructor
  · rintro ⟨l', hl', heq⟩
    obtain ⟨n, hn, hemit⟩ := target.length_emit
    have hlen := congrArg List.length heq
    rw [length_flatMap_emit hemit, length_flatMap_emit hemit] at hlen
    have hsame := Nat.eq_of_mul_eq_mul_right hn hlen
    rw [hl.length_eq, hl'.length_eq] at hsame
    exact (filter_literal_iff h _).mp hsame
  · intro hnames
    exact ⟨l, filter_literal h hnames ▸ hl, rfl⟩

end ScanTarget

/-- The names stored in a database, deadlines or not. -/
def Engine.Stores (e : Engine) (db : Nat) (key : Key) : Prop := ∃ sv, e.entryAt db key = some sv

theorem Engine.mem_keys_entriesOf {e : Engine} (h : e.Routed) {db : Nat} {d : Database}
    (hd : e.databases[db]? = some d) {key : Key} :
    key ∈ (Engine.entriesOf d).map Prod.fst ↔ e.Stores db key := by
  rw [List.mem_map]
  constructor
  · rintro ⟨⟨key, sv⟩, hin, rfl⟩
    exact ⟨sv, (Engine.mem_entriesOf h hd).mp hin⟩
  · rintro ⟨sv, hsv⟩
    exact ⟨(key, sv), (Engine.mem_entriesOf h hd).mpr hsv, rfl⟩

/-- With a pattern without special characters, KEYS and a scan of an unchanged
collection return what is named by the very bytes of the pattern, exactly if no other
name stored there has the pattern's text. -/
theorem literal_filters_exact_iff {pattern : Bytes} (h : Literal pattern) {s : CleanupState}
    (hs : s.engine.Reachable) (db : Nat) (ctx : Ctx) :
    (db < s.engine.databases.length →
      ∃ keys, ((Op.store (.keys db pattern)).run ctx s.engine).1 = .ok keys ∧ keys.Nodup ∧
        ((∀ key, key ∈ keys ↔ s.engine.Stores db key ∧ key = pattern) ↔
          ∀ key, s.engine.Stores db key → fromUtf8Lossy key = fromUtf8Lossy pattern → key = pattern)) ∧
      ∀ (target : ScanTarget) (turns : List ScanTurn),
        (∀ v ∈ visits (target.call db (some pattern)) s 0 turns, target.Unchanged db v.engine v.ctx) →
        target.size < turns.length →
        (target.Only pattern (returned (visits (target.call db (some pattern)) s 0 turns)) ↔
          Unrivalled pattern (target.entries.map Prod.fst)) := by
  refine ⟨fun hdb => ?_, fun target turns hunchanged hmany => ?_⟩
  · have hd : s.engine.databases[db]? = some s.engine.databases[db] := List.getElem?_eq_getElem hdb
    have hstores (key : Key) := @Engine.mem_keys_entriesOf _ hs.routed db _ hd key
    refine ⟨((Engine.entriesOf s.engine.databases[db]).map Prod.fst).filter (Glob.matchesBytes pattern), ?_,
      (Engine.nodup_keys_entriesOf hs.routed hd).sublist List.filter_sublist, ?_⟩
    · change (s.engine.reading db _).1 = _
      rw [Engine.reading, hd]
    · simp only [List.mem_filter, hstores, matchesBytes_literal h]
      constructor
      · intro hexact key hkey htext
        exact ((hexact key).mp ⟨hkey, htext⟩).2
      · intro hnames key
        refine and_congr_right fun hkey => ⟨hnames key hkey, ?_⟩
        rintro rfl
        rfl
  · obtain ⟨-, l, hl, hreturned⟩ := target.visits_kept hs.routed db (some pattern) hunchanged hmany
    rw [hreturned]
    exact ScanTarget.only_iff h hl

/-- A set with two members, scanned for one of them. -/
def memberTurns : List ScanTurn := [⟨[], .at 0, 1⟩, ⟨[], .at 0, 1⟩, ⟨[], .at 0, 1⟩]

/-- The store the set is in. -/
def memberStore : CleanupState :=
  [CleanupEvent.op (.key 0 "s".toBytes (.sadd ["a".toBytes, "b".toBytes])) (.at 0)].foldl CleanupState.step
    (.initial 1 .unlimited)

theorem literal_filters_exact_member :
    let target := ScanTarget.set "s".toBytes ((∅ : FSet Bytes).add "a".toBytes |>.add "b".toBytes)
    Literal "a".toBytes ∧
      (∃ keys, ((Op.store (.keys 0 "a".toBytes)).run (.at 0) memberStore.engine).1 = .ok keys) ∧
      target.Only "a".toBytes (returned (visits (target.call 0 (some "a".toBytes)) memberStore 0 memberTurns)) := by
  intro target
  have hliteral : Literal "a".toBytes := by
    unfold Literal
    decide +kernel
  have hunchanged : ∀ v ∈ visits (target.call 0 (some "a".toBytes)) memberStore 0 memberTurns,
      target.Unchanged 0 v.engine v.ctx := by
    change ∀ v ∈ visits _ _ _ _, (v.engine.liveAt v.ctx.now 0 "s".toBytes).map (·.value) =
      some (.set ((∅ : FSet Bytes).add "a".toBytes |>.add "b".toBytes))
    decide +kernel
  obtain ⟨hkeys, hscan⟩ := literal_filters_exact_iff hliteral (s := memberStore) ⟨1, .unlimited, _, rfl⟩ 0 (.at 0)
  obtain ⟨keys, hrun, -⟩ := hkeys (by decide +kernel)
  refine ⟨hliteral, ⟨keys, hrun⟩, (hscan target memberTurns hunchanged (by decide +kernel)).mpr ?_⟩
  unfold Unrivalled
  decide +kernel

/-- Two keys that are no UTF-8 have the same text, and the name of one finds both. -/
theorem keys_rivals :
    let s := ([[0xFF], [0xFE]].map fun key : Key => CleanupEvent.op (.key 0 key (.setValue (.string []) none)) (.at 0)).foldl
      CleanupState.step (.initial 1 .unlimited)
    Literal [0xFF] ∧ ∃ keys, ((Op.store (.keys 0 [0xFF])).run (.at 0) s.engine).1 = .ok keys ∧
      [0xFE] ∈ keys ∧ s.engine.Stores 0 [0xFF] := by
  intro s
  refine ⟨?_, ?_⟩
  · unfold Literal
    decide +kernel
  · have hrun : (((Op.store (.keys 0 [0xFF])).run (.at 0) s.engine).1.value?.any
        fun keys => decide ([0xFE] ∈ keys)) = true := by
      decide +kernel
    have hstored : (s.engine.entryAt 0 [0xFF]).isSome = true := by decide +kernel
    obtain ⟨keys, hkeys, hmem⟩ := (Option.any_eq_true _ _).mp hrun
    exact ⟨keys, Outcome.value?_eq_some.mp hkeys, of_decide_eq_true hmem, Option.isSome_iff_exists.mp hstored⟩

end Ferrous
