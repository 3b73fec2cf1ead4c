/-
# `Commands.Counts` — the numbers that the commands on collections answer with

SADD, HSET and ZADD answer how many elements they added, SREM, HDEL and ZREM how many they
took out.  The number should be the difference of the cardinalities before and after, and
the key should be gone where no element is left.  Repeated members make no difference to
SADD, SREM and HDEL.  HSET counts the pairs it is given where it makes a new hash, and a
sorted set keeps the node of a member whose score is a NaN when the member is named again.
-/
import Ferrous.Commands.Halfway
import Ferrous.Commands.ListRemovals
import Ferrous.Storage.SkipAgreement

namespace Ferrous

open Lib

/-! ## The loops over the arguments -/

namespace KeyOps

/-- What is added is counted, and nothing is left out. -/
theorem addMembers_count (s : FSet Bytes) (members : List Bytes) :
    (addMembers s members).2.size = s.size + (addMembers s members).1 ∧
      (members ≠ [] → (addMembers s members).2.size ≠ 0) := by
  unfold addMembers
  suffices hgen : ∀ (n : Nat) (s : FSet Bytes) (r : Nat × FSet Bytes),
      members.foldl (fun (acc : Nat × FSet Bytes) m =>
        if acc.2.contains m then acc else (acc.1 + 1, acc.2.add m)) (n, s) = r →
      r.2.size + n = s.size + r.1 ∧ n ≤ r.1 ∧ (members ≠ [] → r.2.size ≠ 0) by
    obtain ⟨hsize, -, hne⟩ := hgen 0 s _ rfl
    exact ⟨hsize, hne⟩
  induction members with
  | nil =>
      rintro n s r rfl
      exact ⟨rfl, Nat.le_refl _, fun h => absurd rfl h⟩
  | cons member members ih =>
      intro n s r hr
      rw [List.foldl_cons] at hr
      dsimp only at hr
      split at hr
      · next hthere =>
          obtain ⟨v, hv⟩ := Option.isSome_iff_exists.mp hthere
          have hpos : (s.del member).size + 1 = s.size := Map.size_del_of_some hv
          obtain ⟨hsize, hle, -⟩ := ih n s r hr
          exact ⟨hsize, hle, fun _ => by omega⟩
      · next hnew =>
          have hnone : s.get? member = none := Option.not_isSome_iff_eq_none.mp hnew
          have hgrows : (s.add member).size = s.size + 1 := Map.size_set_of_none hnone ()
          obtain ⟨hsize, hle, -⟩ := ih (n + 1) (s.add member) r hr
          exact ⟨by omega, by omega, fun _ => by omega⟩

theorem removeKeys_count {V : Type} (s : Map Bytes V) (members : List Bytes) :
    (removeKeys s members).2.size + (removeKeys s members).1 = s.size := by
  unfold removeKeys
  suffices h : ∀ (n : Nat) (s : Map Bytes V), (members.foldl (fun (acc : Nat × Map Bytes V) m =>
      if acc.2.contains m then (acc.1 + 1, acc.2.del m) else acc) (n, s)).2.size +
        (members.foldl (fun (acc : Nat × Map Bytes V) m =>
          if acc.2.contains m then (acc.1 + 1, acc.2.del m) else acc) (n, s)).1 = s.size + n from h 0 s
  induction members with
  | nil => exact fun n s => rfl
  | cons member members ih =>
      intro n s
      rw [List.foldl_cons]
      dsimp only
      split
      · next hthere =>
          obtain ⟨v, hv⟩ := Option.isSome_iff_exists.mp hthere
          have hsize : (s.del member).size + 1 = s.size := Map.size_del_of_some hv
          have hrest := ih (n + 1) (s.del member)
          omega
      · exact ih n s

/-- Fields that are not in a hash behind one that is set there. -/
theorem forall_fresh_set {h : Map Bytes Bytes} {field value : Bytes} {pairs : List (Bytes × Bytes)} :
    (∀ p ∈ pairs, (h.set field value).get? p.1 = none) ↔
      field ∉ pairs.map Prod.fst ∧ ∀ p ∈ pairs, h.get? p.1 = none := by
  simp only [Map.get?_set, List.mem_map, not_exists, not_and]
  constructor
  · intro hnone
    refine ⟨fun p hp heq => ?_, fun p hp => ?_⟩
    · have hfield := hnone p hp
      rw [if_pos heq] at hfield
      cases hfield
    · have hfield := hnone p hp
      split at hfield
      · cases hfield
      · exact hfield
  · rintro ⟨hnew, hnone⟩ p hp
    rw [if_neg (hnew p hp)]
    exact hnone p hp

/-- The fields that were new are counted; that is every pair where no field was there or
is repeated. -/
theorem setFields_count (h : Map Bytes Bytes) (pairs : List (Bytes × Bytes)) :
    (setFields h pairs).2.size = h.size + (setFields h pairs).1 ∧
      (pairs ≠ [] → (setFields h pairs).2.size ≠ 0) ∧
      ((setFields h pairs).1 = pairs.length ↔
        (pairs.map Prod.fst).Nodup ∧ ∀ p ∈ pairs, h.get? p.1 = none) := by
  unfold setFields
  suffices hgen : ∀ (n : Nat) (h : Map Bytes Bytes) (r : Nat × Map Bytes Bytes),
      pairs.foldl (fun (acc : Nat × Map Bytes Bytes) fv =>
        (if acc.2.contains fv.1 then acc.1 else acc.1 + 1, acc.2.set fv.1 fv.2)) (n, h) = r →
      r.2.size + n = h.size + r.1 ∧ n ≤ r.1 ∧ r.1 ≤ n + pairs.length ∧ (pairs ≠ [] → r.2.size ≠ 0) ∧
        (r.1 = n + pairs.length ↔ (pairs.map Prod.fst).Nodup ∧ ∀ p ∈ pairs, h.get? p.1 = none) by
    obtain ⟨hsize, -, -, hne, hall⟩ := hgen 0 h _ rfl
    refine ⟨hsize, hne, ?_⟩
    rw [Nat.zero_add] at hall
    exact hall
  induction pairs with
  | nil =>
      rintro n h r rfl
      exact ⟨rfl, Nat.le_refl _, Nat.le_refl _, fun hne => absurd rfl hne, iff_of_true rfl ⟨List.nodup_nil, nofun⟩⟩
  | cons pair pairs ih =>
      intro n h r hr
      rw [List.foldl_cons] at hr
      obtain ⟨hsize, hge, hle, -, hall⟩ := ih _ _ r hr
      dsimp only at hsize hge hle hall
      rw [List.map_cons, List.nodup_cons, List.length_cons, List.forall_mem_cons]
      cases hold : h.get? pair.1 with
      | none =>
          have hnew : h.contains pair.1 = false := by rw [Map.contains, hold]; rfl
          have hgrows : (h.set pair.1 pair.2).size = h.size + 1 := Map.size_set_of_none hold _
          rw [hnew, if_neg Bool.false_ne_true] at hsize hge hle hall
          refine ⟨by omega, by omega, by omega, fun _ => by omega, ?_⟩
          · rw [forall_fresh_set] at hall
            rw [show n + (pairs.length + 1) = n + 1 + pairs.length by omega, hall]
            constructor
            · rintro ⟨hnodup, hnotin, hnone⟩
              exact ⟨⟨hnotin, hnodup⟩, rfl, hnone⟩
            · rintro ⟨⟨hnotin, hnodup⟩, -, hnone⟩
              exact ⟨hnodup, hnotin, hnone⟩
      | some v =>
          have hthere : h.contains pair.1 = true := by rw [Map.contains, hold]; rfl
          have hsame : (h.set pair.1 pair.2).size = h.size := Map.size_set_of_some hold _
          have hpos : (h.del pair.1).size + 1 = h.size := Map.size_del_of_some hold
          rw [hthere, if_pos rfl] at hsize hge hle
          refine ⟨by omega, by omega, by omega, fun _ => by omega, iff_of_false (by omega) fun hand => ?_⟩
          cases hand.2.1

end KeyOps

/-! ## The length of a sorted set -/

namespace SkipList

variable {z : SkipList} {member : Bytes}

/-- The node of a member whose score is a number goes. -/
theorem len_removeNodeByScore (h : z.Built) {score : Float64} (hscore : z.getScore member = some score)
    (hnum : score.isNaN = false) : (z.1.removeNodeByScore member score).length + 1 = z.len := by
  obtain ⟨n, hn, hkey, hvalue⟩ := (h.exact.indexed member score hnum).mp hscore
  subst hkey hvalue
  obtain ⟨post, hdrop⟩ := h.exact.dropWhile_isBefore z.2 hn hnum
  rcases SkipChain.removeNodeByScore_cases z.1 n.key n.value with ⟨pre, t, post', hchain, -, -, hremove⟩ | ⟨-, hno⟩
  · have hlen : z.1.length = (pre ++ t :: post').length := z.2.length_eq.trans (congrArg List.length hchain)
    rw [List.length_append, List.length_cons] at hlen
    rw [hremove]
    change z.1.length - 1 + 1 = z.1.length
    omega
  · -- the search for a number finds its node
    refine absurd ⟨rfl, ?_⟩ (hno n post hdrop)
    rw [Float64.numEq, hnum]
    simp

theorem getScore_insert (z : SkipList) (member : Bytes) (score : Float64) (level : Nat) :
    (z.insert member score level).2.getScore =
      fun k => if k = member then some score else z.getScore k :=
  funext fun k => SkipChain.insert_keyIndex z.1 member score level k

/-- An insertion answers the score the member had.  The set grows by one where it had none,
and where it was a NaN. -/
theorem insert_len (h : z.Built) (member : Bytes) (score : Float64) (level : Nat) :
    (z.insert member score level).1 = z.getScore member ∧
    (z.insert member score level).2.len = match z.getScore member with
      | none => z.len + 1
      | some old => if old.isNaN then z.len + 1 else z.len := by
  unfold insert
  dsimp only
  cases hold : z.getScore member with
  | none =>
      have hindex : z.1.keyIndex.get? member = none := hold
      simp only [SkipChain.insert, hindex, SkipChain.insertNewNode, SkipList.len, SkipChain.len, and_self]
  | some old =>
      have hindex : z.1.keyIndex.get? member = some old := hold
      refine ⟨by simp only [SkipChain.insert, hindex], ?_⟩
      dsimp only
      split
      · next hnan =>
          simp only [SkipChain.insert, hindex, SkipChain.insertNewNode, SkipList.len, SkipChain.len,
            SkipChain.removeNodeByScore_nan hnan]
      · next hnum =>
          have hlen := len_removeNodeByScore h hold (Bool.eq_false_iff.mpr hnum)
          simp only [SkipChain.insert, hindex, SkipChain.insertNewNode, SkipList.len, SkipChain.len]
          exact hlen

/-- A removal answers the score the member had, which it no longer has.  The set shrinks by
one where it was a number, and stays as long as it was where it was a NaN. -/
theorem remove_len (h : z.Built) (member : Bytes) :
    (z.remove member).1 = z.getScore member ∧
    ((z.remove member).2.getScore = fun k => if k = member then none else z.getScore k) ∧
    (z.getScore member = none → (z.remove member).2 = z) ∧
    ∀ old, z.getScore member = some old →
      (z.remove member).2.len + (if old.isNaN then 0 else 1) = z.len := by
  unfold remove
  dsimp only
  cases hold : z.getScore member with
  | none =>
      have hindex : z.1.keyIndex.get? member = none := hold
      have hsame : z.1.remove member = (none, z.1) := by simp only [SkipChain.remove, hindex]
      simp only [hsame]
      refine ⟨trivial, funext fun k => ?_, fun _ => rfl, by rintro _ ⟨⟩⟩
      split
      · next hk => exact hk ▸ hold
      · rfl
  | some score =>
      have hindex : z.1.keyIndex.get? member = some score := hold
      have hremove : z.1.remove member =
          (some score, { z.1.removeNodeByScore member score with keyIndex := z.1.keyIndex.del member }) := by
        simp only [SkipChain.remove, hindex, SkipChain.removeNodeByScore_index]
      simp only [hremove]
      refine ⟨trivial, funext fun k => ?_, by rintro ⟨⟩, ?_⟩
      · exact Map.get?_del z.1.keyIndex member k
      · rintro _ ⟨⟩
        change (z.1.removeNodeByScore member score).length + _ = z.1.length
        split
        · next hnan => rw [SkipChain.removeNodeByScore_nan hnan, Nat.add_zero]
        · next hnum => exact len_removeNodeByScore h hold (Bool.eq_false_iff.mpr hnum)

/-- A set without nodes has no members. -/
theorem getScore_of_len_zero (h : z.len = 0) (member : Bytes) : z.getScore member = none := by
  have hchain : z.1.chain = [] := List.eq_nil_of_length_eq_zero (z.2.length_eq.symm.trans h)
  have hfree : z.1.NaNFree := by
    intro n hn
    rw [hchain] at hn
    cases hn
  cases hscore : z.getScore member with
  | none => rfl
  | some score =>
      obtain ⟨n, hn, -⟩ := (z.2.indexed hfree member score).mp hscore
      rw [hchain] at hn
      cases hn

end SkipList

/-! ## The commands -/

/-- The commands that count the elements they add or take out. -/
inductive CountedCommand
  | sadd | hset | zadd | srem | hdel | zrem
  deriving DecidableEq, Repr

namespace CountedCommand

def name : CountedCommand → String
  | sadd => "SADD"
  | hset => "HSET"
  | zadd => "ZADD"
  | srem => "SREM"
  | hdel => "HDEL"
  | zrem => "ZREM"

def handler : CountedCommand → Nat → Parts → StoreProg RespFrame
  | sadd => handleSadd
  | hset => handleHset
  | zadd => handleZadd
  | srem => handleSrem
  | hdel => handleHdel
  | zrem => handleZrem

/-- The elements counted are those that were added. -/
def grows : CountedCommand → Bool
  | sadd | hset | zadd => true
  | srem | hdel | zrem => false

/-- The command on a key with its further arguments, as a client sends it. -/
def program (c : CountedCommand) (db : Nat) (key : Key) (args : List Bytes) : StoreProg RespFrame :=
  c.handler db (.fromString c.name :: .fromBytes key :: args.map .fromBytes)

end CountedCommand

/-- The number of elements of the collection under a key; nothing is an empty one, and what
is no collection counts as one element. -/
def cardinality : Option StoredValue → Nat
  | none => 0
  | some sv =>
      match sv.value with
      | .set members => members.size
      | .hash fields => fields.size
      | .sortedSet z => z.len
      | .list items => items.length
      | .string _ | .stream _ => 1

/-- The number is the difference of the cardinalities, and the key is gone exactly if no
element is left. -/
structure CountExact (grows : Bool) (before after : Option StoredValue) (n : Int) : Prop where
  change : n = if grows then (cardinality after : Int) - cardinality before
    else (cardinality before : Int) - cardinality after
  gone : after = none ↔ cardinality after = 0

/-- Whenever the command answers with a number, that is the change. -/
def CountsChange (ω : Nat → Ctx) (w : World) (db : Nat) (key : Key) (c : CountedCommand) (args : List Bytes) : Prop :=
  ∀ n w', (c.program db key args).run (World.step ω) w = (.ok (.integer n), w') →
    CountExact c.grows (w.engine.entryAt db key) (w'.engine.entryAt db key) n

/-! ## The arguments in pairs -/

/-- Fields with values. -/
def pairsOf : List Bytes → List (Bytes × Bytes)
  | field :: value :: args => (field, value) :: pairsOf args
  | _ => []

/-- Members with scores, if every score is one. -/
def scoredPairs : List Bytes → Option (List (Bytes × Float64))
  | [] => some []
  | [_] => none
  | text :: member :: args =>
      match Float64.parse (fromUtf8Lossy text) with
      | none => none
      | some score => (scoredPairs args).map ((member, score) :: ·)

/-- A member is given a score when its score is a NaN. -/
def NaNAgain (scores : Bytes → Option Float64) : List (Bytes × Float64) → Prop
  | [] => False
  | (member, score) :: pairs =>
      (∃ old, scores member = some old ∧ old.isNaN = true) ∨
        NaNAgain (fun k => if k = member then some score else scores k) pairs

/-- HSET makes a new hash of fields that repeat; ZADD names a member again whose score is a
NaN; ZREM takes such a member out, or nothing from a set that is empty already. -/
def Miscounts (e : Engine) (db : Nat) (key : Key) (args : List Bytes) : CountedCommand → Prop
  | .sadd | .srem | .hdel => False
  | .hset =>
      db < e.databases.length ∧ e.entryAt db key = none ∧ args.length % 2 = 0 ∧
        ¬ ((pairsOf args).map Prod.fst).Nodup
  | .zadd => ∃ pairs, scoredPairs args = some pairs ∧
      ((db < e.databases.length ∧ e.entryAt db key = none ∧
        (∀ p ∈ pairs.head?, e.memory.exceeds (KeyOps.singletonZsetSize key p.1) = false) ∧
        NaNAgain (fun _ => none) pairs) ∨
      ∃ z t, e.entryAt db key = some ⟨.sortedSet z, t⟩ ∧ NaNAgain z.getScore pairs)
  | .zrem => args ≠ [] ∧ ∃ z t, e.entryAt db key = some ⟨.sortedSet z, t⟩ ∧
      (z.len = 0 ∨ ∃ member ∈ args, ∃ score, z.getScore member = some score ∧ score.isNaN = true)

/-! ## Sets and hashes -/

section Counts

variable {ω : Nat → Ctx} {w : World} {db : Nat} {key : Key} {args : List Bytes}

theorem bulks_fromBytes (what : String) (args : List Bytes) :
    Args.bulks what (args.map RespFrame.fromBytes) = .ok args := by
  induction args with
  | nil => rfl
  | cons arg args ih =>
      rw [List.map_cons, Args.bulks]
      change (Args.bulks what (args.map RespFrame.fromBytes)).map (arg :: ·) = _
      rw [ih]
      rfl

theorem filterMap_bulk_fromBytes (args : List Bytes) :
    (args.map RespFrame.fromBytes).filterMap RespFrame.bulk? = args := by
  rw [List.filterMap_map]
  exact List.filterMap_some

theorem fieldValues_fromBytes : ∀ args : List Bytes, fieldValues (args.map RespFrame.fromBytes) = .ok (pairsOf args)
  | [] => rfl
  | [_] => rfl
  | field :: value :: args => by
      have ih := fieldValues_fromBytes args
      rw [List.map_cons, List.map_cons, fieldValues, ih]
      rfl

/-- Without further arguments no command answers with a number. -/
theorem counts_nil (c : CountedCommand) : CountsChange ω w db key c [] := by
  intro n w' h
  cases c <;> exact nomatch h

/-- What a handler of one operation that asks for no memory has to do with its count. -/
theorem counts_onKey {c : CountedCommand} {k : KeyCmd Nat} {st : KeyStep Nat}
    (hprogram : c.program db key args = onKey .reply db key k count)
    (hst : k.step key (ω w.calls) (w.engine.entryAt db key) = st) (hcharge : st.charge = none) :
    CountsChange ω w db key c args ↔ (db < w.engine.databases.length → ∀ n, st.result = .ok n →
      CountExact c.grows (w.engine.entryAt db key) (st.entry.leaves (w.engine.entryAt db key)) n) := by
  unfold CountsChange
  rw [hprogram]
  rcases run_onKey_ends hst hcharge count with
    ⟨⟨msg, w₁, hrun⟩, hresult⟩ | ⟨m, w₁, hdb, hresult, hrun, hentry⟩ | ⟨hdb, hresult, hrun⟩
  · refine iff_of_true (fun n w' hw' => ?_) fun hdb n hn => ?_
    · rw [hrun] at hw'
      cases hw'
    · obtain ⟨e, he⟩ := hresult hdb
      rw [he] at hn
      cases hn
  · rw [hrun, ← hentry]
    constructor
    · intro h _ n hn
      rw [hresult] at hn
      cases hn
      exact h _ w₁ rfl
    · intro h n w' hw'
      cases hw'
      exact h hdb m hresult
  · refine iff_of_true (fun n w' hw' => ?_) fun _ n hn => ?_
    · rw [hw'] at hrun
      cases hrun
    · rw [hresult] at hn
      cases hn

end Counts

/-- A step counts the elements right. -/
def KeyStep.Counts (grows : Bool) (entry : Option StoredValue) (st : KeyStep Nat) : Prop :=
  ∀ n, st.result = .ok n → CountExact grows entry (st.entry.leaves entry) n

namespace KeyStep

variable {grows : Bool} {entry : Option StoredValue}

theorem counts_wrongType : (wrongType : KeyStep Nat).Counts grows entry := nofun

/-- A collection that is stored and not empty. -/
theorem counts_store {st : KeyStep Nat} {n : Nat} {sv : StoredValue} (hresult : st.result = .ok n)
    (hentry : st.entry = .store sv) (hne : cardinality (some sv) ≠ 0) :
    st.Counts grows entry ↔ (n : Int) = if grows then (cardinality (some sv) : Int) - cardinality entry
      else (cardinality entry : Int) - cardinality (some sv) := by
  have hleaves : st.entry.leaves entry = some sv := by rw [hentry]; rfl
  unfold Counts
  rw [hresult, hleaves]
  constructor
  · exact fun h => (h n rfl).change
  · rintro h _ ⟨⟩
    exact ⟨h, iff_of_false nofun hne⟩

/-- What is left of a collection is stored, or the key removed when nothing is. -/
theorem counts_shrink {sv : StoredValue} {v : Value} {marks : Bool} {n : Nat}
    (hcard : cardinality (some { sv with value := v }) + n = cardinality (some sv)) :
    (shrink sv v (cardinality (some { sv with value := v }) == 0) marks n).Counts false (some sv) := by
  rintro _ ⟨⟩
  unfold shrink
  dsimp only
  split
  · next hempty =>
      have hzero : cardinality (some { sv with value := v }) = 0 := eq_of_beq hempty
      refine ⟨?_, iff_of_true rfl rfl⟩
      change (n : Int) = (cardinality (some sv) : Int) - (0 : Nat)
      omega
  · next hleft =>
      have hne : cardinality (some { sv with value := v }) ≠ 0 := fun h => hleft (beq_iff_eq.mpr h)
      refine ⟨?_, iff_of_false nofun hne⟩
      change (n : Int) = (cardinality (some sv) : Int) - cardinality (some { sv with value := v })
      omega

end KeyStep

namespace KeyCmd

variable {key : Key} {ctx : Ctx}

theorem counts_sadd {members : List Bytes} (hne : members ≠ []) (entry : Option StoredValue) :
    ((sadd members).step key ctx entry).charge = none ∧ ((sadd members).step key ctx entry).Counts true entry := by
  simp only [step, KeyOps.sadd, KeyOps.onSet]
  cases entry with
  | none =>
      obtain ⟨hsize, hpos⟩ := KeyOps.addMembers_count ∅ members
      refine ⟨rfl, (KeyStep.counts_store rfl rfl ?_).mpr ?_⟩
      · exact hpos hne
      change _ = ((KeyOps.addMembers ∅ members).2.size : Int) - (0 : Nat)
      rw [hsize]
      change _ = ((0 + _ : Nat) : Int) - (0 : Nat)
      omega
  | some sv =>
      dsimp only
      split
      · next s hv =>
          obtain ⟨hsize, hpos⟩ := KeyOps.addMembers_count s members
          refine ⟨rfl, (KeyStep.counts_store rfl rfl ?_).mpr ?_⟩
          · exact hpos hne
          change _ = ((KeyOps.addMembers s members).2.size : Int) - cardinality (some sv)
          rw [cardinality, hv, hsize]
          dsimp only
          omega
      · exact ⟨rfl, KeyStep.counts_wrongType⟩

theorem counts_srem (members : List Bytes) (entry : Option StoredValue) :
    ((srem members).step key ctx entry).charge = none ∧ ((srem members).step key ctx entry).Counts false entry := by
  simp only [step, KeyOps.srem, KeyOps.onSet]
  cases entry with
  | none => exact ⟨rfl, by rintro _ ⟨⟩; exact ⟨rfl, iff_of_true rfl rfl⟩⟩
  | some sv =>
      dsimp only
      split
      · next s hv =>
          have hsize := KeyOps.removeKeys_count s members
          refine ⟨rfl, KeyStep.counts_shrink ?_⟩
          rw [cardinality, cardinality, hv]
          exact hsize
      · exact ⟨rfl, KeyStep.counts_wrongType⟩

theorem counts_hdel (fields : List Bytes) (entry : Option StoredValue) :
    ((hdel fields).step key ctx entry).charge = none ∧ ((hdel fields).step key ctx entry).Counts false entry := by
  simp only [step, KeyOps.hdel, KeyOps.onHash]
  cases entry with
  | none => exact ⟨rfl, by rintro _ ⟨⟩; exact ⟨rfl, iff_of_true rfl rfl⟩⟩
  | some sv =>
      dsimp only
      split
      · next h hv =>
          have hsize := KeyOps.removeKeys_count h fields
          refine ⟨rfl, KeyStep.counts_shrink ?_⟩
          rw [cardinality, cardinality, hv]
          exact hsize
      · exact ⟨rfl, KeyStep.counts_wrongType⟩

/-- A new hash counts the pairs. -/
theorem counts_hset {pairs : List (Bytes × Bytes)} (hne : pairs ≠ []) (entry : Option StoredValue) :
    ((hset pairs).step key ctx entry).charge = none ∧
      (((hset pairs).step key ctx entry).Counts true entry ↔
        ¬ (entry = none ∧ ¬ (pairs.map Prod.fst).Nodup)) := by
  simp only [step, KeyOps.hset, KeyOps.onHash]
  cases entry with
  | none =>
      obtain ⟨hsize, hpos, hall⟩ := KeyOps.setFields_count ∅ pairs
      refine ⟨rfl, (KeyStep.counts_store rfl rfl ?_).trans ?_⟩
      · exact hpos hne
      have hcard : cardinality (some (StoredValue.new (.hash (KeyOps.setFields ∅ pairs).2))) =
          (KeyOps.setFields ∅ pairs).1 := hsize.trans (Nat.zero_add _)
      rw [hcard, not_and_not_right]
      change (pairs.length : Int) = ((KeyOps.setFields ∅ pairs).1 : Int) - (0 : Nat) ↔ _
      constructor
      · intro hlen _
        exact (hall.mp (by omega)).1
      · intro hnodup
        have := hall.mpr ⟨hnodup rfl, fun p _ => Map.get?_empty p.1⟩
        omega
  | some sv =>
      dsimp only
      split
      · next h hv =>
          obtain ⟨hsize, hpos, -⟩ := KeyOps.setFields_count h pairs
          refine ⟨rfl, iff_of_true ((KeyStep.counts_store rfl rfl ?_).mpr ?_) fun h => Option.some_ne_none _ h.1⟩
          · exact hpos hne
          change _ = ((KeyOps.setFields h pairs).2.size : Int) - cardinality (some sv)
          rw [cardinality, hv, hsize]
          dsimp only
          omega
      · exact ⟨rfl, iff_of_true KeyStep.counts_wrongType fun h => Option.some_ne_none _ h.1⟩

end KeyCmd

section Counts

variable {ω : Nat → Ctx} {w : World} {db : Nat} {key : Key} {args : List Bytes}

theorem changes_sadd : CountsChange ω w db key .sadd args := by
  cases args with
  | nil => exact counts_nil .sadd
  | cons arg args =>
      have hprogram : CountedCommand.sadd.program db key (arg :: args) =
          onKey .reply db key (.sadd (arg :: args)) count := by
        change reading ((Args.bulks "member" ((arg :: args).map RespFrame.fromBytes)).bind _) _ = _
        rw [bulks_fromBytes]
        rfl
      obtain ⟨hcharge, hcounts⟩ := KeyCmd.counts_sadd (List.cons_ne_nil arg args) (w.engine.entryAt db key)
      exact (counts_onKey hprogram rfl hcharge).mpr fun _ => hcounts

theorem changes_srem : CountsChange ω w db key .srem args := by
  cases args with
  | nil => exact counts_nil .srem
  | cons arg args =>
      have hprogram : CountedCommand.srem.program db key (arg :: args) =
          onKey .reply db key (.srem (arg :: args)) count := by
        change onKey .reply db key (.srem (((arg :: args).map RespFrame.fromBytes).filterMap RespFrame.bulk?)) count = _
        rw [filterMap_bulk_fromBytes]
      obtain ⟨hcharge, hcounts⟩ := KeyCmd.counts_srem (arg :: args) (w.engine.entryAt db key)
      exact (counts_onKey hprogram rfl hcharge).mpr fun _ => hcounts

theorem changes_hdel : CountsChange ω w db key .hdel args := by
  cases args with
  | nil => exact counts_nil .hdel
  | cons arg args =>
      have hprogram : CountedCommand.hdel.program db key (arg :: args) =
          onKey .reply db key (.hdel (arg :: args)) count := by
        change onKey .reply db key (.hdel (((arg :: args).map RespFrame.fromBytes).filterMap RespFrame.bulk?)) count = _
        rw [filterMap_bulk_fromBytes]
      obtain ⟨hcharge, hcounts⟩ := KeyCmd.counts_hdel (arg :: args) (w.engine.entryAt db key)
      exact (counts_onKey hprogram rfl hcharge).mpr fun _ => hcounts

/-- HSET refuses a field without a value. -/
theorem program_hset (hne : args ≠ []) :
    CountedCommand.hset.program db key args =
      if args.length % 2 = 0 then onKey .reply db key (.hset (pairsOf args)) count
      else .ret (.err "ERR wrong number of arguments for 'hset' command") := by
  have hlen : (RespFrame.fromString CountedCommand.hset.name :: .fromBytes key ::
      args.map RespFrame.fromBytes).length = args.length + 2 := by
    rw [List.length_cons, List.length_cons, List.length_map]
  have hpos : 0 < args.length := List.length_pos_of_ne_nil hne
  change reading (do
      Args.arity "hset" (decide (4 ≤ (RespFrame.fromString CountedCommand.hset.name :: .fromBytes key ::
        args.map RespFrame.fromBytes).length) && ((RespFrame.fromString CountedCommand.hset.name :: .fromBytes key ::
          args.map RespFrame.fromBytes).length - 2) % 2 == 0)
      let fvs ← fieldValues (args.map RespFrame.fromBytes)
      return (key, fvs)) (fun (key, fvs) => onKey .reply db key (.hset fvs) count) = _
  rw [hlen, fieldValues_fromBytes, Nat.add_sub_cancel]
  split
  · next heven =>
      have harity : (decide (4 ≤ args.length + 2) && args.length % 2 == 0) = true := by
        rw [heven, Bool.and_eq_true, decide_eq_true_eq]
        exact ⟨by omega, rfl⟩
      rw [harity]
      rfl
  · next hodd =>
      have harity : (decide (4 ≤ args.length + 2) && args.length % 2 == 0) = false := by
        rw [Bool.and_eq_false_iff, beq_eq_false_iff_ne]
        exact .inr hodd
      rw [harity]
      rfl

theorem pairsOf_ne_nil (hne : args ≠ []) (heven : args.length % 2 = 0) : pairsOf args ≠ [] := by
  match args with
  | [] => exact absurd rfl hne
  | [_] => cases heven
  | _ :: _ :: _ => exact List.cons_ne_nil _ _

theorem changes_hset : CountsChange ω w db key .hset args ↔ ¬ Miscounts w.engine db key args .hset := by
  by_cases hne : args = []
  · subst hne
    exact iff_of_true (counts_nil .hset) fun h => h.2.2.2 List.nodup_nil
  have hprogram := @program_hset db key args hne
  by_cases heven : args.length % 2 = 0
  · rw [if_pos heven] at hprogram
    obtain ⟨hcharge, hcounts⟩ := @KeyCmd.counts_hset key (ω w.calls) _ (pairsOf_ne_nil hne heven)
      (w.engine.entryAt db key)
    refine (counts_onKey hprogram rfl hcharge).trans ?_
    constructor
    · rintro h ⟨hdb, hent, -, hrepeat⟩
      exact hcounts.mp (h hdb) ⟨hent, hrepeat⟩
    · exact fun h hdb => hcounts.mpr fun hand => h ⟨hdb, hand.1, heven, hand.2⟩
  · rw [if_neg heven] at hprogram
    refine iff_of_true (fun n w' h => ?_) fun h => heven h.2.2.1
    rw [hprogram] at h
    cases h

/-! ## ZADD -/

theorem zaddPair_of_score {text member : Bytes} {score : Float64} (h : Float64.parse (fromUtf8Lossy text) = some score) :
    zaddPair (.fromBytes text) (.fromBytes member) = .ok (score, member) := by
  have hscore : Args.float notFloat [.fromBytes text] 0 "score" = .ok score := Args.numeral_of_text _ _ rfl h
  rw [zaddPair, hscore]
  rfl

theorem zaddPair_of_none {text member : Bytes} (h : Float64.parse (fromUtf8Lossy text) = none) :
    zaddPair (.fromBytes text) (.fromBytes member) = .error (.err notFloat) := by
  have hscore : Args.float notFloat [.fromBytes text] 0 "score" = Args.reject notFloat :=
    Args.numeral_of_none _ _ rfl h
  rw [zaddPair, hscore]
  rfl

/-- A round of ZADD. -/
theorem zaddLoop_cons {text member : Bytes} {score : Float64} (h : Float64.parse (fromUtf8Lossy text) = some score)
    (args : List Bytes) (added : Nat) :
    zaddLoop db key ((text :: member :: args).map .fromBytes) added =
      (need (.key db key (.zadd member score)) >>= fun new =>
        zaddLoop db key (args.map .fromBytes) (if new then added + 1 else added)) := by
  change reading (zaddPair (.fromBytes text) (.fromBytes member)) _ = _
  rw [zaddPair_of_score h]
  rfl

/-- ZADD on a sorted set asks for no memory. -/
theorem reach_zadd {z : SkipList} {t : Option Instant}
    (hent : w.engine.entryAt db key = some ⟨.sortedSet z, t⟩) (member : Bytes) (score : Float64) :
    ∃ w' level, World.step ω _ (.key db key (.zadd member score)) w = (.ok (z.insert member score level).1.isNone, w') ∧
      w'.engine.entryAt db key = some ⟨.sortedSet (z.insert member score level).2, t⟩ := by
  obtain ⟨e', hstep, -, hentry⟩ := World.step_of_admitted (ω := ω) key (.zadd member score)
    (Engine.lt_of_entryAt hent) (Engine.refuses_of_charge (by rw [hent]; rfl))
  rw [hent] at hstep hentry
  exact ⟨_, _, hstep, hentry⟩

/-- The loop on a sorted set: what it counts falls short of the growth by the members that
were named again with a NaN. -/
theorem zaddLoop_counts : ∀ (args : List Bytes) (pairs : List (Bytes × Float64)) (w : World) (z : SkipList)
    (t : Option Instant) (added : Nat), scoredPairs args = some pairs → z.Built →
    w.engine.entryAt db key = some ⟨.sortedSet z, t⟩ →
    ∃ n w' z', (zaddLoop db key (args.map .fromBytes) added).run (World.step ω) w = (.ok (count n), w') ∧
      w'.engine.entryAt db key = some ⟨.sortedSet z', t⟩ ∧ n + z.len ≤ added + z'.len ∧
      (n + z.len = added + z'.len ↔ ¬ NaNAgain z.getScore pairs) ∧ z.len ≤ z'.len ∧ (pairs ≠ [] → z'.len ≠ 0)
  | [], _, w, z, t, added, rfl, _, hent =>
      ⟨added, w, z, rfl, hent, Nat.le_refl _, iff_of_true rfl id, Nat.le_refl _, fun h => absurd rfl h⟩
  | text :: member :: args, pairs, w, z, t, added, hpairs, hz, hent => by
      rw [scoredPairs] at hpairs
      split at hpairs
      · cases hpairs
      · next score hscore =>
          obtain ⟨rest, hrest, rfl⟩ := Option.map_eq_some_iff.mp hpairs
          obtain ⟨w₁, level, hstep, hent₁⟩ := reach_zadd (ω := ω) hent member score
          obtain ⟨hanswer, hlen⟩ := SkipList.insert_len hz member score level
          have hscores := SkipList.getScore_insert z member score level
          have hz₁ := hz.insert member score level
          rw [hanswer] at hstep
          generalize (z.insert member score level).2 = z₁ at hent₁ hlen hscores hz₁
          obtain ⟨n, w', z', hrun, hent', hle, hiff, hgrow, -⟩ := zaddLoop_counts args rest w₁ z₁ t
            (if (z.getScore member).isNone then added + 1 else added) hrest hz₁ hent₁
          rw [hscores] at hiff
          refine ⟨n, w', z', ?_, hent', ?_⟩
          · rw [zaddLoop_cons hscore, run_need hstep, hrun]
          rw [NaNAgain]
          cases hold : z.getScore member with
          | none =>
              rw [hold] at hle hiff hlen
              rw [Option.isNone_none, if_pos rfl] at hle hiff
              replace hlen : z₁.len = z.len + 1 := hlen
              have hfresh : ¬ ∃ old, (none : Option Float64) = some old ∧ old.isNaN = true := fun ⟨old, h, _⟩ => nomatch h
              rw [or_iff_right hfresh, ← hiff]
              exact ⟨by omega, by omega, by omega, fun _ => by omega⟩
          | some old =>
              rw [hold] at hle hiff hlen
              rw [Option.isNone_some, if_neg Bool.false_ne_true] at hle hiff
              dsimp only at hlen
              have hnode : z₁.len ≠ 0 := by
                intro hzero
                have := SkipList.getScore_of_len_zero hzero member
                rw [hscores] at this
                cases (if_pos rfl :
                  (if member = member then some score else z.getScore member) = some score).symm.trans this
              cases hnan : old.isNaN with
              | true =>
                  rw [hnan, if_pos rfl] at hlen
                  refine ⟨by omega, iff_of_false (by omega) fun h => h (.inl ⟨old, rfl, hnan⟩), by omega,
                    fun _ => by omega⟩
              | false =>
                  rw [hnan, if_neg Bool.false_ne_true] at hlen
                  have hnumber : ¬ ∃ old', some old = some old' ∧ old'.isNaN = true := by
                    rintro ⟨_, ⟨⟩, h⟩
                    rw [hnan] at h
                    cases h
                  rw [or_iff_right hnumber, ← hiff]
                  exact ⟨by omega, by omega, by omega, fun _ => by omega⟩

/-- A loop over pairs of which one has no score does not end with a number. -/
theorem zaddLoop_refused : ∀ (args : List Bytes) (w : World) (added : Nat), args.length % 2 = 0 →
    scoredPairs args = none → ∀ n w',
      (zaddLoop db key (args.map .fromBytes) added).run (World.step ω) w ≠ (.ok (.integer n), w')
  | [], _, _, _, hnone => nomatch hnone
  | [_], _, _, hodd, _ => nomatch hodd
  | text :: member :: args, w, added, heven, hnone => by
      intro n w' hrun
      rw [scoredPairs] at hnone
      split at hnone
      · next hscore =>
          change ((reading (zaddPair (.fromBytes text) (.fromBytes member)) _).run _ w) = _ at hrun
          rw [zaddPair_of_none hscore] at hrun
          cases hrun
      · next score hscore =>
          rw [Option.map_eq_none_iff] at hnone
          rw [List.length_cons, List.length_cons] at heven
          rw [zaddLoop_cons hscore, Prog.bind_eq, need, Prog.run_perform_bind] at hrun
          rcases hstep : World.step ω _ (.key db key (.zadd member score)) w with ⟨b | e | _, w₁⟩
          all_goals rw [hstep] at hrun
          · exact zaddLoop_refused args w₁ _ (by omega) hnone n w' hrun
          · cases hrun
          · cases hrun

/-- Nor does a loop whose first operation fails. -/
theorem zaddLoop_fails {text member : Bytes} {score : Float64}
    (hscore : Float64.parse (fromUtf8Lossy text) = some score) {e : FerrousError} {w₁ : World}
    (hstep : World.step ω _ (.key db key (.zadd member score)) w = (.err e, w₁)) (args : List Bytes) (added : Nat)
    (n : Int) (w' : World) :
    (zaddLoop db key ((text :: member :: args).map .fromBytes) added).run (World.step ω) w ≠
      (.ok (.integer n), w') := by
  intro hrun
  rw [zaddLoop_cons hscore, Prog.bind_eq, need, Prog.run_perform_bind, hstep] at hrun
  cases hrun

/-- ZADD refuses a member without a score. -/
theorem program_zadd (hne : args ≠ []) :
    CountedCommand.zadd.program db key args =
      if args.length % 2 = 0 then zaddLoop db key (args.map .fromBytes) 0
      else .ret (.err "ERR wrong number of arguments for 'zadd' command") := by
  have hlen : (RespFrame.fromString CountedCommand.zadd.name :: .fromBytes key ::
      args.map RespFrame.fromBytes).length = args.length + 2 := by
    rw [List.length_cons, List.length_cons, List.length_map]
  have hpos : 0 < args.length := List.length_pos_of_ne_nil hne
  change reading (do
      Args.arity "zadd" (decide (4 ≤ (RespFrame.fromString CountedCommand.zadd.name :: .fromBytes key ::
        args.map RespFrame.fromBytes).length) && (RespFrame.fromString CountedCommand.zadd.name :: .fromBytes key ::
          args.map RespFrame.fromBytes).length % 2 == 0)
      .ok key) (fun key => zaddLoop db key (args.map .fromBytes) 0) = _
  rw [hlen, Nat.add_mod_right]
  split
  · next heven =>
      have harity : (decide (4 ≤ args.length + 2) && args.length % 2 == 0) = true := by
        rw [heven, Bool.and_eq_true, decide_eq_true_eq]
        exact ⟨by omega, rfl⟩
      rw [harity]
      rfl
  · next hodd =>
      have harity : (decide (4 ≤ args.length + 2) && args.length % 2 == 0) = false := by
        rw [Bool.and_eq_false_iff, beq_eq_false_iff_ne]
        exact .inr hodd
      rw [harity]
      rfl

theorem scoredPairs_odd : ∀ {args : List Bytes}, args.length % 2 ≠ 0 → scoredPairs args = none
  | [], hodd => absurd rfl hodd
  | [_], _ => rfl
  | text :: member :: args, hodd => by
      rw [scoredPairs]
      split
      · rfl
      · rw [Option.map_eq_none_iff]
        refine scoredPairs_odd ?_
        rw [List.length_cons, List.length_cons] at hodd
        omega

theorem scoredPairs_ne_nil {pairs : List (Bytes × Float64)} (hne : args ≠ []) (h : scoredPairs args = some pairs) :
    pairs ≠ [] := by
  match args with
  | [] => exact absurd rfl hne
  | [_] => cases h
  | text :: member :: args =>
      rw [scoredPairs] at h
      split at h
      · cases h
      · obtain ⟨rest, -, rfl⟩ := Option.map_eq_some_iff.mp h
        exact List.cons_ne_nil _ _

/-- The loop counts right on a sorted set unless a member is named again with a NaN. -/
theorem zaddLoop_exact_stored {z : SkipList} {t : Option Instant} {pairs : List (Bytes × Float64)} (hne : args ≠ [])
    (hpairs : scoredPairs args = some pairs) (hz : z.Built)
    (hent : w.engine.entryAt db key = some ⟨.sortedSet z, t⟩) :
    (∀ n w', (zaddLoop db key (args.map .fromBytes) 0).run (World.step ω) w = (.ok (.integer n), w') →
      CountExact true (w.engine.entryAt db key) (w'.engine.entryAt db key) n) ↔ ¬ NaNAgain z.getScore pairs := by
  obtain ⟨n, w', z', hrun, hent', -, hiff, -, hpos⟩ := zaddLoop_counts (ω := ω) args pairs w z t 0 hpairs hz hent
  have hleft := hpos (scoredPairs_ne_nil hne hpairs)
  rw [← hiff, hrun]
  constructor
  · intro h
    have hchange := (h n w' rfl).change
    rw [hent, hent', if_pos rfl] at hchange
    change (n : Int) = (z'.len : Int) - z.len at hchange
    omega
  · rintro hcount _ _ ⟨⟩
    rw [hent, hent']
    refine ⟨?_, iff_of_false nofun hleft⟩
    change (n : Int) = (z'.len : Int) - z.len
    omega

/-- And where it makes a new one. -/
theorem zaddLoop_exact_new {text member : Bytes} {score : Float64} {pairs : List (Bytes × Float64)}
    (hscore : Float64.parse (fromUtf8Lossy text) = some score) (hpairs : scoredPairs args = some pairs)
    (hdb : db < w.engine.databases.length) (hent : w.engine.entryAt db key = none)
    (hroom : w.engine.memory.exceeds (KeyOps.singletonZsetSize key member) = false) :
    (∀ n w', (zaddLoop db key ((text :: member :: args).map .fromBytes) 0).run (World.step ω) w =
        (.ok (.integer n), w') → CountExact true none (w'.engine.entryAt db key) n) ↔
      ¬ NaNAgain (fun _ => none) ((member, score) :: pairs) := by
  obtain ⟨e₁, hstep, -, hent₁⟩ := World.step_of_admitted (ω := ω) key (.zadd member score) hdb
    (by rw [hent]; exact hroom)
  rw [hent] at hstep hent₁
  have hz : SkipList.new.Built := .new
  have hz₁ := hz.insert member score (ω w.calls).level
  have hscores := SkipList.getScore_insert .new member score (ω w.calls).level
  obtain ⟨-, hlen⟩ := SkipList.insert_len hz member score (ω w.calls).level
  replace hlen : (SkipList.new.insert member score (ω w.calls).level).2.len = 1 := hlen
  replace hent₁ : e₁.entryAt db key =
    some ⟨.sortedSet (SkipList.new.insert member score (ω w.calls).level).2, none⟩ := hent₁
  generalize (SkipList.new.insert member score (ω w.calls).level).2 = z₁ at hz₁ hscores hlen hent₁
  obtain ⟨n, w', z', hrun, hent', -, hiff, hgrow, -⟩ := zaddLoop_counts (ω := ω) args pairs ⟨e₁, w.calls + 1⟩ z₁ none 1
    hpairs hz₁ hent₁
  have hrun' : (zaddLoop db key ((text :: member :: args).map .fromBytes) 0).run (World.step ω) w =
      (.ok (count n), w') := by
    rw [zaddLoop_cons hscore, run_need hstep]
    exact hrun
  have hagain : NaNAgain (fun _ => none) ((member, score) :: pairs) ↔ NaNAgain z₁.getScore pairs := by
    rw [NaNAgain, hscores]
    exact or_iff_right fun ⟨old, h, _⟩ => nomatch h
  rw [hagain, ← hiff, hrun']
  constructor
  · intro h
    have hchange := (h n w' rfl).change
    rw [hent', if_pos rfl] at hchange
    change (n : Int) = (z'.len : Int) - (0 : Nat) at hchange
    omega
  · rintro hcount _ _ ⟨⟩
    rw [hent']
    refine ⟨?_, iff_of_false nofun ?_⟩
    · change (n : Int) = (z'.len : Int) - (0 : Nat)
      omega
    · change z'.len ≠ 0
      omega

/-- Where the first operation fails, no number is answered. -/
theorem zaddLoop_vacuous {text member : Bytes} {score : Float64}
    (hscore : Float64.parse (fromUtf8Lossy text) = some score)
    (hfails : ∃ e w₁, World.step ω _ (.key db key (.zadd member score)) w = (.err e, w₁)) {P : Int → World → Prop} :
    ∀ n w', (zaddLoop db key ((text :: member :: args).map .fromBytes) 0).run (World.step ω) w =
      (.ok (.integer n), w') → P n w' := by
  obtain ⟨e, w₁, hstep⟩ := hfails
  exact fun n w' hrun => absurd hrun (zaddLoop_fails hscore hstep args 0 n w')

/-- A call with pairs counts right but for a NaN named again, among the pairs of a new set or
in the set that is stored. -/
theorem zaddLoop_exact (hbuilt : w.engine.ZsetsBuilt) {text member : Bytes} {score : Float64}
    {pairs : List (Bytes × Float64)} (hscore : Float64.parse (fromUtf8Lossy text) = some score)
    (hpairs : scoredPairs args = some pairs) (hdb : db < w.engine.databases.length) :
    (∀ n w', (zaddLoop db key ((text :: member :: args).map .fromBytes) 0).run (World.step ω) w =
        (.ok (.integer n), w') → CountExact true (w.engine.entryAt db key) (w'.engine.entryAt db key) n) ↔
      ¬ ((w.engine.entryAt db key = none ∧
          w.engine.memory.exceeds (KeyOps.singletonZsetSize key member) = false ∧
          NaNAgain (fun _ => none) ((member, score) :: pairs)) ∨
        ∃ z t, w.engine.entryAt db key = some ⟨.sortedSet z, t⟩ ∧ NaNAgain z.getScore ((member, score) :: pairs)) := by
  have hwhole : scoredPairs (text :: member :: args) = some ((member, score) :: pairs) := by
    rw [scoredPairs, hscore, hpairs]
    rfl
  cases hent : w.engine.entryAt db key with
  | none =>
      cases hroom : w.engine.memory.exceeds (KeyOps.singletonZsetSize key member) with
      | true =>
          refine iff_of_true (zaddLoop_vacuous hscore ⟨.storage .outOfMemory, World.step_fails hdb ?_⟩) ?_
          · rw [hent]
            exact if_pos hroom
          · rintro (⟨-, hadmits, -⟩ | ⟨z, t, hsome, -⟩)
            · cases hadmits
            · cases hsome
      | false =>
          refine (zaddLoop_exact_new hscore hpairs hdb hent hroom).trans (not_congr ?_)
          constructor
          · exact fun hnan => .inl ⟨rfl, rfl, hnan⟩
          · rintro (⟨-, -, hnan⟩ | ⟨z, t, hsome, -⟩)
            · exact hnan
            · cases hsome
  | some sv =>
      obtain ⟨v, t⟩ := sv
      by_cases hzset : ∃ z, v = .sortedSet z
      · obtain ⟨z, rfl⟩ := hzset
        have hiff := zaddLoop_exact_stored (ω := ω) (List.cons_ne_nil _ _) hwhole (hbuilt db key z t hent) hent
        rw [hent] at hiff
        refine hiff.trans (not_congr ?_)
        constructor
        · exact fun hnan => .inr ⟨z, t, rfl, hnan⟩
        · rintro (⟨hnone, -⟩ | ⟨z', t', hsome, hnan⟩)
          · cases hnone
          · cases hsome
            exact hnan
      · have hother : ∀ z, StoredValue.value ⟨v, t⟩ ≠ .sortedSet z := fun z hz => hzset ⟨z, hz⟩
        refine iff_of_true (zaddLoop_vacuous hscore ⟨.storage .wrongType, World.step_fails hdb ?_⟩) ?_
        · rw [hent]
          simp only [KeyCmd.step, KeyOps.zadd, KeyOps.onZset_other hother]
          rfl
        · rintro (⟨hnone, -⟩ | ⟨z, t', hsome, -⟩)
          · cases hnone
          · cases hsome
            exact hzset ⟨z, rfl⟩

theorem changes_zadd (hbuilt : w.engine.ZsetsBuilt) :
    CountsChange ω w db key .zadd args ↔ ¬ Miscounts w.engine db key args .zadd := by
  by_cases hne : args = []
  · subst hne
    refine iff_of_true (counts_nil .zadd) ?_
    rintro ⟨_, ⟨⟩, ⟨-, -, -, hnan⟩ | ⟨_, _, -, hnan⟩⟩ <;> exact hnan
  have hprogram := @program_zadd db key args hne
  by_cases heven : args.length % 2 = 0
  swap
  · rw [if_neg heven] at hprogram
    refine iff_of_true (fun n w' h => ?_) ?_
    · rw [hprogram] at h
      cases h
    · rintro ⟨pairs, hpairs, -⟩
      rw [scoredPairs_odd heven] at hpairs
      cases hpairs
  rw [if_pos heven] at hprogram
  unfold CountsChange Miscounts
  rw [hprogram]
  cases hpairs : scoredPairs args with
  | none =>
      refine iff_of_true (fun n w' h => ?_) ?_
      · exact absurd h (zaddLoop_refused args w 0 heven hpairs n w')
      · rintro ⟨pairs, ⟨⟩, -⟩
  | some pairs =>
      match args with
      | [] => exact absurd rfl hne
      | [_] => cases heven
      | text :: member :: args =>
          rw [scoredPairs] at hpairs
          split at hpairs
          · cases hpairs
          next score hscore =>
          obtain ⟨rest, hrest, rfl⟩ := Option.map_eq_some_iff.mp hpairs
          by_cases hdb : db < w.engine.databases.length
          · refine (zaddLoop_exact hbuilt hscore hrest hdb).trans (not_congr ?_)
            simp [hdb]
          · refine iff_of_true (zaddLoop_vacuous hscore ⟨_, _, World.step_missing hdb _⟩) ?_
            rintro ⟨_, -, ⟨hlt, -⟩ | ⟨z, t, hent, -⟩⟩
            · exact hdb hlt
            · exact hdb (Engine.lt_of_entryAt hent)

/-! ## ZREM -/

/-- A round of ZREM. -/
theorem zremLoop_cons (member : Bytes) (args : List Bytes) (removed : Nat) :
    zremLoop db key ((member :: args).map .fromBytes) removed =
      (need (.key db key (.zrem member)) >>= fun gone =>
        zremLoop db key (args.map .fromBytes) (if gone then removed + 1 else removed)) := rfl

/-- A removal where nothing is stored, or from a sorted set. -/
theorem reach_zrem_none (hdb : db < w.engine.databases.length) (hent : w.engine.entryAt db key = none)
    (member : Bytes) :
    ∃ w', World.step ω _ (.key db key (.zrem member)) w = (.ok false, w') ∧
      w'.engine.databases.length = w.engine.databases.length ∧ w'.engine.entryAt db key = none := by
  obtain ⟨e', hstep, hch, hentry⟩ := World.step_of_admitted (ω := ω) key (.zrem member) hdb
    (Engine.refuses_of_charge (by rw [hent]; rfl))
  rw [hent] at hstep hentry
  exact ⟨_, hstep, hch.length, hentry⟩

theorem reach_zrem_some {z : SkipList} {t : Option Instant} (hz : z.Built)
    (hent : w.engine.entryAt db key = some ⟨.sortedSet z, t⟩) (member : Bytes) :
    ∃ w', World.step ω _ (.key db key (.zrem member)) w = (.ok (z.getScore member).isSome, w') ∧
      w'.engine.databases.length = w.engine.databases.length ∧
      w'.engine.entryAt db key = if z.getScore member = none then some ⟨.sortedSet z, t⟩
        else if (z.remove member).2.len = 0 then none else some ⟨.sortedSet (z.remove member).2, t⟩ := by
  obtain ⟨hanswer, -⟩ := SkipList.remove_len hz member
  have hcharge : ((KeyCmd.zrem member).step key (ω w.calls) (w.engine.entryAt db key)).charge = none := by
    rw [hent]
    simp only [KeyCmd.step, KeyOps.zrem, KeyOps.onZset]
    split <;> rfl
  obtain ⟨e', hstep, hch, hentry⟩ := World.step_of_admitted (ω := ω) key (.zrem member)
    (Engine.lt_of_entryAt hent) (Engine.refuses_of_charge hcharge)
  rw [hent] at hstep hentry
  refine ⟨⟨e', w.calls + 1⟩, hstep.trans ?_, hch.length, hentry.trans ?_⟩
  · simp only [KeyCmd.step, KeyOps.zrem, KeyOps.onZset]
    rw [← hanswer]
    rcases z.remove member with ⟨_ | score, z'⟩ <;> rfl
  · simp only [KeyCmd.step, KeyOps.zrem, KeyOps.onZset]
    rw [← hanswer]
    rcases z.remove member with ⟨_ | score, z'⟩
    · rfl
    · rw [if_neg (Option.some_ne_none score)]
      by_cases hempty : z'.len = 0
      · have hlen : z'.isEmpty = true := beq_iff_eq.mpr hempty
        rw [if_pos hempty]
        dsimp only
        simp only [KeyStep.shrink, hlen, if_true]
        rfl
      · have hlen : z'.isEmpty = false := beq_eq_false_iff_ne.mpr hempty
        rw [if_neg hempty]
        dsimp only
        simp only [KeyStep.shrink, hlen, Bool.false_eq_true, if_false]
        rfl

/-- Nothing is left to take out of an absent key. -/
theorem zremLoop_none : ∀ (args : List Bytes) (w : World) (removed : Nat), db < w.engine.databases.length →
    w.engine.entryAt db key = none →
    ∃ w', (zremLoop db key (args.map .fromBytes) removed).run (World.step ω) w = (.ok (count removed), w') ∧
      w'.engine.entryAt db key = none
  | [], w, removed, _, hent => ⟨w, rfl, hent⟩
  | member :: args, w, removed, hdb, hent => by
      obtain ⟨w₁, hstep, hlen, hent₁⟩ := reach_zrem_none (ω := ω) hdb hent member
      obtain ⟨w', hrun, hent'⟩ := zremLoop_none args w₁ removed (by omega) hent₁
      refine ⟨w', ?_, hent'⟩
      rw [zremLoop_cons, run_need hstep]
      exact hrun

/-- Nor out of a set that has none of the members. -/
theorem zremLoop_missing {z : SkipList} {t : Option Instant} (hz : z.Built) :
    ∀ (args : List Bytes) (w : World) (removed : Nat), (∀ member ∈ args, z.getScore member = none) →
      w.engine.entryAt db key = some ⟨.sortedSet z, t⟩ →
      ∃ w', (zremLoop db key (args.map .fromBytes) removed).run (World.step ω) w = (.ok (count removed), w') ∧
        w'.engine.entryAt db key = some ⟨.sortedSet z, t⟩
  | [], w, removed, _, hent => ⟨w, rfl, hent⟩
  | member :: args, w, removed, hmissing, hent => by
      have hhead := hmissing member List.mem_cons_self
      obtain ⟨w₁, hstep, -, hent₁⟩ := reach_zrem_some (ω := ω) hz hent member
      rw [hhead] at hstep hent₁
      obtain ⟨w', hrun, hent'⟩ := zremLoop_missing hz args w₁ removed
        (fun m hm => hmissing m (List.mem_cons_of_mem _ hm)) (hent₁.trans (if_pos rfl))
      refine ⟨w', ?_, hent'⟩
      rw [zremLoop_cons, run_need hstep]
      exact hrun

/-- A member is taken out whose score is a NaN. -/
def TakesNaN (z : SkipList) (args : List Bytes) : Prop :=
  ∃ member ∈ args, ∃ score, z.getScore member = some score ∧ score.isNaN = true

theorem takesNaN_cons_none {z : SkipList} {member : Bytes} (hold : z.getScore member = none) (args : List Bytes) :
    TakesNaN z (member :: args) ↔ TakesNaN z args := by
  unfold TakesNaN
  rw [List.exists_mem_cons_iff, hold]
  exact or_iff_right fun ⟨score, h, _⟩ => nomatch h

/-- The members behind one that is taken out are looked up in what is left. -/
theorem takesNaN_cons_some {z z₁ : SkipList} {member : Bytes} {old : Float64} (hold : z.getScore member = some old)
    (hscores : z₁.getScore = fun k => if k = member then none else z.getScore k) (args : List Bytes) :
    TakesNaN z (member :: args) ↔ TakesNaN z₁ args ∨ old.isNaN = true := by
  have hself : (∃ score, z.getScore member = some score ∧ score.isNaN = true) ↔ old.isNaN = true := by
    rw [hold]
    constructor
    · rintro ⟨_, ⟨⟩, hnan⟩
      exact hnan
    · exact fun hnan => ⟨old, rfl, hnan⟩
  unfold TakesNaN
  rw [List.exists_mem_cons_iff, hself, or_comm]
  refine or_congr_left' fun hnum => exists_congr fun m => and_congr_right fun _ => ?_
  rw [hscores]
  dsimp only
  by_cases hm : m = member
  · rw [if_pos hm, hm, hold]
    refine iff_of_false ?_ fun ⟨score, h, _⟩ => nomatch h
    rintro ⟨_, ⟨⟩, hnan⟩
    exact hnum hnan
  · rw [if_neg hm]

/-- The loop on a set with elements: what it counts exceeds the loss by the members whose
score was a NaN. -/
theorem zremLoop_counts : ∀ (args : List Bytes) (w : World) (z : SkipList) (t : Option Instant) (removed : Nat),
    z.Built → z.len ≠ 0 → w.engine.entryAt db key = some ⟨.sortedSet z, t⟩ →
    ∃ n w', (zremLoop db key (args.map .fromBytes) removed).run (World.step ω) w = (.ok (count n), w') ∧
      (w'.engine.entryAt db key = none ↔ cardinality (w'.engine.entryAt db key) = 0) ∧
      z.len + removed ≤ cardinality (w'.engine.entryAt db key) + n ∧
      (z.len + removed = cardinality (w'.engine.entryAt db key) + n ↔ ¬ TakesNaN z args)
  | [], w, z, t, removed, _, hne, hent => by
      refine ⟨removed, w, rfl, ?_⟩
      rw [hent]
      exact ⟨iff_of_false nofun hne, Nat.le_refl _, iff_of_true rfl fun ⟨m, hm, _⟩ => nomatch hm⟩
  | member :: args, w, z, t, removed, hz, hne, hent => by
      obtain ⟨w₁, hstep, hdbs, hent₁⟩ := reach_zrem_some (ω := ω) hz hent member
      obtain ⟨-, hscores, -, hlen⟩ := SkipList.remove_len hz member
      have hz₁ := hz.remove member
      rw [zremLoop_cons, run_need hstep]
      generalize (z.remove member).2 = z₁ at hent₁ hscores hlen hz₁
      cases hold : z.getScore member with
      | none =>
          rw [hold] at hent₁
          obtain ⟨n, w', hrun, hgone, hle, hiff⟩ := zremLoop_counts args w₁ z t removed hz hne
            (hent₁.trans (if_pos rfl))
          refine ⟨n, w', hrun, hgone, hle, ?_⟩
          rw [hiff, takesNaN_cons_none hold]
      | some old =>
          rw [if_neg (by rw [hold]; exact nofun)] at hent₁
          replace hlen := hlen old hold
          rw [takesNaN_cons_some hold hscores]
          by_cases hempty : z₁.len = 0
          · -- the last node goes, which was that of a number
            rw [if_pos hempty] at hent₁
            obtain ⟨w', hrun, hent'⟩ := zremLoop_none (ω := ω) args w₁ (removed + 1)
              (by rw [hdbs]; exact Engine.lt_of_entryAt hent) hent₁
            have hnum : old.isNaN = false := by
              cases hnan : old.isNaN with
              | false => rfl
              | true =>
                  rw [hnan, if_pos rfl] at hlen
                  omega
            rw [hnum, if_neg Bool.false_ne_true] at hlen
            have hnone : ¬ TakesNaN z₁ args := by
              rintro ⟨m, -, score, hscore, -⟩
              rw [SkipList.getScore_of_len_zero hempty] at hscore
              cases hscore
            refine ⟨removed + 1, w', hrun, ?_⟩
            rw [hent', hnum]
            refine ⟨iff_of_true rfl rfl, ?_, iff_of_true ?_ ?_⟩
            · change z.len + removed ≤ 0 + (removed + 1)
              omega
            · change z.len + removed = 0 + (removed + 1)
              omega
            · exact fun h => h.elim hnone Bool.false_ne_true
          · rw [if_neg hempty] at hent₁
            obtain ⟨n, w', hrun, hgone, hle, hiff⟩ := zremLoop_counts args w₁ z₁ t (removed + 1) hz₁ hempty hent₁
            refine ⟨n, w', hrun, hgone, ?_⟩
            cases hnan : old.isNaN with
            | true =>
                rw [hnan, if_pos rfl] at hlen
                exact ⟨by omega, iff_of_false (by omega) fun h => h (.inr rfl)⟩
            | false =>
                rw [hnan, if_neg Bool.false_ne_true] at hlen
                rw [or_iff_left Bool.false_ne_true, ← hiff]
                exact ⟨by omega, by omega⟩

theorem program_zrem (hne : args ≠ []) :
    CountedCommand.zrem.program db key args = zremLoop db key (args.map .fromBytes) 0 := by
  obtain ⟨arg, rest, rfl⟩ := List.exists_cons_of_ne_nil hne
  rfl

/-- Where the first operation fails, no number is answered. -/
theorem zremLoop_vacuous {member : Bytes}
    (hfails : ∃ e w₁, World.step ω _ (.key db key (.zrem member)) w = (.err e, w₁)) {P : Int → World → Prop} :
    ∀ n w', (zremLoop db key ((member :: args).map .fromBytes) 0).run (World.step ω) w =
      (.ok (.integer n), w') → P n w' := by
  obtain ⟨e, w₁, hstep⟩ := hfails
  intro n w' hrun
  rw [zremLoop_cons, Prog.bind_eq, need, Prog.run_perform_bind, hstep] at hrun
  cases hrun

theorem zremLoop_exact_stored {z : SkipList} {t : Option Instant} (hz : z.Built)
    (hent : w.engine.entryAt db key = some ⟨.sortedSet z, t⟩) :
    (∀ n w', (zremLoop db key (args.map .fromBytes) 0).run (World.step ω) w = (.ok (.integer n), w') →
      CountExact false (some ⟨.sortedSet z, t⟩) (w'.engine.entryAt db key) n) ↔
      ¬ (z.len = 0 ∨ TakesNaN z args) := by
  by_cases hempty : z.len = 0
  · -- the key of an empty set stays
    obtain ⟨w', hrun, hent'⟩ := zremLoop_missing (ω := ω) hz args w 0
      (fun member _ => SkipList.getScore_of_len_zero hempty member) hent
    refine iff_of_false (fun h => ?_) fun h => h (.inl hempty)
    have hgone := (h _ w' hrun).gone
    rw [hent'] at hgone
    cases hgone.mpr hempty
  · obtain ⟨n, w', hrun, hgone, -, hiff⟩ := zremLoop_counts (ω := ω) args w z t 0 hz hempty hent
    rw [or_iff_right hempty, ← hiff, hrun]
    constructor
    · intro h
      have hchange := (h n w' rfl).change
      rw [if_neg Bool.false_ne_true] at hchange
      change (n : Int) = (z.len : Int) - cardinality (w'.engine.entryAt db key) at hchange
      omega
    · rintro hcount _ _ ⟨⟩
      refine ⟨?_, hgone⟩
      rw [if_neg Bool.false_ne_true]
      change (n : Int) = (z.len : Int) - cardinality (w'.engine.entryAt db key)
      omega

theorem changes_zrem (hbuilt : w.engine.ZsetsBuilt) :
    CountsChange ω w db key .zrem args ↔ ¬ Miscounts w.engine db key args .zrem := by
  by_cases hne : args = []
  · subst hne
    exact iff_of_true (counts_nil .zrem) fun h => h.1 rfl
  have hprogram := @program_zrem db key args hne
  unfold CountsChange
  rw [hprogram]
  obtain ⟨member, args, rfl⟩ := List.exists_cons_of_ne_nil hne
  by_cases hdb : db < w.engine.databases.length
  swap
  · refine iff_of_true (zremLoop_vacuous ⟨_, _, World.step_missing hdb _⟩) ?_
    rintro ⟨-, z, t, hent, -⟩
    exact hdb (Engine.lt_of_entryAt hent)
  cases hent : w.engine.entryAt db key with
  | none =>
      obtain ⟨w', hrun, hent'⟩ := zremLoop_none (ω := ω) (member :: args) w 0 hdb hent
      refine iff_of_true ?_ ?_
      · rw [hrun]
        rintro _ _ ⟨⟩
        rw [hent']
        exact ⟨rfl, iff_of_true rfl rfl⟩
      · rintro ⟨-, z, t, hsome, -⟩
        rw [hent] at hsome
        cases hsome
  | some sv =>
      obtain ⟨v, t⟩ := sv
      by_cases hzset : ∃ z, v = .sortedSet z
      · obtain ⟨z, rfl⟩ := hzset
        refine (zremLoop_exact_stored (hbuilt db key z t hent) hent).trans (not_congr ?_)
        constructor
        · exact fun h => ⟨hne, z, t, hent, h⟩
        · rintro ⟨-, z', t', hsome, h⟩
          rw [hent] at hsome
          cases hsome
          exact h
      · have hother : ∀ z, StoredValue.value ⟨v, t⟩ ≠ .sortedSet z := fun z hz => hzset ⟨z, hz⟩
        refine iff_of_true (zremLoop_vacuous ⟨.storage .wrongType, World.step_fails hdb ?_⟩) ?_
        · rw [hent]
          simp only [KeyCmd.step, KeyOps.zrem, KeyOps.onZset_other hother]
          rfl
        · rintro ⟨-, z, t', hsome, -⟩
          rw [hent] at hsome
          cases hsome
          exact hzset ⟨z, rfl⟩

end Counts

/-- Whatever the state and the arguments are, the number a command answers with is the
change of the cardinality, and the key is gone exactly if no element is left, unless HSET
makes a new hash of repeated fields or a sorted set is asked for a member whose score is a
NaN, or has no node to begin with. -/
theorem counts_change_iff (ω : Nat → Ctx) {w : World} (hbuilt : w.engine.ZsetsBuilt) (db : Nat) (key : Key)
    (c : CountedCommand) (args : List Bytes) :
    CountsChange ω w db key c args ↔ ¬ Miscounts w.engine db key args c := by
  cases c with
  | sadd => exact iff_of_true changes_sadd id
  | hset => exact changes_hset
  | zadd => exact changes_zadd hbuilt
  | srem => exact iff_of_true changes_srem id
  | hdel => exact iff_of_true changes_hdel id
  | zrem => exact changes_zrem hbuilt

/-- ZREM of a member and of what is none, from a sorted set that keeps another. -/
theorem counts_stored_member :
    CountsChange (fun _ => .at 0) ⟨scoredStore, 0⟩ 0 "z".toBytes .zrem ["a".toBytes, "c".toBytes] := by
  refine (counts_change_iff (w := ⟨scoredStore, 0⟩) _ scoredStore_built _ _ _ _).mpr ?_
  rintro ⟨-, z, t, hz, hbad⟩
  obtain ⟨rfl, rfl⟩ : z = scoredSet ∧ t = none := by
    rw [scoredStore_entry] at hz
    cases hz
    exact ⟨rfl, rfl⟩
  have hscores : scoredSet.getScore "a".toBytes = some ⟨0⟩ ∧ scoredSet.getScore "c".toBytes = none := ⟨rfl, rfl⟩
  rcases hbad with hempty | ⟨member, hmem, score, hscore, hnan⟩
  · cases hempty
  · rw [List.mem_pair] at hmem
    rcases hmem with rfl | rfl
    · rw [hscores.1] at hscore
      cases hscore
      cases hnan
    · rw [hscores.2] at hscore
      cases hscore

/-- A store in which nothing is. -/
def bare : World := ⟨Engine.withConfig 16 .unlimited, 0⟩

theorem bare_entryAt (db : Nat) (key : Key) : bare.engine.entryAt db key = none := Engine.entryAt_withConfig ..

/-- HSET of one field twice answers 2. -/
theorem counts_one_field_twice : bare.engine.ZsetsBuilt ∧ ¬ CountsChange (fun _ => .at 0) bare 0 "h".toBytes .hset
    ["f".toBytes, "1".toBytes, "f".toBytes, "2".toBytes] :=
  ⟨.withConfig 16 .unlimited, fun h => changes_hset.mp h ⟨by decide, bare_entryAt .., rfl, by decide⟩⟩

end Ferrous
