/-
# `Commands.AgreedCommands` — the commands on which both paths agree

One lemma for each command of the engine's own: the handler of the network, given the text
arguments that were parsed, calls what the executor calls.
-/
import Ferrous.Commands.Agreement

namespace Ferrous

open Lib Args Unified

namespace Agree

open CommandParser (map_ok keyOnly_ok keyAndBytes_ok allBytes_ok keyAndBytesList_ok keyAndPairs_ok keyAndRange_ok
  keyTimeAndBytes_ok)

variable {checks : Bool} {db : Nat} {γ : Type} {name : String} {wrap : γ → Unified.Command}
  {handler : Parts → StoreProg RespFrame}

/-! ## Shapes -/

theorem of_keyOnly {make : Key → γ}
    (h : ∀ a k : String, ¬ Departs db [a, k] (wrap (make k.toBytes)) →
      Prog.Lockstep Alike (Executor.executeCommand checks none (some db) (wrap (make k.toBytes)))
        (handler (texts [a, k]))) :
    Agree checks db (fun ps => (CommandParser.keyOnly name make ps).map wrap) handler := by
  intro args command hparse hdeparts
  obtain ⟨c, hc, rfl⟩ := map_ok hparse
  obtain ⟨a, k, rfl, rfl⟩ := keyOnly_ok hc
  exact h a k hdeparts

theorem of_keyAndBytes {make : Key → Bytes → γ}
    (h : ∀ a k v : String, ¬ Departs db [a, k, v] (wrap (make k.toBytes v.toBytes)) →
      Prog.Lockstep Alike (Executor.executeCommand checks none (some db) (wrap (make k.toBytes v.toBytes)))
        (handler (texts [a, k, v]))) :
    Agree checks db (fun ps => (CommandParser.keyAndBytes name make ps).map wrap) handler := by
  intro args command hparse hdeparts
  obtain ⟨c, hc, rfl⟩ := map_ok hparse
  obtain ⟨a, k, v, rfl, rfl⟩ := keyAndBytes_ok hc
  exact h a k v hdeparts

theorem of_allBytes {make : List Bytes → γ}
    (h : ∀ (a k : String) (rest : List String),
      Prog.Lockstep Alike (Executor.executeCommand checks none (some db) (wrap (make (bytesOf (k :: rest)))))
        (handler (texts (a :: k :: rest)))) :
    Agree checks db (fun ps => (CommandParser.allBytes name make ps).map wrap) handler := by
  intro args command hparse _
  obtain ⟨c, hc, rfl⟩ := map_ok hparse
  obtain ⟨a, k, rest, rfl, rfl⟩ := allBytes_ok hc
  exact h a k rest

theorem of_keyAndBytesList {make : Key → List Bytes → γ}
    (h : ∀ (a k v : String) (rest : List String),
      Prog.Lockstep Alike
        (Executor.executeCommand checks none (some db) (wrap (make k.toBytes (bytesOf (v :: rest)))))
        (handler (texts (a :: k :: v :: rest)))) :
    Agree checks db (fun ps => (CommandParser.keyAndBytesList name make ps).map wrap) handler := by
  intro args command hparse _
  obtain ⟨c, hc, rfl⟩ := map_ok hparse
  obtain ⟨a, k, v, rest, rfl, rfl⟩ := keyAndBytesList_ok hc
  exact h a k v rest

theorem of_keyAndPairs {make : Key → List (Bytes × Bytes) → γ}
    (h : ∀ (a k : String) (rest : List String), 2 ≤ rest.length → rest.length % 2 = 0 →
      Prog.Lockstep Alike
        (Executor.executeCommand checks none (some db) (wrap (make k.toBytes (CommandParser.pairsOf rest))))
        (handler (texts (a :: k :: rest)))) :
    Agree checks db (fun ps => (CommandParser.keyAndPairs name make ps).map wrap) handler := by
  intro args command hparse _
  obtain ⟨c, hc, rfl⟩ := map_ok hparse
  obtain ⟨a, k, rest, rfl, hlen, heven, rfl⟩ := keyAndPairs_ok hc
  exact h a k rest hlen heven

theorem of_keyAndRange {make : Key → Int → Int → γ}
    (h : ∀ (a k s t : String) (m n : Int), parseI64 s = some m → parseI64 t = some n →
      Prog.Lockstep Alike (Executor.executeCommand checks none (some db) (wrap (make k.toBytes m n)))
        (handler (texts [a, k, s, t]))) :
    Agree checks db (fun ps => (CommandParser.keyAndRange name make ps).map wrap) handler := by
  intro args command hparse _
  obtain ⟨c, hc, rfl⟩ := map_ok hparse
  obtain ⟨a, k, s, t, m, n, rfl, hm, hn, rfl⟩ := keyAndRange_ok hc
  exact h a k s t m n hm hn

theorem of_keyTimeAndBytes {make : Key → Bytes → Nat → γ}
    (h : ∀ (a k t v : String) (n : Nat), parseU64 t = some n →
      Prog.Lockstep Alike (Executor.executeCommand checks none (some db) (wrap (make k.toBytes v.toBytes n)))
        (handler (texts [a, k, t, v]))) :
    Agree checks db (fun ps => (CommandParser.keyTimeAndBytes name make ps).map wrap) handler := by
  intro args command hparse _
  obtain ⟨c, hc, rfl⟩ := map_ok hparse
  obtain ⟨a, k, t, v, n, rfl, hn, rfl⟩ := keyTimeAndBytes_ok hc
  exact h a k t v n hn

/-- A command whose only argument is the key, and whose handler does one operation. -/
theorem of_keyed {α : Type} {make : Key → γ} {c : KeyCmd α} {render : α → RespFrame} {cmd : String}
    {onError : OnError}
    (h : ∀ key, Executor.executeCommand checks none (some db) (wrap (make key)) = onKey .raise db key c render) :
    Agree checks db (fun ps => (CommandParser.keyOnly name make ps).map wrap) (keyed cmd onError c render db) :=
  of_keyOnly fun _ _ _ => by
    rw [h]
    exact lockstep_onKey onError db _ c render

/-! ## Strings -/

theorem get : Agree checks db (fun ps => (CommandParser.parseGet ps).map .string) (handleGet db) :=
  of_keyOnly fun a k hkey => by
    have hne : ¬ k.toBytes.isEmpty = true := fun h => hkey (List.isEmpty_iff.mp h)
    have harg : nonEmptyKey (texts [a, k]) 1 = .ok k.toBytes := by
      show (if k.toBytes.isEmpty = true then reject _ else .ok k.toBytes) = _
      rw [if_neg hne]
    refine lockstep_of_eq ?_
    show _ = reading (nonEmptyKey (texts [a, k]) 1) _
    rw [harg]
    rfl

theorem strlen : Agree checks db (fun ps => (CommandParser.parseStrlen ps).map .string) (handleStrlen db) :=
  of_keyed fun _ => rfl

theorem append : Agree checks db (fun ps => (CommandParser.parseAppend ps).map .string) (handleAppend db) :=
  of_keyAndBytes fun _ _ _ _ => lockstep_onKey .reply db _ _ _

theorem setex : Agree checks db (fun ps => (CommandParser.parseSetex ps).map .string) (handleSetex db) :=
  of_keyTimeAndBytes fun a k t v n hn => by
    refine lockstep_of_eq ?_
    simp only [handleSetex, setWithExpiry, nat_text (texts [a, k, t, v]) 2 rfl hn]
    rfl

theorem getset : Agree checks db (fun ps => (CommandParser.parseGetset ps).map .string) (handleGetset db) :=
  of_keyAndBytes fun _ _ _ _ => lockstep_of_eq rfl

theorem getrange : Agree checks db (fun ps => (CommandParser.parseGetrange ps).map .string) (handleGetrange db) :=
  of_keyAndRange fun a k s t m n hm hn => by
    simp only [handleGetrange, int_text (texts [a, k, s, t]) 2 rfl hm,
      int_text (texts [a, k, s, t]) 3 rfl hn]
    exact lockstep_onKey .reply db _ _ _

theorem psetex : Agree checks db (fun ps => (CommandParser.parsePsetex ps).map .string) (handlePsetex db) :=
  of_keyTimeAndBytes fun a k t v n hn => by
    refine lockstep_of_eq ?_
    simp only [handlePsetex, setWithExpiry, nat_text (texts [a, k, t, v]) 2 rfl hn]
    rfl

/-! ## Lists and sets -/

/-- The check of a least number of parts. -/
theorem arity_le {cmd : String} {n m : Nat} (h : n ≤ m) : arity cmd (decide (n ≤ m)) = .ok () :=
  if_pos (decide_eq_true h)

theorem keyAndAll_texts (cmd what a k v : String) (rest : List String) :
    keyAndAll cmd what (texts (a :: k :: v :: rest)) = .ok (k.toBytes, bytesOf (v :: rest)) := by
  have harity : arity cmd (decide (3 ≤ (texts (a :: k :: v :: rest)).length)) = .ok () :=
    arity_le (by simp [texts])
  have hall := bulks_texts what (v :: rest)
  unfold keyAndAll
  rw [harity]
  show (bulks what (texts (v :: rest)) >>= fun values => Except.ok (k.toBytes, values)) = _
  rw [hall]
  rfl

theorem keyAndSome_texts (cmd a k v : String) (rest : List String) :
    keyAndSome cmd (texts (a :: k :: v :: rest)) = .ok (k.toBytes, bytesOf (v :: rest)) := by
  have harity : arity cmd (decide (3 ≤ (texts (a :: k :: v :: rest)).length)) = .ok () :=
    arity_le (by simp [texts])
  unfold keyAndSome
  rw [harity]
  show Except.ok (k.toBytes, (texts (v :: rest)).filterMap RespFrame.bulk?) = _
  rw [filterMap_bulk?_texts]

/-- A command on a key and all the values behind it. -/
theorem of_keyAndAll {make : Key → List Bytes → γ} {α : Type} {c : List Bytes → KeyCmd α}
    {render : α → RespFrame}
    {cmd what : String} {onError : OnError}
    (hexec : ∀ key values, Executor.executeCommand checks none (some db) (wrap (make key values)) =
      onKey .raise db key (c values) render)
    (hhandler : ∀ parts, handler parts = reading (keyAndAll cmd what parts) fun p =>
      onKey onError db p.1 (c p.2) render) :
    Agree checks db (fun ps => (CommandParser.keyAndBytesList name make ps).map wrap) handler :=
  of_keyAndBytesList fun a k v rest => by
    rw [hexec, hhandler, keyAndAll_texts]
    exact lockstep_onKey onError db _ _ render

@[inherit_doc of_keyAndAll]
theorem of_keyAndSome {make : Key → List Bytes → γ} {α : Type} {c : List Bytes → KeyCmd α}
    {render : α → RespFrame}
    {cmd : String} {onError : OnError}
    (hexec : ∀ key values, Executor.executeCommand checks none (some db) (wrap (make key values)) =
      onKey .raise db key (c values) render)
    (hhandler : ∀ parts, handler parts = reading (keyAndSome cmd parts) fun p =>
      onKey onError db p.1 (c p.2) render) :
    Agree checks db (fun ps => (CommandParser.keyAndBytesList name make ps).map wrap) handler :=
  of_keyAndBytesList fun a k v rest => by
    rw [hexec, hhandler, keyAndSome_texts]
    exact lockstep_onKey onError db _ _ render

theorem lpush : Agree checks db (fun ps => (CommandParser.parseLpush ps).map .list) (handleLpush db) :=
  of_keyAndAll (fun _ _ => rfl) fun _ => rfl

theorem rpush : Agree checks db (fun ps => (CommandParser.parseRpush ps).map .list) (handleRpush db) :=
  of_keyAndAll (fun _ _ => rfl) fun _ => rfl

theorem lpop : Agree checks db (fun ps => (CommandParser.parseLpop ps).map .list) (handleLpop db) :=
  of_keyed fun _ => rfl

theorem rpop : Agree checks db (fun ps => (CommandParser.parseRpop ps).map .list) (handleRpop db) :=
  of_keyed fun _ => rfl

theorem llen : Agree checks db (fun ps => (CommandParser.parseLlen ps).map .list) (handleLlen db) :=
  of_keyed fun _ => rfl

theorem lindex : Agree checks db (fun ps => (CommandParser.parseLindex ps).map .list) (handleLindex db) := by
  intro args command hparse _
  obtain ⟨c, hc, rfl⟩ := map_ok hparse
  rcases args with _ | ⟨a, _ | ⟨k, _ | ⟨i, _ | ⟨x, args⟩⟩⟩⟩
  case cons.cons.cons.nil =>
    obtain ⟨n, hn, hc⟩ := bind_ok hc
    cases hc
    simp only [handleLindex, int_text (texts [a, k, i]) 2 rfl (CommandParser.extractI64_ok hn)]
    exact lockstep_onKey .reply db _ _ _
  all_goals cases hc

theorem lset : Agree checks db (fun ps => (CommandParser.parseLset ps).map .list) (handleLset db) := by
  intro args command hparse _
  obtain ⟨c, hc, rfl⟩ := map_ok hparse
  rcases args with _ | ⟨a, _ | ⟨k, _ | ⟨i, _ | ⟨v, _ | ⟨x, args⟩⟩⟩⟩⟩
  case cons.cons.cons.cons.nil =>
    obtain ⟨n, hn, hc⟩ := bind_ok hc
    cases hc
    simp only [handleLset, int_text (texts [a, k, i, v]) 2 rfl (CommandParser.extractI64_ok hn)]
    exact lockstep_onKey .reply db _ _ _
  all_goals cases hc

theorem lrange : Agree checks db (fun ps => (CommandParser.parseLrange ps).map .list) (handleLrange db) :=
  of_keyAndRange fun a k s t m n hm hn => by
    simp only [handleLrange, Ferrous.keyAndRange, int_text (texts [a, k, s, t]) 2 rfl hm,
      int_text (texts [a, k, s, t]) 3 rfl hn]
    exact lockstep_onKey .reply db _ _ _

theorem ltrim : Agree checks db (fun ps => (CommandParser.parseLtrim ps).map .list) (handleLtrim db) :=
  of_keyAndRange fun a k s t m n hm hn => by
    simp only [handleLtrim, Ferrous.keyAndRange, int_text (texts [a, k, s, t]) 2 rfl hm,
      int_text (texts [a, k, s, t]) 3 rfl hn]
    exact lockstep_onKey .reply db _ _ _

theorem lrem : Agree checks db (fun ps => (CommandParser.parseLrem ps).map .list) (handleLrem db) := by
  intro args command hparse _
  obtain ⟨c, hc, rfl⟩ := map_ok hparse
  rcases args with _ | ⟨a, _ | ⟨k, _ | ⟨i, _ | ⟨v, _ | ⟨x, args⟩⟩⟩⟩⟩
  case cons.cons.cons.cons.nil =>
    obtain ⟨n, hn, hc⟩ := bind_ok hc
    cases hc
    simp only [handleLrem, int_text (texts [a, k, i, v]) 2 rfl (CommandParser.extractI64_ok hn)]
    exact lockstep_onKey .reply db _ _ _
  all_goals cases hc

theorem sadd : Agree checks db (fun ps => (CommandParser.parseSadd ps).map .set) (handleSadd db) :=
  of_keyAndAll (fun _ _ => rfl) fun _ => rfl

theorem srem : Agree checks db (fun ps => (CommandParser.parseSrem ps).map .set) (handleSrem db) :=
  of_keyAndSome (fun _ _ => rfl) fun _ => rfl

theorem smembers : Agree checks db (fun ps => (CommandParser.parseSmembers ps).map .set) (handleSmembers db) :=
  of_keyed fun _ => rfl

theorem scard : Agree checks db (fun ps => (CommandParser.parseScard ps).map .set) (handleScard db) :=
  of_keyed fun _ => rfl

theorem sismember : Agree checks db (fun ps => (CommandParser.parseSismember ps).map .set) (handleSismember db) :=
  of_keyAndBytes fun _ _ _ _ => lockstep_onKey .reply db _ _ _

/-- SUNION, SINTER and SDIFF. -/
theorem combined {make : List Bytes → γ} {cmd : String} {c : Nat → List Key → StoreCmd (List Bytes)}
    (hexec : ∀ keys, Executor.executeCommand checks none (some db) (wrap (make keys)) =
      calling .raise (.store (c db keys)) items) :
    Agree checks db (fun ps => (CommandParser.allBytes name make ps).map wrap) (combining cmd c db) :=
  of_allBytes fun a k rest => by
    have harity : arity cmd (decide (2 ≤ (texts (a :: k :: rest)).length)) = .ok () := arity_le (by simp [texts])
    have hargs : (do
        arity cmd (decide (2 ≤ (texts (a :: k :: rest)).length))
        bulks "key" ((texts (a :: k :: rest)).drop 1)) = Except.ok (bytesOf (k :: rest)) := by
      rw [harity]
      exact bulks_texts "key" (k :: rest)
    rw [hexec]
    unfold combining
    rw [hargs]
    exact lockstep_calling .reply _ items

theorem sunion : Agree checks db (fun ps => (CommandParser.parseSunion ps).map .set) (handleSunion db) :=
  combined fun _ => rfl

theorem sinter : Agree checks db (fun ps => (CommandParser.parseSinter ps).map .set) (handleSinter db) :=
  combined fun _ => rfl

theorem sdiff : Agree checks db (fun ps => (CommandParser.parseSdiff ps).map .set) (handleSdiff db) :=
  combined fun _ => rfl

/-- A draw of another number than one comes as an array. -/
theorem drawn_of_ne_one {n : Int} (h : n ≠ 1) : Executor.drawn n = items := by
  funext members
  cases members with
  | nil => rfl
  | cons m ms => exact if_neg h

theorem srandmember :
    Agree checks db (fun ps => (CommandParser.parseSrandmember ps).map .set) (handleSrandmember db) := by
  intro args command hparse hone
  obtain ⟨c, hc, rfl⟩ := map_ok hparse
  rcases args with _ | ⟨a, _ | ⟨k, _ | ⟨i, _ | ⟨x, args⟩⟩⟩⟩
  case cons.cons.nil =>
    cases hc
    exact absurd rfl hone
  case cons.cons.cons.nil =>
    obtain ⟨n, hn, hc⟩ := bind_ok hc
    cases hc
    simp only [handleSrandmember, int_text (texts [a, k, i]) 2 rfl (CommandParser.extractI64_ok hn)]
    show Prog.Lockstep Alike (onKey .raise db k.toBytes (.srandmember n) (Executor.drawn n)) _
    have hne : n ≠ 1 := hone
    rw [drawn_of_ne_one hne]
    exact lockstep_onKey .reply db _ _ _
  all_goals cases hc

theorem spop : Agree checks db (fun ps => (CommandParser.parseSpop ps).map .set) (handleSpop db) := by
  intro args command hparse hone
  obtain ⟨c, hc, rfl⟩ := map_ok hparse
  rcases args with _ | ⟨a, _ | ⟨k, _ | ⟨i, _ | ⟨x, args⟩⟩⟩⟩
  case cons.cons.nil =>
    cases hc
    exact absurd rfl hone
  case cons.cons.cons.nil =>
    obtain ⟨n, hn, hc⟩ := bind_ok hc
    cases hc
    have hne : (n : Int) ≠ 1 := fun h => hone (by exact_mod_cast h)
    simp only [handleSpop, nat_text (texts [a, k, i]) 2 rfl (CommandParser.extractUsize_ok hn)]
    show Prog.Lockstep Alike (onKey .raise db k.toBytes (.spop n) (Executor.drawn n)) _
    rw [drawn_of_ne_one hne]
    exact lockstep_onKey .reply db _ _ _
  all_goals cases hc

/-! ## Hashes -/

/-- HSET and HMSET. -/
theorem fieldsSet {make : Key → List (Bytes × Bytes) → γ} {cmd : String} {render : Nat → RespFrame}
    (hexec : ∀ key fvs, Executor.executeCommand checks none (some db) (wrap (make key fvs)) =
      onKey .raise db key (.hset fvs) render) :
    Agree checks db (fun ps => (CommandParser.keyAndPairs name make ps).map wrap) (settingFields cmd render db) :=
  of_keyAndPairs fun a k rest hlen heven => by
    have harity : arity cmd (decide (4 ≤ (texts (a :: k :: rest)).length) &&
        ((texts (a :: k :: rest)).length - 2) % 2 == 0) = .ok () := by
      refine if_pos ?_
      simp only [texts, List.map_cons, List.length_cons, List.length_map, Bool.and_eq_true, decide_eq_true_eq,
        beq_iff_eq]
      omega
    have hfields : fieldValues ((texts (a :: k :: rest)).drop 2) = .ok (CommandParser.pairsOf rest) :=
      CommandParser.fieldValues_texts rest
    rw [hexec]
    unfold settingFields
    rw [harity, hfields]
    exact lockstep_onKey .reply db _ _ render

theorem hset : Agree checks db (fun ps => (CommandParser.parseHset ps).map .hash) (handleHset db) :=
  fieldsSet fun _ _ => rfl

theorem hmset : Agree checks db (fun ps => (CommandParser.parseHmset ps).map .hash) (handleHmset db) :=
  fieldsSet fun _ _ => rfl

theorem hget : Agree checks db (fun ps => (CommandParser.parseHget ps).map .hash) (handleHget db) :=
  of_keyAndBytes fun _ _ _ _ => lockstep_onKey .reply db _ _ _

theorem hmget : Agree checks db (fun ps => (CommandParser.parseHmget ps).map .hash) (handleHmget db) :=
  of_keyAndAll (fun _ _ => rfl) fun _ => rfl

/-- The frames of pairs are those of their halves in turn. -/
theorem list_pairFrames (pairs : List (Bytes × Bytes)) :
    RespFrame.list (Executor.pairFrames pairs) = items (pairs.flatMap fun p => [p.1, p.2]) := by
  unfold items Executor.pairFrames
  rw [List.map_flatMap]
  rfl

theorem hgetall : Agree checks db (fun ps => (CommandParser.parseHgetall ps).map .hash) (handleHgetall db) :=
  of_keyed fun key => congrArg (onKey .raise db key .hgetall) (funext list_pairFrames)

theorem hdel : Agree checks db (fun ps => (CommandParser.parseHdel ps).map .hash) (handleHdel db) :=
  of_keyAndSome (fun _ _ => rfl) fun _ => rfl

theorem hlen : Agree checks db (fun ps => (CommandParser.parseHlen ps).map .hash) (handleHlen db) :=
  of_keyed fun _ => rfl

theorem hexists : Agree checks db (fun ps => (CommandParser.parseHexists ps).map .hash) (handleHexists db) :=
  of_keyAndBytes fun _ _ _ _ => lockstep_onKey .reply db _ _ _

theorem hkeys : Agree checks db (fun ps => (CommandParser.parseHkeys ps).map .hash) (handleHkeys db) :=
  of_keyed fun _ => rfl

theorem hvals : Agree checks db (fun ps => (CommandParser.parseHvals ps).map .hash) (handleHvals db) :=
  of_keyed fun _ => rfl

theorem hincrby :
    Agree checks db (fun ps => (CommandParser.parseHincrby ps).map fun c => .hash (.counter c)) (handleHincrby db) := by
  intro args command hparse _
  obtain ⟨c, hc, rfl⟩ := map_ok hparse
  rcases args with _ | ⟨a, _ | ⟨k, _ | ⟨f, _ | ⟨i, _ | ⟨x, args⟩⟩⟩⟩⟩
  case cons.cons.cons.cons.nil =>
    obtain ⟨n, hn, hc⟩ := bind_ok hc
    cases hc
    simp only [handleHincrby, int_text (texts [a, k, f, i]) 3 rfl (CommandParser.extractI64_ok hn)]
    exact lockstep_onKey .reply db _ _ _
  all_goals cases hc

/-! ## Sorted sets -/

/-- Scores and members in turn: every score is a number. -/
theorem extractScores_cons {s m : String} {rest : List String} {sms : List (Float64 × Bytes)}
    (h : CommandParser.extractScores (texts (s :: m :: rest)) = .ok sms) :
    ∃ x rest', Float64.parse s = some x ∧ CommandParser.extractScores (texts rest) = .ok rest' ∧
      sms = (x, m.toBytes) :: rest' := by
  obtain ⟨x, hx, h⟩ := bind_ok h
  obtain ⟨member, hmember, h⟩ := bind_ok h
  obtain ⟨rest', hrest, h⟩ := bind_ok h
  cases hmember
  cases h
  exact ⟨x, rest', CommandParser.extractF64_ok hx, hrest, rfl⟩

/-- The loops of ZADD: the one goes on with numbers, the other reads them as it goes. -/
theorem zaddLoop_texts (key : Key) : ∀ (args : List String) (sms : List (Float64 × Bytes)) (added : Nat),
    CommandParser.extractScores (texts args) = .ok sms →
      Executor.addLoop db key sms added = zaddLoop db key (texts args) added
  | [], sms, added, h => by
      cases h
      rfl
  | [_], sms, added, h => by
      cases h
      rfl
  | s :: m :: rest, sms, added, h => by
      obtain ⟨x, rest', hx, hrest, rfl⟩ := extractScores_cons h
      have harg : Args.float notFloat [.fromString s] 0 "score" = .ok x := float_text _ _ rfl hx _ _
      simp only [texts, List.map_cons, zaddLoop, harg, Executor.addLoop]
      refine congrArg (need (.key db key (.zadd m.toBytes x)) >>= ·) (funext fun new => ?_)
      exact zaddLoop_texts key rest rest' _ hrest

theorem zadd : Agree checks db (fun ps => (CommandParser.parseZadd ps).map .sortedSet) (handleZadd db) := by
  intro args command hparse _
  obtain ⟨c, hc, rfl⟩ := map_ok hparse
  unfold CommandParser.parseZadd at hc
  split at hc
  · cases hc
  · next hlen =>
      rcases args with _ | ⟨a, _ | ⟨k, rest⟩⟩
      · cases hc
      · cases hc
      · obtain ⟨key, hkey, hc⟩ := bind_ok hc
        obtain ⟨sms, hsms, hc⟩ := bind_ok hc
        cases hkey
        cases hc
        have harity : arity "zadd" (decide (4 ≤ (texts (a :: k :: rest)).length) &&
            (texts (a :: k :: rest)).length % 2 == 0) = .ok () := by
          refine if_pos ?_
          simp only [not_or, not_lt, not_not] at hlen
          simp only [Bool.and_eq_true, decide_eq_true_eq, beq_iff_eq]
          exact hlen
        unfold handleZadd
        rw [harity]
        exact lockstep_of_eq (zaddLoop_texts k.toBytes rest sms 0 hsms)

theorem zremLoop_texts (key : Key) : ∀ (args : List String) (removed : Nat),
    Executor.remLoop db key (bytesOf args) removed = zremLoop db key (texts args) removed
  | [], _ => rfl
  | m :: rest, _ =>
      congrArg (need (.key db key (.zrem m.toBytes)) >>= ·) (funext fun _ => zremLoop_texts key rest _)

theorem zrem : Agree checks db (fun ps => (CommandParser.parseZrem ps).map .sortedSet) (handleZrem db) :=
  of_keyAndBytesList fun a k m rest => by
    have harity : arity "zrem" (decide (3 ≤ (texts (a :: k :: m :: rest)).length)) = .ok () :=
      arity_le (by simp [texts])
    unfold handleZrem
    rw [harity]
    exact lockstep_of_eq (zremLoop_texts k.toBytes (m :: rest) 0)

theorem zscore : Agree checks db (fun ps => (CommandParser.parseZscore ps).map .sortedSet) (handleZscore db) :=
  of_keyAndBytes fun _ _ _ _ => lockstep_of_eq rfl

theorem zcard : Agree checks db (fun ps => (CommandParser.parseZcard ps).map .sortedSet) (handleZcard db) :=
  of_keyed fun _ => rfl

theorem zrank : Agree checks db (fun ps => (CommandParser.parseZrank ps).map .sortedSet) (handleZrank db) :=
  of_keyAndBytes fun _ _ _ _ => lockstep_of_eq rfl

theorem zrevrank : Agree checks db (fun ps => (CommandParser.parseZrevrank ps).map .sortedSet) (handleZrevrank db) :=
  of_keyAndBytes fun _ _ _ _ => lockstep_of_eq rfl

/-- The option behind a range, as both read it. -/
theorem withScores_texts {a k s t : String} {options : List String} {b : Bool} (hlen : ¬ 1 < options.length)
    (h : CommandParser.extractWithScores (texts options) = .ok b) :
    withScores (texts (a :: k :: s :: t :: options)) = b := by
  rcases options with _ | ⟨w, _ | ⟨x, rest⟩⟩
  · cases h
    rfl
  · simp only [texts, List.map_cons, List.map_nil, CommandParser.extractWithScores,
      CommandParser.extractString_text] at h
    cases h
    show (true && word? (.fromString w) == some "WITHSCORES") = _
    rw [word?_text]
    rfl
  · exact absurd (by simp) hlen

/-- The number of parts of a range. -/
theorem arity_range {cmd a k s t : String} {options : List String} (hlen : ¬ 1 < options.length) :
    arity cmd (decide (4 ≤ (texts (a :: k :: s :: t :: options)).length) &&
      decide ((texts (a :: k :: s :: t :: options)).length ≤ 5)) = .ok () := by
  refine if_pos ?_
  simp only [texts, List.map_cons, List.length_cons, List.length_map, Bool.and_eq_true, decide_eq_true_eq]
  omega

/-- ZRANGE and ZREVRANGE. -/
theorem rangeByIndex_texts {cmd a k s t : String} {options : List String} {m n : Int} {b reverse : Bool}
    (hlen : ¬ 1 < (texts options).length) (hm : CommandParser.extractI64 (.fromString s) = .ok m)
    (hn : CommandParser.extractI64 (.fromString t) = .ok n)
    (hscores : CommandParser.extractWithScores (texts options) = .ok b) :
    onKey .raise db k.toBytes (.zrange m n reverse) (memberFrames b) =
      rangeByIndex cmd reverse db (texts (a :: k :: s :: t :: options)) := by
  rw [texts, List.length_map] at hlen
  unfold rangeByIndex
  rw [arity_range hlen, withScores_texts hlen hscores,
    int_text (texts (a :: k :: s :: t :: options)) 2 rfl (CommandParser.extractI64_ok hm),
    int_text (texts (a :: k :: s :: t :: options)) 3 rfl (CommandParser.extractI64_ok hn)]
  rfl

theorem zrange :
    Agree checks db (fun ps => (CommandParser.parseZrange ps).map fun c => .sortedSet (.ranged c)) (handleZrange db) := by
  intro args command hparse _
  obtain ⟨c, hc, rfl⟩ := map_ok hparse
  rcases args with _ | ⟨a, _ | ⟨k, _ | ⟨s, _ | ⟨t, options⟩⟩⟩⟩
  case cons.cons.cons.cons =>
    simp only [texts, List.map_cons, CommandParser.parseZrange] at hc
    split at hc
    · cases hc
    · next hlen =>
        obtain ⟨m, hm, hc⟩ := bind_ok hc
        obtain ⟨n, hn, hc⟩ := bind_ok hc
        obtain ⟨b, hb, hc⟩ := bind_ok hc
        cases hc
        exact lockstep_of_eq (rangeByIndex_texts hlen hm hn hb)
  all_goals cases hc

theorem zrevrange :
    Agree checks db (fun ps => (CommandParser.parseZrevrange ps).map .sortedSet) (handleZrevrange db) := by
  intro args command hparse _
  obtain ⟨c, hc, rfl⟩ := map_ok hparse
  rcases args with _ | ⟨a, _ | ⟨k, _ | ⟨s, _ | ⟨t, options⟩⟩⟩⟩
  case cons.cons.cons.cons =>
    simp only [texts, List.map_cons, CommandParser.parseZrevrange] at hc
    split at hc
    · cases hc
    · next hlen =>
        obtain ⟨m, hm, hc⟩ := bind_ok hc
        obtain ⟨n, hn, hc⟩ := bind_ok hc
        obtain ⟨b, hb, hc⟩ := bind_ok hc
        cases hc
        exact lockstep_of_eq (rangeByIndex_texts hlen hm hn hb)
  all_goals cases hc

theorem zrangebyscore :
    Agree checks db (fun ps => (CommandParser.parseZrangebyscore ps).map fun c => .sortedSet (.ranged c))
      (handleZrangebyscore db) := by
  intro args command hparse _
  obtain ⟨c, hc, rfl⟩ := map_ok hparse
  rcases args with _ | ⟨a, _ | ⟨k, _ | ⟨s, _ | ⟨t, options⟩⟩⟩⟩
  case cons.cons.cons.cons =>
    simp only [texts, List.map_cons, CommandParser.parseZrangebyscore] at hc
    split at hc
    · cases hc
    · next hlen =>
        obtain ⟨x, hx, hc⟩ := bind_ok hc
        obtain ⟨y, hy, hc⟩ := bind_ok hc
        obtain ⟨b, hb, hc⟩ := bind_ok hc
        cases hc
        rw [List.length_map] at hlen
        refine lockstep_of_eq ?_
        unfold handleZrangebyscore
        rw [arity_range hlen, withScores_texts hlen hb,
          float_text (texts (a :: k :: s :: t :: options)) 2 rfl (CommandParser.extractF64_ok hx),
          float_text (texts (a :: k :: s :: t :: options)) 3 rfl (CommandParser.extractF64_ok hy)]
        rfl
  all_goals cases hc

theorem zrevrangebyscore :
    Agree checks db (fun ps => (CommandParser.parseZrevrangebyscore ps).map .sortedSet)
      (handleZrevrangebyscore db) := by
  intro args command hparse _
  obtain ⟨c, hc, rfl⟩ := map_ok hparse
  rcases args with _ | ⟨a, _ | ⟨k, _ | ⟨s, _ | ⟨t, options⟩⟩⟩⟩
  case cons.cons.cons.cons =>
    simp only [texts, List.map_cons, CommandParser.parseZrevrangebyscore] at hc
    split at hc
    · cases hc
    · next hlen =>
        obtain ⟨x, hx, hc⟩ := bind_ok hc
        obtain ⟨y, hy, hc⟩ := bind_ok hc
        obtain ⟨b, hb, hc⟩ := bind_ok hc
        cases hc
        rw [List.length_map] at hlen
        refine lockstep_of_eq ?_
        unfold handleZrevrangebyscore
        rw [arity_range hlen, withScores_texts hlen hb,
          float_text (texts (a :: k :: s :: t :: options)) 2 rfl (CommandParser.extractF64_ok hx),
          float_text (texts (a :: k :: s :: t :: options)) 3 rfl (CommandParser.extractF64_ok hy)]
        rfl
  all_goals cases hc

theorem zcount : Agree checks db (fun ps => (CommandParser.parseZcount ps).map .sortedSet) (handleZcount db) := by
  intro args command hparse _
  obtain ⟨c, hc, rfl⟩ := map_ok hparse
  rcases args with _ | ⟨a, _ | ⟨k, _ | ⟨s, _ | ⟨t, _ | ⟨x, args⟩⟩⟩⟩⟩
  case cons.cons.cons.cons.nil =>
    obtain ⟨x, hx, hc⟩ := bind_ok hc
    obtain ⟨y, hy, hc⟩ := bind_ok hc
    cases hc
    refine lockstep_of_eq ?_
    simp only [handleZcount,
      float_text (texts [a, k, s, t]) 2 rfl (CommandParser.extractF64_ok hx),
      float_text (texts [a, k, s, t]) 3 rfl (CommandParser.extractF64_ok hy)]
    rfl
  all_goals cases hc

theorem zincrby : Agree checks db (fun ps => (CommandParser.parseZincrby ps).map .sortedSet) (handleZincrby db) := by
  intro args command hparse _
  obtain ⟨c, hc, rfl⟩ := map_ok hparse
  rcases args with _ | ⟨a, _ | ⟨k, _ | ⟨s, _ | ⟨t, _ | ⟨x, args⟩⟩⟩⟩⟩
  case cons.cons.cons.cons.nil =>
    obtain ⟨x, hx, hc⟩ := bind_ok hc
    cases hc
    refine lockstep_of_eq ?_
    simp only [handleZincrby, float_text (texts [a, k, s, t]) 2 rfl (CommandParser.extractF64_ok hx)]
    rfl
  all_goals cases hc

/-! ## Several keys -/

theorem map_fromBytes_bytesOf (args : List String) : (bytesOf args).map RespFrame.fromBytes = texts args := by
  unfold bytesOf texts
  rw [List.map_map]
  rfl

theorem mget : Agree checks db (fun ps => (CommandParser.parseMget ps).map .string) (handleMget db) :=
  of_allBytes fun a k rest => by
    refine lockstep_of_eq ?_
    show handleMget db (.fromString "MGET" :: (bytesOf (k :: rest)).map .fromBytes) = _
    rw [map_fromBytes_bytesOf]
    rfl

/-- Pairs of texts come out as they went in. -/
theorem pairFrames_pairsOf : ∀ args : List String, args.length % 2 = 0 →
    Executor.pairFrames (CommandParser.pairsOf args) = texts args
  | [], _ => rfl
  | [_], h => absurd h (by simp)
  | f :: v :: rest, h => by
      have hrest := pairFrames_pairsOf rest (by
        simp only [List.length_cons] at h
        omega)
      show [RespFrame.fromString f, .fromString v] ++ Executor.pairFrames (CommandParser.pairsOf rest) = _
      rw [hrest]
      rfl

theorem mset : Agree checks db (fun ps => (CommandParser.parseMset ps).map .string) (handleMset db) := by
  intro args command hparse _
  obtain ⟨c, hc, rfl⟩ := map_ok hparse
  unfold CommandParser.parseMset at hc
  split at hc
  · cases hc
  · next hlen =>
      rcases args with _ | ⟨a, rest⟩
      · exact absurd (Or.inr rfl) hlen
      · rw [show (texts (a :: rest)).drop 1 = texts rest from rfl, CommandParser.extractPairs_texts] at hc
        cases hc
        have heven : rest.length % 2 = 0 := by
          simp only [texts, List.map_cons, List.length_cons, List.length_map] at hlen
          omega
        refine lockstep_of_eq ?_
        show handleMset db (.fromString "MSET" :: Executor.pairFrames (CommandParser.pairsOf rest)) = _
        rw [pairFrames_pairsOf rest heven]
        rfl

theorem countKeys_texts (c : KeyCmd Bool) : ∀ (args : List String) (n : Nat),
    Executor.countLoop c db (bytesOf args) n = countKeys c db (texts args) n
  | [], _ => rfl
  | k :: rest, _ => congrArg (need (.key db k.toBytes c) >>= ·) (funext fun _ => countKeys_texts c rest _)

theorem del : Agree checks db (fun ps => (CommandParser.parseDel ps).map .string) (handleDel db) :=
  of_allBytes fun a k rest => by
    unfold handleDel
    rw [arity_le (by simp [texts])]
    exact lockstep_of_eq (countKeys_texts .delete (k :: rest) 0)

theorem exists? : Agree checks db (fun ps => (CommandParser.parseExists ps).map .key) (handleExists db) :=
  of_allBytes fun a k rest => by
    unfold handleExists
    rw [arity_le (by simp [texts])]
    exact lockstep_of_eq (countKeys_texts .exists? (k :: rest) 0)

/-! ## SET and SETRANGE -/

/-- What the options ask for stays asked for. -/
theorem setLoop_keeps : ∀ (args : List String) {o o' : Unified.SetOptions},
    CommandParser.setLoop (texts args) o = .ok o' →
      (o.get = true → o'.get = true) ∧ (o.keepttl = true → o'.keepttl = true)
  | [], o, o', h => by
      cases h
      exact ⟨id, id⟩
  | w :: rest, o, o', h => by
      rw [texts, List.map_cons, CommandParser.setLoop.eq_def] at h
      simp only [CommandParser.extractWord_text, bind, Except.bind] at h
      split at h
      · exact ⟨(setLoop_keeps rest h).1, (setLoop_keeps rest h).2⟩
      · exact ⟨(setLoop_keeps rest h).1, (setLoop_keeps rest h).2⟩
      · exact ⟨fun _ => (setLoop_keeps rest h).1 rfl, (setLoop_keeps rest h).2⟩
      · rcases rest with _ | ⟨t, rest⟩
        · cases h
        · obtain ⟨n, -, h⟩ := bind_ok h
          exact ⟨(setLoop_keeps rest h).1, (setLoop_keeps rest h).2⟩
      · rcases rest with _ | ⟨t, rest⟩
        · cases h
        · obtain ⟨n, -, h⟩ := bind_ok h
          exact ⟨(setLoop_keeps rest h).1, (setLoop_keeps rest h).2⟩
      · exact ⟨(setLoop_keeps rest h).1, fun _ => (setLoop_keeps rest h).2 rfl⟩
      · cases h

/-- The options of SET as the handler reads them, if none is missing there. -/
theorem setOptions_texts : ∀ (args : List String) {o o' : Unified.SetOptions},
    CommandParser.setLoop (texts args) o = .ok o' → o'.get = false → o'.keepttl = false →
      setOptions (texts args) ⟨o.expiration, o.nx, o.xx⟩ = .ok ⟨o'.expiration, o'.nx, o'.xx⟩
  | [], o, o', h, _, _ => by
      cases h
      rfl
  | w :: rest, o, o', h, hget, hkeep => by
      rw [texts, List.map_cons, CommandParser.setLoop.eq_def] at h
      simp only [CommandParser.extractWord_text, bind, Except.bind] at h
      rw [texts, List.map_cons, setOptions.eq_def]
      simp only [word?_text]
      split at h
      · next hw =>
          simp only [hw, if_true, String.reduceEq, if_false]
          exact setOptions_texts rest h hget hkeep
      · next hw =>
          simp only [hw, if_true, String.reduceEq, if_false]
          exact setOptions_texts rest h hget hkeep
      · exact absurd ((setLoop_keeps rest h).1 rfl) (by simp [hget])
      · next hw =>
          rcases rest with _ | ⟨t, rest⟩
          · cases h
          · obtain ⟨n, hn, h⟩ := bind_ok h
            have htime : expireTime (.fromString t) = some n := by
              show (fromUtf8 t.toBytes).bind parseU64 = some n
              rw [fromUtf8_toBytes]
              exact CommandParser.extractUsize_ok hn
            simp only [hw, if_true, List.map_cons, htime]
            exact setOptions_texts rest h hget hkeep
      · next hw =>
          rcases rest with _ | ⟨t, rest⟩
          · cases h
          · obtain ⟨n, hn, h⟩ := bind_ok h
            have htime : expireTime (.fromString t) = some n := by
              show (fromUtf8 t.toBytes).bind parseU64 = some n
              rw [fromUtf8_toBytes]
              exact CommandParser.extractUsize_ok hn
            simp only [hw, if_true, String.reduceEq, if_false, List.map_cons, htime]
            exact setOptions_texts rest h hget hkeep
      · exact absurd ((setLoop_keeps rest h).2 rfl) (by simp [hkeep])
      · cases h

/-- Without GET, and with at most one of NX and XX, the executor does what the handler does. -/
theorem lockstep_executeSet {key value : Bytes} {o : Unified.SetOptions} (hget : o.get = false)
    (hboth : ¬ (o.nx = true ∧ o.xx = true)) :
    Prog.Lockstep Alike (Executor.executeSet db key value o)
      (if o.nx then
        match o.expiration with
        | some d => onKey .raise db key (.setStringNxEx value d) fun b => if b then .ok else .nullBulk
        | none => onKey .raise db key (.setStringNx value) fun b => if b then .ok else .nullBulk
      else if o.xx then do
        let there ← need (.key db key .exists?)
        if there then onKey .raise db key (setString value o.expiration) fun _ => .ok
        else return .nullBulk
      else onKey .raise db key (setString value o.expiration) fun _ => .ok) := by
  obtain ⟨nx, xx, get, expiration, keepttl⟩ := o
  dsimp only at hget hboth
  subst hget
  cases nx with
  | true =>
      cases xx with
      | true => exact absurd ⟨rfl, rfl⟩ hboth
      | false =>
          cases expiration with
          | some d =>
              refine .call _ fun r => ?_
              cases r with
              | ok b => cases b <;> exact .ret rfl
              | error e => exact .fail rfl
          | none =>
              refine .call _ fun r => ?_
              cases r with
              | ok b => cases b <;> exact .ret rfl
              | error e => exact .fail rfl
  | false =>
      cases xx with
      | true =>
          refine .call _ fun r => ?_
          cases r with
          | error e => exact .fail rfl
          | ok there =>
              cases there with
              | false => exact .ret rfl
              | true =>
                  refine .call _ fun r => ?_
                  cases r with
                  | ok b => exact .ret rfl
                  | error e => exact .fail rfl
      | false =>
          refine .call _ fun r => ?_
          cases r with
          | ok b => exact .ret rfl
          | error e => exact .fail rfl

theorem set : Agree checks db (fun ps => (CommandParser.parseSet ps).map .string) (handleSet db) := by
  intro args command hparse hdeparts
  obtain ⟨c, hc, rfl⟩ := map_ok hparse
  rcases args with _ | ⟨a, _ | ⟨k, _ | ⟨v, rest⟩⟩⟩
  case cons.cons.cons =>
    obtain ⟨key, hkey, hc⟩ := bind_ok hc
    obtain ⟨value, hvalue, hc⟩ := bind_ok hc
    obtain ⟨o, ho, hc⟩ := bind_ok hc
    cases hkey
    cases hvalue
    cases hc
    have hne : ¬ k.toBytes.isEmpty = true := fun h => hdeparts (.inl (List.isEmpty_iff.mp h))
    have hget : o.get = false := Bool.eq_false_iff.mpr fun h => hdeparts (.inr (.inl h))
    have hkeep : o.keepttl = false := Bool.eq_false_iff.mpr fun h => hdeparts (.inr (.inr (.inl h)))
    have hboth : ¬ (o.nx = true ∧ o.xx = true) := fun h => hdeparts (.inr (.inr (.inr h)))
    have harity : arity "set" (decide (3 ≤ (texts (a :: k :: v :: rest)).length)) = .ok () :=
      arity_le (by simp [texts])
    have hkey : nonEmptyKey (texts (a :: k :: v :: rest)) 1 = .ok k.toBytes := by
      show (if k.toBytes.isEmpty = true then reject _ else .ok k.toBytes) = _
      rw [if_neg hne]
    have hopts : setOptions ((texts (a :: k :: v :: rest)).drop 3) {} = .ok ⟨o.expiration, o.nx, o.xx⟩ :=
      setOptions_texts rest ho hget hkeep
    unfold handleSet
    rw [harity, hkey, hopts]
    exact lockstep_executeSet hget hboth
  all_goals cases hc

theorem setrange : Agree checks db (fun ps => (CommandParser.parseSetrange ps).map .string) (handleSetrange db) := by
  intro args command hparse _
  obtain ⟨c, hc, rfl⟩ := map_ok hparse
  rcases args with _ | ⟨a, _ | ⟨k, _ | ⟨i, _ | ⟨v, _ | ⟨x, args⟩⟩⟩⟩⟩
  case cons.cons.cons.cons.nil =>
    obtain ⟨n, hn, hc⟩ := bind_ok hc
    cases hc
    simp only [handleSetrange, nat_text (texts [a, k, i, v]) 2 rfl (CommandParser.extractUsize_ok hn)]
    exact lockstep_onKey .reply db _ _ _
  all_goals cases hc

/-! ## Counters -/

theorem nonEmptyKey_texts {a k : String} {rest : List String} (h : k.toBytes ≠ []) :
    nonEmptyKey (texts (a :: k :: rest)) 1 = .ok k.toBytes := by
  show (if k.toBytes.isEmpty = true then reject _ else .ok k.toBytes) = _
  rw [if_neg fun hempty => h (List.isEmpty_iff.mp hempty)]

theorem incr :
    Agree checks db (fun ps => (CommandParser.parseIncr ps).map fun c => .string (.counter c)) (handleIncr db) := by
  intro args command hparse hdeparts
  obtain ⟨c, hc, rfl⟩ := map_ok hparse
  rcases args with _ | ⟨a, _ | ⟨k, _ | ⟨x, args⟩⟩⟩
  case cons.cons.nil =>
    cases hc
    unfold handleIncr stepBy
    rw [nonEmptyKey_texts hdeparts]
    exact lockstep_onKey .replyText db _ _ _
  all_goals cases hc

theorem decr :
    Agree checks db (fun ps => (CommandParser.parseDecr ps).map fun c => .string (.counter c)) (handleDecr db) := by
  intro args command hparse _
  obtain ⟨c, hc, rfl⟩ := map_ok hparse
  rcases args with _ | ⟨a, _ | ⟨k, _ | ⟨x, args⟩⟩⟩
  case cons.cons.nil =>
    cases hc
    exact lockstep_onKey .replyText db _ _ _
  all_goals cases hc

theorem incrby :
    Agree checks db (fun ps => (CommandParser.parseIncrby ps).map fun c => .string (.counter c)) (handleIncrby db) := by
  intro args command hparse hdeparts
  obtain ⟨c, hc, rfl⟩ := map_ok hparse
  rcases args with _ | ⟨a, _ | ⟨k, _ | ⟨i, _ | ⟨x, args⟩⟩⟩⟩
  case cons.cons.cons.nil =>
    obtain ⟨n, hn, hc⟩ := bind_ok hc
    cases hc
    unfold handleIncrby
    rw [nonEmptyKey_texts hdeparts, int_text (texts [a, k, i]) 2 rfl (CommandParser.extractI64_ok hn)]
    exact lockstep_onKey .replyText db _ _ _
  all_goals cases hc

theorem decrby :
    Agree checks db (fun ps => (CommandParser.parseDecrby ps).map fun c => .string (.counter c))
      (handleDecrby checks db) := by
  intro args command hparse _
  obtain ⟨c, hc, rfl⟩ := map_ok hparse
  rcases args with _ | ⟨a, _ | ⟨k, _ | ⟨i, _ | ⟨x, args⟩⟩⟩⟩
  case cons.cons.cons.nil =>
    obtain ⟨n, hn, hc⟩ := bind_ok hc
    cases hc
    unfold handleDecrby
    rw [int_text (texts [a, k, i]) 2 rfl (CommandParser.extractI64_ok hn)]
    show Prog.Lockstep Alike (if checks && decide (n = -2 ^ 63) then .panic
      else onKey .raise db k.toBytes (.incrBy (wrapI64 (-n))) .integer)
      (if checks && decide (n = -2 ^ 63) then .panic
        else onKey .replyText db k.toBytes (.incrBy (wrapI64 (-n))) .integer)
    split
    · exact .panic rfl
    · exact lockstep_onKey .replyText db _ _ _
  all_goals cases hc

/-! ## Keys, the server and databases -/

/-- A number without a sign is read alike where it fits. -/
theorem parseI64_of_parseU64 {s : String} {n : Nat} (h : parseU64 s = some n) (hn : n < 2 ^ 63) :
    parseI64 s = some n := by
  unfold parseU64 at h
  unfold parseI64
  split at h
  all_goals
    obtain ⟨hread, -⟩ := Option.filter_eq_some_iff.mp h
  · next cs hcs =>
      simp only [hcs, hread, Option.filter_some, hn, decide_true, if_true]
      rfl
  · next cs hcs =>
      split
      · next cs' hcs' =>
          rw [hcs'] at hread
          exact absurd hread (by simp [readDigits, digitsValue])
      · next cs' hcs' => exact absurd hcs' (hcs cs')
      · simp only [hread, Option.filter_some, hn, decide_true, if_true]
        rfl

theorem expire : Agree checks db (fun ps => (CommandParser.parseExpire ps).map .key) (handleExpire db) := by
  intro args command hparse hdeparts
  obtain ⟨c, hc, rfl⟩ := map_ok hparse
  rcases args with _ | ⟨a, _ | ⟨k, _ | ⟨i, _ | ⟨x, args⟩⟩⟩⟩
  case cons.cons.cons.nil =>
    obtain ⟨key, hkey, hc⟩ := bind_ok hc
    obtain ⟨n, hn, hc⟩ := bind_ok hc
    cases hkey
    cases hc
    have hpos : n ≠ 0 := fun h => hdeparts (.inl h)
    have hlt : n < 2 ^ 63 := Nat.lt_of_not_le fun h => hdeparts (.inr h)
    unfold handleExpire
    rw [int_text (texts [a, k, i]) 2 rfl
      (parseI64_of_parseU64 (CommandParser.extractUsize_ok hn) hlt)]
    show Prog.Lockstep Alike (onKey .raise db k.toBytes (.expire (fromSecs n)) .flag)
      (if (n : Int) ≤ 0 then _ else onKey .raise db k.toBytes (.expire (fromSecs (n : Int).toNat)) .flag)
    rw [if_neg (by omega), Int.toNat_natCast]
    exact lockstep_of_eq rfl
  all_goals cases hc

theorem pexpire : Agree checks db (fun ps => (CommandParser.parsePexpire ps).map .key) (handlePexpire db) := by
  intro args command hparse _
  obtain ⟨c, hc, rfl⟩ := map_ok hparse
  rcases args with _ | ⟨a, _ | ⟨k, _ | ⟨i, _ | ⟨x, args⟩⟩⟩⟩
  case cons.cons.cons.nil =>
    obtain ⟨key, hkey, hc⟩ := bind_ok hc
    obtain ⟨n, hn, hc⟩ := bind_ok hc
    cases hkey
    cases hc
    unfold handlePexpire
    rw [nat_text (texts [a, k, i]) 2 rfl (CommandParser.extractUsize_ok hn)]
    exact lockstep_of_eq rfl
  all_goals cases hc

theorem pttl : Agree checks db (fun ps => (CommandParser.parsePttl ps).map .key) (handlePttl db) :=
  of_keyed fun _ => rfl

theorem persist : Agree checks db (fun ps => (CommandParser.parsePersist ps).map .key) (handlePersist db) :=
  of_keyed fun _ => rfl

theorem rename : Agree checks db (fun ps => (CommandParser.parseRename ps).map .key) (handleRename db) :=
  of_keyAndBytes fun _ _ _ _ => lockstep_of_eq rfl

/-- The frames of a single argument. -/
theorem singleton_of_length {args : List String} (h : ¬ args.length ≠ 1) : ∃ a, args = [a] :=
  List.length_eq_one_iff.mp (not_not.mp h)

theorem randomkey : Agree checks db (fun _ => .ok (.key .randomKey)) (handleRandomkey db) := by
  intro args command hparse hdeparts
  cases hparse
  obtain ⟨a, rfl⟩ := singleton_of_length hdeparts
  exact lockstep_of_eq rfl

theorem ping : Agree checks db (fun ps => (CommandParser.parsePing ps).map .server) fun ps => .ret (handlePing ps) := by
  intro args command hparse hdeparts
  obtain ⟨c, hc, rfl⟩ := map_ok hparse
  rcases args with _ | ⟨a, _ | ⟨m, _ | ⟨x, args⟩⟩⟩
  case cons.nil =>
    cases hc
    exact absurd trivial hdeparts
  case cons.cons.nil =>
    cases hc
    exact lockstep_of_eq rfl
  all_goals cases hc

theorem echo : Agree checks db (fun ps => (CommandParser.parseEcho ps).map .server) fun ps => .ret (handleEcho ps) :=
  of_keyOnly fun _ _ _ => lockstep_of_eq rfl

theorem flushdb : Agree checks db (fun _ => .ok (.database .flushDb)) (handleFlushdb db) := by
  intro args command hparse hdeparts
  cases hparse
  obtain ⟨hdb, hlen⟩ := not_or.mp hdeparts
  obtain ⟨a, rfl⟩ := singleton_of_length hlen
  rw [not_not.mp hdb]
  exact lockstep_calling .replyErr (.store (.flushDb 0)) fun _ => .ok

/-- An error ends both loops over the databases. -/
theorem flushLoop_texts : ∀ db n : Nat, Prog.Lockstep Alike (Executor.flushLoop db n) (flushFrom db n)
  | _, 0 => .ret rfl
  | db, n + 1 => by
      refine .call _ fun r => ?_
      cases r with
      | ok u => exact flushLoop_texts (db + 1) n
      | error e => exact .fail_ret rfl

theorem flushall : Agree checks db (fun _ => .ok (.database .flushAll)) handleFlushall := by
  intro args command hparse hdeparts
  cases hparse
  obtain ⟨a, rfl⟩ := singleton_of_length hdeparts
  exact lockstep_need fun n => flushLoop_texts 0 n

theorem dbsize : Agree checks db (fun _ => .ok (.database .dbSize)) (handleDbsize db) := by
  intro args command hparse hdeparts
  cases hparse
  obtain ⟨hdb, hlen⟩ := not_or.mp hdeparts
  obtain ⟨a, rfl⟩ := singleton_of_length hlen
  rw [not_not.mp hdb]
  exact lockstep_of_eq rfl

theorem keys : Agree checks db (fun ps => (CommandParser.parseKeysCmd ps).map .database) (handleKeys db) :=
  of_keyOnly fun a k hdb => by
    rw [not_not.mp hdb]
    exact lockstep_of_eq rfl

end Agree

end Ferrous
