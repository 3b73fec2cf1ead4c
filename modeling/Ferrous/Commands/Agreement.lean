/-
# `Commands.Agreement` — a script's command against the network's

What the command parser accepts of text arguments is carried out by the executor with the
same operations as by the handler of the network, and ends alike: with the same reply, or
with a failure on both sides.  `Departs` lists the commands of which this is not true: where
the handler refuses something, reads an option the executor loses, renders a reply
otherwise, or calls the engine in other steps.
-/
import Ferrous.Commands.TypedExecution

namespace Ferrous

open Lib Args Unified

/-! ## Alike -/

/-- How a command ends, whatever a failure says. -/
def verdict : Outcome RespFrame → Lib.Outcome Unit RespFrame
  | .ok (.error _) => .err ()
  | .ok f => .ok f
  | .err _ => .err ()
  | .panic => .panic

/-- The two end with the same reply, or both fail. -/
def Alike (a b : Outcome RespFrame) : Prop := verdict a = verdict b

theorem Alike.refl (a : Outcome RespFrame) : Alike a a := rfl

section Programs

variable {α β : Type}

/-- The same program. -/
theorem lockstep_of_eq {p q : StoreProg RespFrame} (h : p = q) : Prog.Lockstep Alike p q :=
  h ▸ .refl Alike.refl p

/-- A handler may render an error the executor passes on. -/
theorem lockstep_calling (onError : OnError) (op : Op α) (render : α → RespFrame) :
    Prog.Lockstep Alike (calling .raise op render) (calling onError op render) := by
  refine .call op fun r => ?_
  cases r with
  | ok a => exact .ret rfl
  | error e =>
      cases hframe : onError.frame e with
      | none =>
          simp only [answering, hframe]
          exact .fail rfl
      | some reply =>
          have herr : Alike (.err e) (.ok reply) := by
            cases onError with
            | reply =>
                simp only [OnError.frame] at hframe
                split at hframe
                all_goals cases hframe
                all_goals rfl
            | replyErr | replyText =>
                cases hframe
                rfl
            | raise => cases hframe
          simp only [answering, hframe]
          exact .fail_ret herr

theorem lockstep_onKey (onError : OnError) (db : Nat) (key : Key) (c : KeyCmd α) (render : α → RespFrame) :
    Prog.Lockstep Alike (onKey .raise db key c render) (onKey onError db key c render) :=
  lockstep_calling onError _ render

/-- An operation whose error both pass on, and programs in lockstep behind it. -/
theorem lockstep_need {op : Op β} {f g : β → StoreProg RespFrame}
    (h : ∀ b, Prog.Lockstep Alike (f b) (g b)) : Prog.Lockstep Alike (need op >>= f) (need op >>= g) :=
  .perform (fun _ => rfl) h

end Programs

/-! ## Text arguments -/

/-- The frames of text arguments. -/
def texts (args : List String) : Parts := args.map .fromString

/-- The bytes of text arguments. -/
def bytesOf (args : List String) : List Bytes := args.map String.toBytes

section Texts

variable {s : String} {parts : Parts} {i : Nat}

theorem fromUtf8Lossy_toBytes (s : String) : fromUtf8Lossy s.toBytes = s :=
  fromUtf8Lossy_of_fromUtf8 (fromUtf8_toBytes s)

theorem int_text (parts : Parts) (i : Nat) {n : Int} (hpart : parts[i]? = some (.fromString s))
    (h : parseI64 s = some n) (what : String) :
    Args.int parts i what = .ok n :=
  numeral_of_text _ what hpart ((congrArg parseI64 (fromUtf8Lossy_toBytes s)).trans h)

theorem nat_text (parts : Parts) (i : Nat) {n : Nat} (hpart : parts[i]? = some (.fromString s))
    (h : parseU64 s = some n) (what : String) :
    Args.nat parts i what = .ok n :=
  numeral_of_text _ what hpart ((congrArg parseU64 (fromUtf8Lossy_toBytes s)).trans h)

theorem float_text (parts : Parts) (i : Nat) {x : Float64} (hpart : parts[i]? = some (.fromString s))
    (h : Float64.parse s = some x)
    (complaint what : String) : Args.float complaint parts i what = .ok x :=
  numeral_of_text _ what hpart ((congrArg Float64.parse (fromUtf8Lossy_toBytes s)).trans h)

theorem bulks_texts (what : String) : ∀ args : List String, bulks what (texts args) = .ok (bytesOf args)
  | [] => rfl
  | s :: args => by
      have hrest := bulks_texts what args
      simp only [texts, List.map_cons, bulks, RespFrame.fromString, RespFrame.bulk?] at hrest ⊢
      rw [hrest]
      rfl

theorem filterMap_bulk?_texts : ∀ args : List String, (texts args).filterMap RespFrame.bulk? = bytesOf args
  | [] => rfl
  | s :: args => congrArg (s.toBytes :: ·) (filterMap_bulk?_texts args)

theorem word?_text (s : String) : word? (.fromString s) = some (toUppercase s) :=
  congrArg (fun t => some (toUppercase t)) (fromUtf8Lossy_toBytes s)

end Texts

namespace CommandParser

variable {γ : Type} {s : String}

theorem extractString_text (s : String) : extractString (.fromString s) = .ok s :=
  extractString_of_text (fromUtf8_toBytes s)

theorem extractBytes_text (s : String) : extractBytes (.fromString s) = .ok s.toBytes := rfl

theorem extractWord_text (s : String) : extractWord (.fromString s) = .ok (toUppercase s) := by
  rw [extractWord, extractString_text]
  rfl

theorem extractI64_ok {n : Int} (h : extractI64 (.fromString s) = .ok n) : parseI64 s = some n := by
  unfold extractI64 at h
  rw [extractString_text] at h
  simp only [bind, Except.bind] at h
  split at h
  · next hn =>
      cases h
      exact hn
  · cases h

theorem extractUsize_ok {n : Nat} (h : extractUsize (.fromString s) = .ok n) : parseU64 s = some n := by
  unfold extractUsize at h
  rw [extractString_text] at h
  simp only [bind, Except.bind] at h
  split at h
  · next hn =>
      cases h
      exact hn
  · cases h

theorem extractF64_ok {x : Float64} (h : extractF64 (.fromString s) = .ok x) : Float64.parse s = some x := by
  unfold extractF64 at h
  rw [extractString_text] at h
  simp only [bind, Except.bind] at h
  split at h
  · next hn =>
      cases h
      exact hn
  · cases h

theorem mapM_extractBytes : ∀ args : List String, (texts args).mapM extractBytes = .ok (bytesOf args)
  | [] => rfl
  | s :: args => by
      rw [texts, List.map_cons, List.mapM_cons, extractBytes_text, ← texts, mapM_extractBytes args]
      rfl

theorem mapM_extractString : ∀ args : List String, (texts args).mapM extractString = .ok args
  | [] => rfl
  | s :: args => by
      rw [texts, List.map_cons, List.mapM_cons, extractString_text, ← texts, mapM_extractString args]
      rfl

/-- The typed command of a category comes from its parser. -/
theorem map_ok {δ : Type} {f : γ → δ} {x : Except FerrousError γ} {d : δ} (h : x.map f = .ok d) :
    ∃ c, x = .ok c ∧ f c = d := by
  cases x with
  | error e => cases h
  | ok c =>
      cases h
      exact ⟨c, rfl, rfl⟩

/-! ### Shapes -/

section Shapes

variable {name : String} {args : List String} {c : γ}

theorem keyOnly_ok {make : Key → γ} (h : keyOnly name make (texts args) = .ok c) :
    ∃ a k, args = [a, k] ∧ make k.toBytes = c := by
  rcases args with _ | ⟨a, _ | ⟨k, _ | ⟨x, args⟩⟩⟩
  all_goals cases h
  exact ⟨a, k, rfl, rfl⟩

theorem keyAndBytes_ok {make : Key → Bytes → γ} (h : keyAndBytes name make (texts args) = .ok c) :
    ∃ a k v, args = [a, k, v] ∧ make k.toBytes v.toBytes = c := by
  rcases args with _ | ⟨a, _ | ⟨k, _ | ⟨v, _ | ⟨x, args⟩⟩⟩⟩
  all_goals cases h
  exact ⟨a, k, v, rfl, rfl⟩

theorem allBytes_ok {make : List Bytes → γ} (h : allBytes name make (texts args) = .ok c) :
    ∃ a k rest, args = a :: k :: rest ∧ make (bytesOf (k :: rest)) = c := by
  rcases args with _ | ⟨a, _ | ⟨k, rest⟩⟩
  · cases h
  · cases h
  · have hall := mapM_extractBytes (k :: rest)
    simp only [texts, List.map_cons] at h hall
    simp only [allBytes, hall, bind, Except.bind] at h
    cases h
    exact ⟨a, k, rest, rfl, rfl⟩

theorem keyAndBytesList_ok {make : Key → List Bytes → γ} (h : keyAndBytesList name make (texts args) = .ok c) :
    ∃ a k v rest, args = a :: k :: v :: rest ∧ make k.toBytes (bytesOf (v :: rest)) = c := by
  rcases args with _ | ⟨a, _ | ⟨k, _ | ⟨v, rest⟩⟩⟩
  · cases h
  · cases h
  · cases h
  · have hall := mapM_extractBytes (v :: rest)
    simp only [texts, List.map_cons] at h hall
    simp only [keyAndBytesList, extractBytes_text, hall, bind, Except.bind] at h
    cases h
    exact ⟨a, k, v, rest, rfl, rfl⟩

/-- Texts in pairs, as bytes; a text without a partner is left out. -/
def pairsOf : List String → List (Bytes × Bytes)
  | f :: v :: rest => (f.toBytes, v.toBytes) :: pairsOf rest
  | _ => []

theorem extractPairs_texts : ∀ args : List String, extractPairs (texts args) = .ok (pairsOf args)
  | [] => rfl
  | [_] => rfl
  | f :: v :: rest => by
      have hrest := extractPairs_texts rest
      simp only [texts, List.map_cons, extractPairs, extractBytes_text, bind, Except.bind] at hrest ⊢
      rw [hrest]
      rfl

theorem fieldValues_texts : ∀ args : List String, fieldValues (texts args) = .ok (pairsOf args)
  | [] => rfl
  | [_] => rfl
  | f :: v :: rest => by
      have hrest := fieldValues_texts rest
      simp only [texts, List.map_cons, fieldValues, bind, Except.bind] at hrest ⊢
      rw [hrest]
      rfl

theorem keyAndPairs_ok {make : Key → List (Bytes × Bytes) → γ} (h : keyAndPairs name make (texts args) = .ok c) :
    ∃ a k rest, args = a :: k :: rest ∧ 2 ≤ rest.length ∧ rest.length % 2 = 0 ∧
      make k.toBytes (pairsOf rest) = c := by
  unfold keyAndPairs at h
  split at h
  · cases h
  · next hlen =>
      rcases args with _ | ⟨a, _ | ⟨k, rest⟩⟩
      · cases h
      · cases h
      · have hpairs := extractPairs_texts rest
        simp only [texts, List.map_cons, List.length_cons, List.length_map] at h hlen hpairs
        simp only [extractBytes_text, hpairs, bind, Except.bind] at h
        cases h
        exact ⟨a, k, rest, rfl, by omega, by omega, rfl⟩

theorem keyAndRange_ok {make : Key → Int → Int → γ} (h : CommandParser.keyAndRange name make (texts args) = .ok c) :
    ∃ a k s t m n, args = [a, k, s, t] ∧ parseI64 s = some m ∧ parseI64 t = some n ∧ make k.toBytes m n = c := by
  rcases args with _ | ⟨a, _ | ⟨k, _ | ⟨s, _ | ⟨t, _ | ⟨x, args⟩⟩⟩⟩⟩
  case cons.cons.cons.cons.nil =>
    obtain ⟨m, hm, h⟩ := bind_ok h
    obtain ⟨n, hn, h⟩ := bind_ok h
    cases h
    exact ⟨a, k, s, t, m, n, rfl, extractI64_ok hm, extractI64_ok hn, rfl⟩
  all_goals cases h

theorem keyTimeAndBytes_ok {make : Key → Bytes → Nat → γ} (h : keyTimeAndBytes name make (texts args) = .ok c) :
    ∃ a k t v n, args = [a, k, t, v] ∧ parseU64 t = some n ∧ make k.toBytes v.toBytes n = c := by
  rcases args with _ | ⟨a, _ | ⟨k, _ | ⟨t, _ | ⟨v, _ | ⟨x, args⟩⟩⟩⟩⟩
  case cons.cons.cons.cons.nil =>
    obtain ⟨n, hn, h⟩ := bind_ok h
    cases h
    exact ⟨a, k, t, v, n, rfl, extractUsize_ok hn, rfl⟩
  all_goals cases h

end Shapes

end CommandParser

/-! ## Where the paths part -/

namespace Departure

/-- Only the network refuses the empty key, and knows neither GET nor KEEPTTL nor that NX and XX
exclude each other; its SETNX asks before it stores. -/
def ofString : Unified.StringCommand → Prop
  | .set key _ o => key = [] ∨ o.get = true ∨ o.keepttl = true ∨ (o.nx = true ∧ o.xx = true)
  | .get key => key = []
  | .counter (.incr key) => key = []
  | .counter (.incrBy key _) => key = []
  | .setNx _ _ => True
  | _ => False

/-- A single member comes without its array to scripts if its count is one, and to the network
if it has none. -/
def ofSet : SetCommand → Prop
  | .sRandMember _ n => n.getD 1 = 1
  | .sPop _ n => n.getD 1 = 1
  | _ => False

/-- The pops stop at different ends, and the removals of a range are the scripts' alone. -/
def ofSortedSet : Unified.SortedSetCommand → Prop
  | .zRemRangeByLex _ _ _ => True
  | .ranged (.zPopMin _ _) => True
  | .ranged (.zPopMax _ _) => True
  | .ranged (.zRemRangeByRank _ _ _) => True
  | .ranged (.zRemRangeByScore _ _ _) => True
  | _ => False

/-- A time that is not positive deletes the key on the network, and beyond the signed integers
is refused; seconds are rounded to different sides, types rendered as different strings, and
RENAMENX is a RENAME. -/
def ofKey (args : List String) : KeyCommand → Prop
  | .expire _ seconds => seconds = 0 ∨ 2 ^ 63 ≤ seconds
  | .ttl _ => True
  | .type _ => True
  | .renameNx _ _ => True
  | .randomKey => args.length ≠ 1
  | _ => False

/-- PONG is another string, INFO another text, and TIME the scripts' alone. -/
def ofServer : ServerCommand → Prop
  | .ping none => True
  | .time => True
  | .info _ => True
  | _ => False

/-- Whether the options before the streams end at STREAMS. -/
def reachesStreams (knowsNoack : Bool) : List String → Bool
  | [] => false
  | w :: rest =>
      if toUppercase w = "COUNT" ∨ toUppercase w = "BLOCK" then
        match rest with
        | [] => false
        | _ :: rest => reachesStreams knowsNoack rest
      else if toUppercase w = "NOACK" ∧ knowsNoack then reachesStreams knowsNoack rest
      else toUppercase w = "STREAMS"

/-- A script's XREVRANGE takes no bare count, its ranges none before further arguments; its XREAD
goes on without STREAMS, and its XTRIM takes what follows the length. -/
def ofStream (args : List String) : StreamCommand → Prop
  | .xRange _ _ _ _ => 6 < args.length
  | .xRevRange _ _ _ _ => (args.length = 5 ∧ ((args[4]?).bind parseU64).isSome) ∨ 6 < args.length
  | .xRead _ _ _ => reachesStreams false (args.drop 1) = false
  | .xTrim _ _ _ => 5 < args.length
  | _ => False

/-- Whether the option loop of the SCAN family reads all there is. -/
def scansAll (knowsType : Bool) : List String → Bool
  | [] => true
  | w :: rest =>
      if toUppercase w = "MATCH" ∨ toUppercase w = "COUNT" ∨ toUppercase w = "TYPE" ∧ knowsType then
        match rest with
        | [] => false
        | _ :: rest => scansAll knowsType rest
      else false

/-- A script's SCAN stops at an option it does not know; the network refuses it. -/
def ofScan (args : List String) : ScanCommand → Prop
  | .scan _ _ _ _ => scansAll true (args.drop 2) = false
  | .hScan _ _ _ _ | .sScan _ _ _ _ | .zScan _ _ _ _ => scansAll false (args.drop 3) = false

/-- A script's whole-database commands work on the first database. -/
def ofDatabase (db : Nat) (args : List String) : DatabaseCommand → Prop
  | .flushDb | .dbSize => db ≠ 0 ∨ args.length ≠ 1
  | .flushAll => args.length ≠ 1
  | .keys _ => db ≠ 0

/-- Several streams are mixed up, and the options that are lost are these. -/
def ofConsumerGroup (args : List String) : ConsumerGroupCommand → Prop
  | .xReadGroup _ _ keysAndIds _ block noack =>
      2 ≤ keysAndIds.length ∨ block.isSome ∨ noack = true ∨ reachesStreams true (args.drop 4) = false
  | .xPending _ _ _ _ => args.length ≠ 3 ∧ args.length ≠ 6
  | .xClaim _ _ _ _ _ force justid => force = true ∨ justid = true
  | .xInfo _ _ _ => 4 < args.length
  | _ => False

end Departure

/-- The commands the two paths treat otherwise, by the database of the script, the arguments and
what they are parsed to.  Bits are the scripts' alone, and saving and CONFIG no work of theirs. -/
def Departs (db : Nat) (args : List String) : Unified.Command → Prop
  | .string c => Departure.ofString c
  | .list _ => False
  | .set c => Departure.ofSet c
  | .hash _ => False
  | .sortedSet c => Departure.ofSortedSet c
  | .key c => Departure.ofKey args c
  | .server c => Departure.ofServer c
  | .stream c => Departure.ofStream args c
  | .scan c => Departure.ofScan args c
  | .database c => Departure.ofDatabase db args c
  | .consumerGroup c => Departure.ofConsumerGroup args c
  | .persistence _ => True
  | .bit _ => True
  | .config _ => True

/-- Of text arguments the parser accepts, the executor and the handler make the same. -/
def Agree (checks : Bool) (db : Nat) (parse : Parts → Except FerrousError Unified.Command)
    (handler : Parts → StoreProg RespFrame) : Prop :=
  ∀ args cmd, parse (texts args) = .ok cmd → ¬ Departs db args cmd →
    Prog.Lockstep Alike (Executor.executeCommand checks none (some db) cmd) (handler (texts args))

end Ferrous
