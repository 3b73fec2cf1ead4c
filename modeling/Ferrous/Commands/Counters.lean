/-
# `Commands.Counters` — counters that are exact or refuse

INCR, DECR, INCRBY, DECRBY and HINCRBY, each through the handler of the server and
through the typed command of a script.  `incr_by` adds with a check.  Two steps around
it do not: DECRBY negates its argument first, and HINCRBY adds on its own.
-/
import Ferrous.Commands.Collections
import Ferrous.Commands.Executor
import Ferrous.Commands.Strings
import Ferrous.Storage.Absence

namespace Ferrous

open Lib

/-- In the range of `i64`. -/
def InI64 (n : Int) : Prop := -2 ^ 63 ≤ n ∧ n < 2 ^ 63

instance (n : Int) : Decidable (InI64 n) := inferInstanceAs (Decidable (_ ∧ _))

theorem wrapI64_eq_iff (n : Int) : wrapI64 n = n ↔ InI64 n := by
  unfold wrapI64 InI64
  omega

/-- The numbers `parse::<i64>` reads are in range. -/
theorem inI64_of_parseI64 {s : String} {n : Int} (h : parseI64 s = some n) : InI64 n := parseI64_range h

/-! ## Calls -/

/-- A counter command but for its key. -/
inductive CounterCall
  | incr
  | decr
  | incrby (text : Bytes)
  | decrby (text : Bytes)
  | hincrby (field text : Bytes)
  deriving DecidableEq

/-- The handler of the server, or the command of a script. -/
inductive CounterPath
  | server
  | executor
  deriving DecidableEq

namespace CounterCall

/-- The frames of the command. -/
def frames (key : Key) : CounterCall → Parts
  | incr => [.fromString "INCR", .fromBytes key]
  | decr => [.fromString "DECR", .fromBytes key]
  | incrby text => [.fromString "INCRBY", .fromBytes key, .fromBytes text]
  | decrby text => [.fromString "DECRBY", .fromBytes key, .fromBytes text]
  | hincrby field text => [.fromString "HINCRBY", .fromBytes key, .fromBytes field, .fromBytes text]

/-- The number under the key or the field: 0 where there is nothing, none where there
is something else. -/
def held (entry : Option StoredValue) : CounterCall → Option Int
  | hincrby field _ =>
      match entry with
      | none => some 0
      | some sv =>
          match sv.value with
          | .hash h =>
              match h.get? field with
              | none => some 0
              | some bytes => parseI64 (fromUtf8Lossy bytes)
          | _ => none
  | _ =>
      match entry with
      | none => some 0
      | some sv => sv.value.asInteger

/-- The decimal text of a number is under the key or the field. -/
def Shows (entry : Option StoredValue) (n : Int) : CounterCall → Prop
  | hincrby field _ => ∃ sv h, entry = some sv ∧ sv.value = .hash h ∧ h.get? field = some (intBytes n)
  | _ => ∃ sv, entry = some sv ∧ sv.value = .string (intBytes n)

/-- The operation of the engine. -/
def operation (n : Int) : CounterCall → KeyCmd Int
  | hincrby field _ => .hincrby field n
  | _ => .incrBy n

end CounterCall

namespace CounterPath

/-- How an argument is read. -/
def read : CounterPath → Bytes → Option Int
  | server, text => parseI64 (fromUtf8Lossy text)
  | executor, text => (fromUtf8 text).bind parseI64

/-- What a command asks to be added; none if its argument is no `i64`. -/
def amount (path : CounterPath) : CounterCall → Option Int
  | .incr => some 1
  | .decr => some (-1)
  | .incrby text => path.read text
  | .decrby text => (path.read text).map fun n => -n
  | .hincrby _ text => path.read text

/-- The handlers of INCR and INCRBY refuse the empty key. -/
def RefusesKey (path : CounterPath) (key : Key) (call : CounterCall) : Prop :=
  path = server ∧ key = [] ∧ (call = .incr ∨ ∃ text, call = .incrby text)

/-- The program that runs for a command. -/
def program (path : CounterPath) (overflowChecks : Bool) (db : Nat) (key : Key) (call : CounterCall) :
    StoreProg RespFrame :=
  match path, call with
  | server, .incr => handleIncr db (call.frames key)
  | server, .decr => handleDecr db (call.frames key)
  | server, .incrby _ => handleIncrby db (call.frames key)
  | server, .decrby _ => handleDecrby overflowChecks db (call.frames key)
  | server, .hincrby .. => handleHincrby db (call.frames key)
  | executor, .incr =>
      Executor.execute (CommandParser.parseIncr (call.frames key)) (Executor.executeString overflowChecks db)
  | executor, .decr =>
      Executor.execute (CommandParser.parseDecr (call.frames key)) (Executor.executeString overflowChecks db)
  | executor, .incrby _ =>
      Executor.execute (CommandParser.parseIncrby (call.frames key)) (Executor.executeString overflowChecks db)
  | executor, .decrby _ =>
      Executor.execute (CommandParser.parseDecrby (call.frames key)) (Executor.executeString overflowChecks db)
  | executor, .hincrby .. =>
      Executor.execute (CommandParser.parseHincrby (call.frames key)) (Executor.executeHash db)

end CounterPath

/-- The call made in a build with overflow checks, or in one without. -/
def Ctx.built (ctx : Ctx) (overflowChecks : Bool) : Ctx := { ctx with overflowChecks := overflowChecks }

/-- What a call found and left under its key, and how it ended. -/
structure CounterRun where
  before : Option StoredValue
  after : Option StoredValue
  outcome : Outcome RespFrame

namespace CounterRun

/-- A call, made in a world. -/
def made (path : CounterPath) (ω : Nat → Ctx) (overflowChecks : Bool) (w : World) (db : Nat) (key : Key)
    (call : CounterCall) : CounterRun :=
  let r := (path.program overflowChecks db key call).run (World.step fun i => (ω i).built overflowChecks) w
  ⟨w.engine.entryAt db key, r.2.engine.entryAt db key, r.1⟩

/-- The exact sum fits, is the reply, and is what is stored now. -/
def Exact (r : CounterRun) (call : CounterCall) (amount : Int) : Prop :=
  ∃ n, call.held r.before = some n ∧ InI64 (n + amount) ∧ r.outcome = .ok (.integer (n + amount)) ∧
    call.Shows r.after (n + amount)

/-- The call ended with an error and left what was there. -/
def Refused (r : CounterRun) : Prop :=
  ((∃ frame, r.outcome = .ok frame ∧ frame.isError = true) ∨ ∃ e, r.outcome = .err e) ∧ r.after = r.before

end CounterRun

/-- The call is exact or refused; where the sum fits, it is refused only for want of
memory for a new key, or for the empty key. -/
def CounterPath.Settles (path : CounterPath) (ω : Nat → Ctx) (overflowChecks : Bool) (w : World) (db : Nat)
    (key : Key) (call : CounterCall) (amount : Int) : Prop :=
  let r := CounterRun.made path ω overflowChecks w db key call
  r.Exact call amount ∨
    r.Refused ∧ ∀ n, call.held r.before = some n → InI64 (n + amount) →
      path.RefusesKey key call ∨
        r.before = none ∧ w.engine.refuses ((call.operation amount).step key (ω w.calls) none) = true

/-- DECRBY of the least integer, or a sum of HINCRBY that does not fit. -/
def CounterCall.Overflows (call : CounterCall) (amount : Int) (entry : Option StoredValue) : Prop :=
  match call with
  | .decrby _ => amount = 2 ^ 63
  | .hincrby .. => ∃ n, call.held entry = some n ∧ ¬ InI64 (n + amount)
  | _ => False

/-! ## What runs -/

section Runs

variable {path : CounterPath} {db : Nat} {key : Key} {call : CounterCall} {amount : Int}

/-- The amounts are in range, but for the negation of the least integer. -/
theorem inI64_amount (h : path.amount call = some amount) :
    InI64 amount ∨ amount = 2 ^ 63 ∧ ∃ text, call = .decrby text := by
  have hread {text : Bytes} {n : Int} (h : path.read text = some n) : InI64 n := by
    cases path with
    | server => exact inI64_of_parseI64 h
    | executor =>
        obtain ⟨s, -, hs⟩ := Option.bind_eq_some_iff.mp h
        exact inI64_of_parseI64 hs
  cases call with
  | incr =>
      cases h
      exact .inl (by decide)
  | decr =>
      cases h
      exact .inl (by decide)
  | incrby text => exact .inl (hread h)
  | hincrby field text => exact .inl (hread h)
  | decrby text =>
      obtain ⟨n, hn, rfl⟩ := Option.map_eq_some_iff.mp h
      obtain ⟨hlo, hhi⟩ := hread hn
      by_cases hmin : n = -2 ^ 63
      · exact .inr ⟨by omega, text, rfl⟩
      · refine .inl ⟨?_, ?_⟩ <;> omega

/-- Where an engine error goes. -/
def CounterPath.onError : CounterPath → CounterCall → OnError
  | .executor, _ => .raise
  | .server, .hincrby .. => .reply
  | .server, _ => .replyText

/-- A command comes down to one operation, but for the key some handlers refuse and the
negation that traps. -/
inductive CounterPath.Becomes (path : CounterPath) (overflowChecks : Bool) (db : Nat) (key : Key)
    (call : CounterCall) (amount : Int) : StoreProg RespFrame → Prop
  | refused (frame : RespFrame) : path.RefusesKey key call → frame.isError = true → Becomes path overflowChecks db key call amount (.ret frame)
  | traps : overflowChecks = true → amount = 2 ^ 63 → Becomes path overflowChecks db key call amount .panic
  | operation : ¬ path.RefusesKey key call → (overflowChecks = true → amount ≠ 2 ^ 63) →
      Becomes path overflowChecks db key call amount
        (onKey (path.onError call) db key (call.operation (wrapI64 amount)) .integer)

theorem becomes_of_inI64 {overflowChecks : Bool} (hrange : InI64 amount) (hkey : ¬ path.RefusesKey key call) :
    path.Becomes overflowChecks db key call amount
      (onKey (path.onError call) db key (call.operation amount) .integer) := by
  have hwrap := (wrapI64_eq_iff amount).mpr hrange
  have hne : amount ≠ 2 ^ 63 := by
    rintro rfl
    exact absurd hrange.2 (by decide)
  have hop := @CounterPath.Becomes.operation path overflowChecks db key call amount hkey fun _ => hne
  rwa [hwrap] at hop

/-- DECRBY, once its argument is read. -/
theorem becomes_decrby (overflowChecks : Bool) (n : Int) (text : Bytes) :
    path.Becomes overflowChecks db key (.decrby text) (-n)
      (if overflowChecks && decide (n = -2 ^ 63) then .panic
        else onKey (path.onError (.decrby text)) db key (.incrBy (wrapI64 (-n))) .integer) := by
  have hkey : ¬ path.RefusesKey key (.decrby text) := by
    rintro ⟨-, -, h | ⟨text', h⟩⟩ <;> cases h
  split
  · next h =>
      obtain ⟨hchecks, hmin⟩ := Bool.and_eq_true_iff.mp h
      have hmin := of_decide_eq_true hmin
      exact .traps hchecks (by omega)
  · next h =>
      refine .operation hkey fun hchecks hmin => h ?_
      rw [hchecks, Bool.true_and]
      exact decide_eq_true (by omega)

/-- A handler becomes one of these. -/
theorem server_becomes (h : CounterPath.server.amount call = some amount) (overflowChecks : Bool) :
    CounterPath.server.Becomes overflowChecks db key call amount
      (CounterPath.server.program overflowChecks db key call) := by
  have hrange := inI64_amount h
  cases call with
  | incr =>
      cases h
      cases key with
      | nil => exact .refused _ ⟨rfl, rfl, .inl rfl⟩ rfl
      | cons b bs => exact becomes_of_inI64 (by decide) fun hkey => nomatch hkey.2.1
  | decr =>
      cases h
      refine becomes_of_inI64 (by decide) ?_
      rintro ⟨-, -, h | ⟨text, h⟩⟩ <;> cases h
  | incrby text =>
      have hint : Args.int ((CounterCall.incrby text).frames key) 2 "increment" = .ok amount :=
        Args.numeral_of_text Args.notInteger "increment" rfl h
      cases key with
      | nil => exact .refused _ ⟨rfl, rfl, .inr ⟨text, rfl⟩⟩ rfl
      | cons b bs =>
          have hprogram : CounterPath.server.program overflowChecks db (b :: bs) (.incrby text) =
              onKey .replyText db (b :: bs) (.incrBy amount) .integer := by
            change reading (do
              Args.arity "incrby" true
              let k ← Args.nonEmptyKey _ 1
              let n ← Args.int ((CounterCall.incrby text).frames (b :: bs)) 2 "increment"
              return (k, n)) _ = _
            rw [hint]
            rfl
          rw [hprogram]
          refine becomes_of_inI64 (hrange.resolve_right ?_) fun hkey => nomatch hkey.2.1
          rintro ⟨-, text', h⟩
          cases h
  | decrby text =>
      obtain ⟨n, hn, rfl⟩ := Option.map_eq_some_iff.mp h
      have hint : Args.int ((CounterCall.decrby text).frames key) 2 "decrement" = .ok n :=
        Args.numeral_of_text Args.notInteger "decrement" rfl hn
      have hprogram : CounterPath.server.program overflowChecks db key (.decrby text) =
          if overflowChecks && decide (n = -2 ^ 63) then .panic
          else onKey .replyText db key (.incrBy (wrapI64 (-n))) .integer := by
        change reading (do
          Args.arity "decrby" true
          let k ← Args.bulk _ 1 "key"
          let n ← Args.int ((CounterCall.decrby text).frames key) 2 "decrement"
          return (k, n)) _ = _
        rw [hint]
        rfl
      rw [hprogram]
      exact becomes_decrby overflowChecks n text
  | hincrby field text =>
      have hint : Args.int ((CounterCall.hincrby field text).frames key) 3 "increment" = .ok amount :=
        Args.numeral_of_text Args.notInteger "increment" rfl h
      have hprogram : CounterPath.server.program overflowChecks db key (.hincrby field text) =
          onKey .reply db key (.hincrby field amount) .integer := by
        change reading (do
          Args.arity "hincrby" true
          let k ← Args.bulk _ 1 "key"
          let f ← Args.bulk _ 2 "field"
          let n ← Args.int ((CounterCall.hincrby field text).frames key) 3 "increment"
          return (k, f, n)) _ = _
        rw [hint]
        rfl
      rw [hprogram]
      refine becomes_of_inI64 (hrange.resolve_right ?_) ?_
      · rintro ⟨-, text', h⟩
        cases h
      · rintro ⟨-, -, h | ⟨text', h⟩⟩ <;> cases h

/-- So does a typed command. -/
theorem executor_becomes (h : CounterPath.executor.amount call = some amount) (overflowChecks : Bool) :
    CounterPath.executor.Becomes overflowChecks db key call amount
      (CounterPath.executor.program overflowChecks db key call) := by
  have hrange := inI64_amount h
  have hkey : ¬ CounterPath.executor.RefusesKey key call := fun hkey => nomatch hkey.1
  cases call with
  | incr =>
      cases h
      exact becomes_of_inI64 (by decide) hkey
  | decr =>
      cases h
      exact becomes_of_inI64 (by decide) hkey
  | incrby text =>
      have hprogram : CounterPath.executor.program overflowChecks db key (.incrby text) =
          onKey .raise db key (.incrBy amount) .integer := by
        change Executor.execute (do
          let n ← CommandParser.extractI64 (.fromBytes text)
          return StringCommand.incrBy (← CommandParser.extractBytes (.fromBytes key)) n) _ = _
        rw [CommandParser.extractI64_of_text h]
        rfl
      rw [hprogram]
      refine becomes_of_inI64 (hrange.resolve_right ?_) hkey
      rintro ⟨-, text', h⟩
      cases h
  | decrby text =>
      obtain ⟨n, hn, rfl⟩ := Option.map_eq_some_iff.mp h
      have hprogram : CounterPath.executor.program overflowChecks db key (.decrby text) =
          if overflowChecks && decide (n = -2 ^ 63) then .panic
          else onKey .raise db key (.incrBy (wrapI64 (-n))) .integer := by
        change Executor.execute (do
          let n ← CommandParser.extractI64 (.fromBytes text)
          return StringCommand.decrBy (← CommandParser.extractBytes (.fromBytes key)) n) _ = _
        rw [CommandParser.extractI64_of_text hn]
        rfl
      rw [hprogram]
      exact becomes_decrby overflowChecks n text
  | hincrby field text =>
      have hprogram : CounterPath.executor.program overflowChecks db key (.hincrby field text) =
          onKey .raise db key (.hincrby field amount) .integer := by
        change Executor.execute (do
          let n ← CommandParser.extractI64 (.fromBytes text)
          return HashCommand.hIncrBy (← CommandParser.extractBytes (.fromBytes key))
            (← CommandParser.extractBytes (.fromBytes field)) n) _ = _
        rw [CommandParser.extractI64_of_text h]
        rfl
      rw [hprogram]
      refine becomes_of_inI64 (hrange.resolve_right ?_) hkey
      rintro ⟨-, text', h⟩
      cases h

end Runs

/-! ## One operation -/

/-- The step stores the exact sum, or fails where the sum does not fit. -/
def CounterCall.Settled (call : CounterCall) (n : Int) (entry : Option StoredValue) (st : KeyStep Int) : Prop :=
  (∃ m, call.held entry = some m ∧ InI64 (m + n) ∧ st.result = .ok (m + n) ∧
      call.Shows (st.entry.leaves entry) (m + n)) ∨
    (∃ e, st = .fail e) ∧ ∀ m, call.held entry = some m → ¬ InI64 (m + n)

theorem incrBy_settled {call : CounterCall} (hcall : ∀ field text, call ≠ .hincrby field text) {n : Int}
    (hn : InI64 n) (key : Key) (ctx : Ctx) (entry : Option StoredValue) :
    call.Settled n entry (KeyOps.incrBy key n ctx entry) := by
  have hshows (e : Option StoredValue) (m : Int) :
      call.Shows e m ↔ ∃ sv, e = some sv ∧ sv.value = .string (intBytes m) := by
    cases call with
    | hincrby field text => exact absurd rfl (hcall field text)
    | _ => exact Iff.rfl
  have hheld : call.held entry = match entry with
      | none => some 0
      | some sv => sv.value.asInteger := by
    cases call with
    | hincrby field text => exact absurd rfl (hcall field text)
    | _ => rfl
  unfold KeyOps.incrBy
  cases entry with
  | none =>
      refine .inl ⟨0, hheld, by rwa [Int.zero_add], by rw [Int.zero_add]; rfl, ?_⟩
      rw [hshows, Int.zero_add]
      exact ⟨_, rfl, rfl⟩
  | some sv =>
      dsimp only at hheld ⊢
      cases hm : sv.value.asInteger with
      | none =>
          refine .inr ⟨⟨_, rfl⟩, fun m h => ?_⟩
          rw [hheld, hm] at h
          cases h
      | some m =>
          rw [hm] at hheld
          dsimp only
          split
          · next hfits =>
              refine .inl ⟨m, hheld, (wrapI64_eq_iff _).mp hfits, rfl, ?_⟩
              rw [hshows]
              exact ⟨_, rfl, rfl⟩
          · next hfits =>
              refine .inr ⟨⟨_, rfl⟩, fun m' h => ?_⟩
              rw [hheld] at h
              cases h
              exact fun hrange => hfits ((wrapI64_eq_iff _).mpr hrange)

theorem hincrby_settled {field text : Bytes} {n : Int} (hn : InI64 n) {entry : Option StoredValue}
    (hfits : ∀ m, (CounterCall.hincrby field text).held entry = some m → InI64 (m + n)) (ctx : Ctx) :
    (CounterCall.hincrby field text).Settled n entry (KeyOps.hincrby field n ctx entry) := by
  have hfresh (sv : StoredValue) (h : Map Bytes Bytes) (m : Int) :
      (CounterCall.hincrby field text).Shows
        ((KeyStep.update sv (.hash (h.set field (intBytes m))) m).entry.leaves entry) m :=
    ⟨_, _, rfl, rfl, Map.get?_set_self _ _ _⟩
  unfold KeyOps.hincrby KeyOps.onHash
  cases entry with
  | none =>
      refine .inl ⟨0, rfl, by rwa [Int.zero_add], by rw [Int.zero_add]; rfl, ?_⟩
      rw [Int.zero_add]
      exact ⟨_, _, rfl, rfl, Map.get?_set_self _ _ _⟩
  | some sv =>
      unfold CounterCall.held at hfits
      unfold CounterCall.Settled CounterCall.held
      dsimp only at hfits ⊢
      cases hv : sv.value with
      | hash h =>
          rw [hv] at hfits
          dsimp only at hfits ⊢
          cases hg : h.get? field with
          | none =>
              refine .inl ⟨0, rfl, by rwa [Int.zero_add], by rw [Int.zero_add]; rfl, ?_⟩
              rw [Int.zero_add]
              exact hfresh sv h n
          | some bytes =>
              rw [hg] at hfits
              dsimp only at hfits ⊢
              cases hp : parseI64 (fromUtf8Lossy bytes) with
              | none => exact .inr ⟨⟨_, rfl⟩, nofun⟩
              | some m =>
                  have hwrap := (wrapI64_eq_iff _).mpr (hfits m hp)
                  dsimp only
                  rw [if_neg (by simp [hwrap]), hwrap]
                  exact .inl ⟨m, rfl, hfits m hp, rfl, hfresh sv h (m + n)⟩
      | _ => exact .inr ⟨⟨_, rfl⟩, nofun⟩

/-- Only the creation of a key asks for memory. -/
theorem absent_of_refuses {call : CounterCall} {n : Int} {key : Key} {ctx : Ctx} {entry : Option StoredValue}
    {e : Engine} (h : e.refuses ((call.operation n).step key ctx entry) = true) : entry = none := by
  cases entry with
  | none => rfl
  | some sv =>
      have hcharge : ((call.operation n).step key ctx (some sv)).charge = none := by
        cases call with
        | hincrby field text =>
            change (KeyOps.hincrby field n ctx (some sv)).charge = none
            unfold KeyOps.hincrby KeyOps.onHash
            dsimp only
            split
            · split
              · rfl
              · split
                · rfl
                · split <;> rfl
            · rfl
        | _ =>
            change (KeyOps.incrBy key n ctx (some sv)).charge = none
            unfold KeyOps.incrBy
            dsimp only
            split
            · rfl
            · split <;> rfl
      rw [Engine.refuses, hcharge] at h
      cases h

/-- What a handler or a typed command makes of an engine error. -/
theorem run_answering_error {α : Type} (onError : OnError) (render : α → RespFrame) (e : FerrousError)
    (ω : Nat → Ctx) (w : World) :
    ((answering onError render (.error e)).run (World.step ω) w).2 = w ∧
      ((∃ frame, ((answering onError render (.error e)).run (World.step ω) w).1 = .ok frame ∧
          frame.isError = true) ∨
        ∃ e', ((answering onError render (.error e)).run (World.step ω) w).1 = .err e') := by
  have hframe {frame : RespFrame} (h : onError.frame e = some frame) : frame.isError = true := by
    unfold OnError.frame at h
    split at h <;> cases h <;> rfl
  rw [answering]
  cases hreply : onError.frame e with
  | none => exact ⟨rfl, .inr ⟨e, rfl⟩⟩
  | some frame => exact ⟨rfl, .inl ⟨frame, rfl, hframe hreply⟩⟩

/-- A call of an operation that stores the sum or fails is exact or refused. -/
theorem settles_of_settled {path : CounterPath} {ω : Nat → Ctx} {overflowChecks : Bool} {w : World} {db : Nat}
    (hdb : db < w.engine.databases.length) {key : Key} {call : CounterCall} {n : Int} {onError : OnError}
    (hprogram : path.program overflowChecks db key call = onKey onError db key (call.operation n) .integer)
    (hcharge : ∀ ctx ctx' : Ctx, w.engine.refuses ((call.operation n).step key ctx none) =
      w.engine.refuses ((call.operation n).step key ctx' none))
    (hstep : call.Settled n (w.engine.entryAt db key)
      ((call.operation n).step key ((ω w.calls).built overflowChecks) (w.engine.entryAt db key))) :
    path.Settles ω overflowChecks w db key call n := by
  unfold CounterPath.Settles CounterRun.made
  rw [hprogram]
  unfold onKey calling
  rw [Prog.run_call]
  generalize hω : (fun i => (ω i).built overflowChecks) = ω'
  have hctx : (ω w.calls).built overflowChecks = ω' w.calls := by rw [← hω]
  rw [hctx] at hstep
  have hat := Engine.withEntry_entryAt hdb key (ω' w.calls) ((call.operation n).step key) db key
  have hanswer := Engine.withEntry_fst hdb key (ω' w.calls) ((call.operation n).step key)
  generalize hst : (call.operation n).step key (ω' w.calls) (w.engine.entryAt db key) = st at hstep hat hanswer
  have hrun : World.step ω' Int (.key db key (call.operation n)) w =
      (w.engine.answerOf st, ⟨(w.engine.withEntry db key (ω' w.calls) ((call.operation n).step key)).2, w.calls + 1⟩) :=
    Prod.ext hanswer rfl
  rw [hrun]
  generalize hafter : (w.engine.withEntry db key (ω' w.calls) ((call.operation n).step key)).2 = e' at hat
  -- an error is passed to the client or on, and the entry is as it was
  have herror (e : FerrousError) (hres : w.engine.answerOf st = .err e)
      (hsame : e'.entryAt db key = w.engine.entryAt db key) :
      CounterRun.Refused ⟨w.engine.entryAt db key,
        (Prog.andThen (w.engine.answerOf st, ⟨e', w.calls + 1⟩) fun r s' =>
          (answering onError RespFrame.integer r).run (World.step ω') s').2.engine.entryAt db key,
        (Prog.andThen (w.engine.answerOf st, ⟨e', w.calls + 1⟩) fun r s' =>
          (answering onError RespFrame.integer r).run (World.step ω') s').1⟩ := by
    obtain ⟨hw, hout⟩ := run_answering_error onError RespFrame.integer e ω' ⟨e', w.calls + 1⟩
    rw [hres]
    refine ⟨hout, ?_⟩
    change (((answering onError RespFrame.integer (.error e)).run (World.step ω') ⟨e', w.calls + 1⟩).2).engine.entryAt
      db key = _
    rw [hw]
    exact hsame
  cases hrefuses : w.engine.refuses st with
  | true =>
      have hnone : w.engine.entryAt db key = none := absent_of_refuses (hst ▸ hrefuses)
      rw [hrefuses] at hat
      refine .inr ⟨herror _ (if_pos hrefuses) (hat.trans (if_neg (by simp))), fun m _ _ => .inr ⟨hnone, ?_⟩⟩
      rw [hcharge _ (ω' w.calls), ← hnone, hst]
      exact hrefuses
  | false =>
      rw [hrefuses] at hat
      have hres : w.engine.answerOf st = st.result := by
        rw [Engine.answerOf, hrefuses]
        rfl
      have hat : e'.entryAt db key = st.entry.leaves (w.engine.entryAt db key) := hat.trans (if_pos ⟨rfl, rfl, rfl⟩)
      rcases hstep with ⟨m, hheld, hrange, hok, hshows⟩ | ⟨⟨e, rfl⟩, hno⟩
      · refine .inl ⟨m, hheld, hrange, ?_, ?_⟩
        · rw [hres, hok]
          rfl
        · rw [hres, hok]
          change call.Shows (e'.entryAt db key) (m + n)
          rw [hat]
          exact hshows
      · exact .inr ⟨herror e hres hat, fun m hm hfits => absurd hfits (hno m hm)⟩

/-- A panic is neither exact nor refused. -/
theorem not_settles_of_panic {path : CounterPath} {ω : Nat → Ctx} {overflowChecks : Bool} {w : World} {db : Nat}
    {key : Key} {call : CounterCall} {n : Int}
    (h : ((path.program overflowChecks db key call).run
      (World.step fun i => (ω i).built overflowChecks) w).1 = .panic) :
    ¬ path.Settles ω overflowChecks w db key call n := by
  have hout : (CounterRun.made path ω overflowChecks w db key call).outcome = .panic := h
  rintro (⟨m, -, -, hok, -⟩ | ⟨⟨⟨frame, hok, -⟩ | ⟨e, herr⟩, -⟩, -⟩)
  · cases hout.symm.trans hok
  · cases hout.symm.trans hok
  · cases hout.symm.trans herr

/-- The sum of HINCRBY is not checked. -/
theorem hincrby_panics {field text : Bytes} {n m : Int} (hn : InI64 n) {entry : Option StoredValue}
    (hheld : (CounterCall.hincrby field text).held entry = some m) (hno : ¬ InI64 (m + n)) {ctx : Ctx}
    (hchecks : ctx.overflowChecks = true) : KeyOps.hincrby field n ctx entry = .panics := by
  have hzero : m ≠ 0 := by
    rintro rfl
    exact hno (by rwa [Int.zero_add])
  unfold CounterCall.held at hheld
  unfold KeyOps.hincrby KeyOps.onHash
  cases entry with
  | none => exact absurd (Option.some.inj hheld).symm hzero
  | some sv =>
      obtain ⟨v, expiresAt⟩ := sv
      cases v with
      | hash h =>
          dsimp only at hheld ⊢
          cases hg : h.get? field with
          | none =>
              rw [hg] at hheld
              exact absurd (Option.some.inj hheld).symm hzero
          | some bytes =>
              rw [hg] at hheld
              dsimp only at hheld ⊢
              rw [hheld]
              dsimp only
              rw [hchecks, if_pos (by simpa using fun hwrap => hno ((wrapI64_eq_iff _).mp hwrap))]
      | string _ => cases hheld
      | list _ => cases hheld
      | set _ => cases hheld
      | sortedSet _ => cases hheld
      | stream _ => cases hheld

/-- An operation that panics ends its handler so. -/
theorem run_onKey_panic {α : Type} {onError : OnError} {db : Nat} {key : Key} {c : KeyCmd α}
    {render : α → RespFrame} {ω : Nat → Ctx} {w : World} (hdb : db < w.engine.databases.length)
    (h : c.step key (ω w.calls) (w.engine.entryAt db key) = .panics) :
    ((onKey onError db key c render).run (World.step ω) w).1 = .panic := by
  have hanswer := Engine.withEntry_fst hdb key (ω w.calls) (c.step key)
  rw [h] at hanswer
  have hrun : World.step ω α (.key db key c) w =
      (.panic, ⟨(w.engine.withEntry db key (ω w.calls) (c.step key)).2, w.calls + 1⟩) :=
    Prod.ext (hanswer.trans (if_neg Bool.false_ne_true)) rfl
  unfold onKey calling
  rw [Prog.run_call, hrun]
  rfl

/-- In the build with overflow checks, where overflow panics, and in the one without,
a counter command with a well-formed argument is exact or refused, exactly if it is not
DECRBY of the least integer and no sum of HINCRBY that does not fit. -/
theorem counters_settle_iff (path : CounterPath) (call : CounterCall) {amount : Int}
    (h : path.amount call = some amount) (ω : Nat → Ctx) {w : World} {db : Nat}
    (hdb : db < w.engine.databases.length) (key : Key) :
    (∀ overflowChecks, path.Settles ω overflowChecks w db key call amount) ↔
      ¬ call.Overflows amount (w.engine.entryAt db key) := by
  have hbecomes (overflowChecks : Bool) : path.Becomes overflowChecks db key call amount
      (path.program overflowChecks db key call) := by
    cases path with
    | server => exact server_becomes h overflowChecks
    | executor => exact executor_becomes h overflowChecks
  constructor
  · intro hall hover
    refine not_settles_of_panic (ω := ω) ?_ (hall true)
    have hb := hbecomes true
    generalize path.program true db key call = p at hb
    cases call with
    | decrby text =>
        have hmin : amount = 2 ^ 63 := hover
        cases hb with
        | refused frame hkey _ => rcases hkey with ⟨-, -, h | ⟨text', h⟩⟩ <;> cases h
        | traps _ _ => rfl
        | operation _ hne => exact absurd hmin (hne rfl)
    | hincrby field text =>
        obtain ⟨m, hheld, hno⟩ := hover
        have hrange : InI64 amount := by
          refine (inI64_amount h).resolve_right ?_
          rintro ⟨-, text', h⟩
          cases h
        cases hb with
        | refused frame hkey _ => rcases hkey with ⟨-, -, h | ⟨text', h⟩⟩ <;> cases h
        | traps _ _ => rfl
        | operation _ _ =>
            rw [(wrapI64_eq_iff amount).mpr hrange]
            exact run_onKey_panic hdb (hincrby_panics hrange hheld hno rfl)
    | _ => exact hover.elim
  · intro hover overflowChecks
    have hrange : InI64 amount := by
      refine (inI64_amount h).resolve_right ?_
      rintro ⟨hmin, text, rfl⟩
      exact hover hmin
    have hb := hbecomes overflowChecks
    generalize hp : path.program overflowChecks db key call = p at hb
    cases hb with
    | refused frame hkey herror =>
        refine .inr ⟨⟨.inl ⟨frame, ?_, herror⟩, ?_⟩, fun _ _ _ => .inl hkey⟩
        · rw [CounterRun.made, hp]
          rfl
        · rw [CounterRun.made, hp]
          rfl
    | traps _ hmin =>
        subst hmin
        exact absurd hrange.2 (by decide)
    | operation _ _ =>
        rw [(wrapI64_eq_iff amount).mpr hrange] at hp
        refine settles_of_settled hdb hp (fun _ _ => ?_) ?_
        · cases call <;> rfl
        · cases call with
          | hincrby field text =>
              refine hincrby_settled hrange (fun m hm => ?_) _
              by_contra hno
              exact hover ⟨m, hm, hno⟩
          | _ => exact incrBy_settled (fun _ _ h => by cases h) hrange key ((ω w.calls).built overflowChecks) _

/-- DECRBY of a script, of a key that is not there. -/
theorem decrby_settles :
    CounterPath.executor.amount (.decrby "7".toBytes) = some (-7) ∧
      ∀ overflowChecks, CounterPath.executor.Settles (fun _ => .at 0) overflowChecks
        ⟨Engine.withConfig 1 .unlimited, 0⟩ 0 "k".toBytes (.decrby "7".toBytes) (-7) := by
  have hamount : CounterPath.executor.amount (.decrby "7".toBytes) = some (-7) := rfl
  refine ⟨hamount, ?_⟩
  refine (counters_settle_iff .executor (.decrby "7".toBytes) hamount (fun _ => .at 0) (by decide) "k".toBytes).mpr ?_
  intro hover
  have hmin : (-7 : Int) = 2 ^ 63 := hover
  exact absurd hmin (by decide)

/-- The integer of a reply. -/
def RespFrame.integer? : RespFrame → Option Int
  | .integer n => some n
  | _ => none

/-- Without overflow checks, DECRBY of the least integer subtracts nothing that fits and
stores the least integer itself. -/
theorem decrby_least_unsettled :
    CounterPath.server.amount (.decrby "-9223372036854775808".toBytes) = some (2 ^ 63) ∧
      ¬ CounterPath.server.Settles (fun _ => .at 0) false ⟨Engine.withConfig 1 .unlimited, 0⟩ 0 "k".toBytes
        (.decrby "-9223372036854775808".toBytes) (2 ^ 63) := by
  refine ⟨rfl, ?_⟩
  have hreply : (CounterRun.made .server (fun _ => .at 0) false ⟨Engine.withConfig 1 .unlimited, 0⟩ 0
      "k".toBytes (.decrby "-9223372036854775808".toBytes)).outcome.value?.bind RespFrame.integer? =
        some (-2 ^ 63) := by
    rfl
  rintro (⟨n, hheld, -, hok, -⟩ | ⟨⟨⟨frame, hok, herror⟩ | ⟨e, herr⟩, -⟩, -⟩)
  · rw [hok] at hreply
    have hsum : n + 2 ^ 63 = -2 ^ 63 := Option.some.inj hreply
    have hzero : (some 0 : Option Int) = some n := hheld
    obtain rfl := Option.some.inj hzero
    exact absurd hsum (by decide)
  · rw [hok] at hreply
    cases frame <;> cases herror
    cases hreply
  · rw [herr] at hreply
    cases hreply

end Ferrous
