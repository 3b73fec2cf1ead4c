/-
# `Server.Sizes` — what a size that a client chose can do to the server

SETRANGE, SRANDMEMBER and the two commands that run a script read a number of full range
and make a size of it: the end of the overlay, the room for the members, the end of the
keys.  Near the end of the range the arithmetic overflows, and below it the vector that is
asked for does not fit an address space.  Either way the handler panics, in every build.
-/
import Ferrous.Commands.ListRemovals
import Ferrous.Commands.Strings
import Ferrous.Server.Handlers

namespace Ferrous

open Lib

/-! ## An overlay, byte by byte -/

/-- `new` is `old` with zeros up to the end of the overlay and `value` from `offset` on. -/
def Overlaid (old : Bytes) (offset : Nat) (value new : Bytes) : Prop :=
  new.length = max old.length (offset + value.length) ∧
  ∀ i < new.length, new[i]? =
    if offset ≤ i ∧ i < offset + value.length then value[i - offset]? else some (old[i]?.getD 0)

theorem overlaid_overlay (old : Bytes) (offset : Nat) (value : Bytes) :
    Overlaid old offset value (KeyOps.overlay old offset value) := by
  have hpad : (old ++ List.replicate (offset + value.length - old.length) (0 : UInt8)).length =
      max old.length (offset + value.length) := by
    rw [List.length_append, List.length_replicate]
    omega
  have hzero : ∀ i < max old.length (offset + value.length),
      (old ++ List.replicate (offset + value.length - old.length) (0 : UInt8))[i]? = some (old[i]?.getD 0) := by
    intro i hi
    by_cases hin : i < old.length
    · rw [List.getElem?_append_left hin, List.getElem?_eq_getElem hin, Option.getD_some]
    · have hrep : i - old.length < offset + value.length - old.length := by omega
      rw [List.getElem?_append_right (by omega), List.getElem?_replicate, if_pos hrep,
        List.getElem?_eq_none (by omega), Option.getD_none]
  unfold KeyOps.overlay
  dsimp only
  generalize hpadded : old ++ List.replicate (offset + value.length - old.length) (0 : UInt8) = padded at hpad hzero
  have hhead : (padded.take offset).length = offset := by
    rw [List.length_take]
    omega
  have hlen : (padded.take offset ++ value ++ padded.drop (offset + value.length)).length =
      max old.length (offset + value.length) := by
    rw [List.length_append, List.length_append, hhead, List.length_drop]
    omega
  refine ⟨hlen, fun i hi => ?_⟩
  rw [hlen] at hi
  rw [List.append_assoc]
  rcases Nat.lt_or_ge i offset with hbefore | hfrom
  · rw [List.getElem?_append_left (by omega), List.getElem?_take_of_lt hbefore, hzero i hi,
      if_neg fun h => absurd h.1 (by omega)]
  · rw [List.getElem?_append_right (by omega), hhead]
    rcases Nat.lt_or_ge i (offset + value.length) with hinside | hafter
    · rw [List.getElem?_append_left (by omega), if_pos ⟨hfrom, hinside⟩]
    · have hback : offset + value.length + (i - offset - value.length) = i := by omega
      rw [List.getElem?_append_right (by omega), List.getElem?_drop, hback, hzero i hi,
        if_neg fun h => absurd h.2 (by omega)]

/-! ## The commands -/

/-- A command with a size in it, as a client sends it. -/
inductive SizedCall : Type
  | setrange (key : Key) (offset value : Bytes)
  | srandmember (key : Key) (count : Bytes)
  | eval (script : Bytes) (numKeys : RespFrame) (rest : Parts)
  | evalsha (sha1 : Bytes) (numKeys : RespFrame) (rest : Parts)

/-- Every script ends with a reply. -/
def LuaEngine.Finishes (lua : LuaEngine) : Prop :=
  ∀ script keys args db (ω : Nat → Ctx) (w : World),
    ∃ reply w', (lua.eval script keys args db).run (World.step ω) w = (.ok reply, w')

namespace SizedCall

/-- What the dispatch table does with the command. -/
def run (env : Env) (db : Nat) : SizedCall → Action
  | setrange key offset value =>
      Action.storing env (handleSetrange db
        [.fromString "SETRANGE", .fromBytes key, .fromBytes offset, .fromBytes value]) .reply
  | srandmember key count =>
      Action.storing env (handleSrandmember db [.fromString "SRANDMEMBER", .fromBytes key, .fromBytes count]) .reply
  | eval script numKeys rest =>
      Action.storing env (handleEval env.lua db (.fromString "EVAL" :: .fromBytes script :: numKeys :: rest)) .reply
  | evalsha sha1 numKeys rest =>
      Server.handleEvalsha env (.fromString "EVALSHA" :: .fromBytes sha1 :: numKeys :: rest)

/-- A reply to SETRANGE that is a number is the length of the string then under the key:
what was there, from nothing where the key was absent, under the overlay. -/
def Overlays (db : Nat) (before after : Engine) (reply : RespFrame) : SizedCall → Prop
  | setrange key text value => ∀ n, reply = .integer n → ∃ offset old new after',
      parseU64 (fromUtf8Lossy text) = some offset ∧
      (before.entryAt db key = none ∧ old = [] ∨
        ∃ sv, before.entryAt db key = some sv ∧ sv.value = .string old) ∧
      after.entryAt db key = some after' ∧ after'.value = .string new ∧
      n = new.length ∧ Overlaid old offset value new
  | _ => True

/-- Whatever the script is, as long as it ends with a reply itself, the command is answered,
and an overlay is one. -/
def Safe (env : Env) (db : Nat) (s : Server) (c : SizedCall) : Prop :=
  ∀ lua : LuaEngine, lua.Finishes → ∃ reply s', c.run { env with lua := lua } db s = (.ok reply, s') ∧
    c.Overlays db s.world.engine s'.world.engine reply

/-- The size does not fit: the end of the overlay where there is a string to overlay or no
key, the room for the members where there are members, the end of the keys where there is
a script. -/
def TooLarge (db : Nat) (s : Server) : SizedCall → Prop
  | setrange key text value =>
      db < s.world.engine.databases.length ∧
      (∃ offset, parseU64 (fromUtf8Lossy text) = some offset ∧ KeyOps.maxCapacity < offset + value.length) ∧
      ∀ sv, s.world.engine.entryAt db key = some sv → ∃ bytes, sv.value = .string bytes
  | srandmember key text =>
      (∃ n, parseI64 (fromUtf8Lossy text) = some n ∧ n < 0 ∧ KeyOps.maxCapacity < n.natAbs * 24) ∧
      ∃ sv members, s.world.engine.entryAt db key = some sv ∧ sv.value = .set members ∧ members.keyList ≠ []
  | eval script numKeys _ =>
      (fromUtf8 script).isSome ∧ ∃ n, numKeysArg (some numKeys) = .ok n ∧ 2 ^ 64 ≤ 3 + n
  | evalsha sha1 numKeys _ =>
      ((fromUtf8 sha1).bind s.scriptCache.get?).isSome ∧ ∃ n, numKeysArg (some numKeys) = .ok n ∧ 2 ^ 64 ≤ 3 + n

end SizedCall

/-! ## One operation on one key -/

section OneOperation

variable {ω : Nat → Ctx} {w : World} {db : Nat} {key : Key} {α : Type}

/-- A handler of one operation answers unless the operation panics. -/
theorem run_onKey_answers {c : KeyCmd α} {st : KeyStep α}
    (hst : c.step key (ω w.calls) (w.engine.entryAt db key) = st) (hcharge : st.charge = none)
    (render : α → RespFrame) :
    (∃ reply w', (onKey .reply db key c render).run (World.step ω) w = (.ok reply, w')) ↔
      ¬ (db < w.engine.databases.length ∧ st.result = .panic) := by
  rcases run_onKey_ends hst hcharge render with
    ⟨⟨msg, w', hrun⟩, hresult⟩ | ⟨a, w', -, hresult, hrun, -⟩ | ⟨hdb, hresult, hrun⟩
  · refine iff_of_true ⟨_, w', hrun⟩ fun h => ?_
    obtain ⟨e, he⟩ := hresult h.1
    rw [he] at h
    cases h.2
  · refine iff_of_true ⟨_, w', hrun⟩ fun h => ?_
    rw [hresult] at h
    cases h.2
  · refine iff_of_false ?_ fun h => h ⟨hdb, hresult⟩
    rintro ⟨reply, w', hreply⟩
    rw [hreply] at hrun
    cases hrun

end OneOperation

/-- A program whose answer is the reply. -/
theorem storing_reply (env : Env) (p : StoreProg RespFrame) (s : Server) :
    Action.storing env p .reply s =
      ((p.run (World.step env.ω) s.world).1, { s with world := (p.run (World.step env.ω) s.world).2 }) := by
  unfold Action.storing Server.onStore
  rcases p.run (World.step env.ω) s.world with ⟨f | err | _, w'⟩ <;> rfl

theorem storing_answers (env : Env) (p : StoreProg RespFrame) (s : Server) :
    (∃ reply s', Action.storing env p .reply s = (.ok reply, s')) ↔
      ∃ reply w', p.run (World.step env.ω) s.world = (.ok reply, w') := by
  rw [storing_reply]
  constructor
  · rintro ⟨reply, s', h⟩
    have hfirst := congrArg Prod.fst h
    exact ⟨reply, _, Prod.ext hfirst rfl⟩
  · rintro ⟨reply, w', h⟩
    exact ⟨reply, { s with world := w' }, by rw [h]⟩

/-! ## SETRANGE -/

section Setrange

variable {db : Nat} {key : Key} {offset : Nat} {value text : Bytes}

theorem setrange_step (ctx : Ctx) (entry : Option StoredValue) :
    ((KeyCmd.setrange offset value).step key ctx entry).charge = none ∧
    (((KeyCmd.setrange offset value).step key ctx entry).result = .panic ↔
      KeyOps.maxCapacity < offset + value.length ∧
        ∀ sv, entry = some sv → ∃ bytes, sv.value = .string bytes) ∧
    ∀ n, ((KeyCmd.setrange offset value).step key ctx entry).result = .ok n → ∃ old new after',
      (entry = none ∧ old = [] ∨ ∃ sv, entry = some sv ∧ sv.value = .string old) ∧
      ((KeyCmd.setrange offset value).step key ctx entry).entry.leaves entry = some after' ∧
      after'.value = .string new ∧ n = new.length ∧ Overlaid old offset value new := by
  have hnew (old : Bytes) := overlaid_overlay old offset value
  simp only [KeyCmd.step, KeyOps.setrange, KeyOps.onString]
  cases entry with
  | none =>
      dsimp only
      split
      · next hlarge => exact ⟨rfl, iff_of_true rfl ⟨hlarge, by rintro _ ⟨⟩⟩, by rintro _ ⟨⟩⟩
      · next hfits =>
          refine ⟨rfl, iff_of_false (by rintro ⟨⟩) fun h => hfits h.1, fun n hn => ⟨[], _, _, .inl ⟨rfl, rfl⟩, rfl, rfl, ?_, hnew []⟩⟩
          rw [(hnew []).1, ← Outcome.ok.inj hn]
          exact (Nat.max_eq_right (Nat.zero_le _)).symm
  | some sv =>
      dsimp only
      split
      · next old hv =>
          split
          · next hlarge =>
              refine ⟨rfl, iff_of_true rfl ⟨hlarge, ?_⟩, by rintro _ ⟨⟩⟩
              rintro _ ⟨⟩
              exact ⟨old, hv⟩
          · next hfits =>
              refine ⟨rfl, iff_of_false (by rintro ⟨⟩) fun h => hfits h.1,
                fun n hn => ⟨old, _, _, .inr ⟨sv, rfl, hv⟩, rfl, rfl, ?_, hnew old⟩⟩
              rw [(hnew old).1, ← Outcome.ok.inj hn]
      · next hother =>
          refine ⟨rfl, iff_of_false (by rintro ⟨⟩) fun h => ?_, by rintro _ ⟨⟩⟩
          obtain ⟨bytes, hv⟩ := h.2 sv rfl
          exact hother bytes hv

theorem handleSetrange_eq (hn : parseU64 (fromUtf8Lossy text) = some offset) :
    handleSetrange db [.fromString "SETRANGE", .fromBytes key, .fromBytes text, .fromBytes value] =
      onKey .reply db key (.setrange offset value) count := by
  have hnat : Args.nat [.fromString "SETRANGE", .fromBytes key, .fromBytes text, .fromBytes value] 2 "offset" =
      .ok offset := Args.numeral_of_text _ _ rfl hn
  change reading ((Args.nat [.fromString "SETRANGE", .fromBytes key, .fromBytes text, .fromBytes value] 2
    "offset").bind _) _ = _
  rw [hnat]
  rfl

theorem handleSetrange_refuses (hn : parseU64 (fromUtf8Lossy text) = none) :
    handleSetrange db [.fromString "SETRANGE", .fromBytes key, .fromBytes text, .fromBytes value] =
      .ret (.err Args.notInteger) := by
  have hnat : Args.nat [.fromString "SETRANGE", .fromBytes key, .fromBytes text, .fromBytes value] 2 "offset" =
      Args.reject Args.notInteger := Args.numeral_of_none _ _ rfl hn
  change reading ((Args.nat [.fromString "SETRANGE", .fromBytes key, .fromBytes text, .fromBytes value] 2
    "offset").bind _) _ = _
  rw [hnat]
  rfl

end Setrange

/-! ## SRANDMEMBER -/

section Srandmember

variable {db : Nat} {key : Key} {text : Bytes} {n : Int}

theorem srandmember_step (ctx : Ctx) (entry : Option StoredValue) :
    ((KeyCmd.srandmember n).step key ctx entry).charge = none ∧
    (((KeyCmd.srandmember n).step key ctx entry).result = .panic ↔
      (n < 0 ∧ KeyOps.maxCapacity < n.natAbs * 24) ∧
        ∃ sv members, entry = some sv ∧ sv.value = .set members ∧ members.keyList ≠ []) := by
  simp only [KeyCmd.step, KeyOps.srandmember, KeyOps.onSet]
  cases entry with
  | none => exact ⟨rfl, iff_of_false (by rintro ⟨⟩) fun h => by obtain ⟨-, sv, members, hsv, -⟩ := h; cases hsv⟩
  | some sv =>
      dsimp only
      split
      · next members hv =>
          have hset : (∃ sv' members', some sv = some sv' ∧ sv'.value = .set members' ∧ members'.keyList ≠ []) ↔
              members.keyList ≠ [] := by
            constructor
            · rintro ⟨_, members', ⟨⟩, hv', hne⟩
              rw [hv] at hv'
              cases hv'
              exact hne
            · exact fun hne => ⟨sv, members, rfl, hv, hne⟩
          rw [hset, ← List.isEmpty_eq_false_iff]
          have hnat : (-n).toNat = n.natAbs ∨ 0 ≤ n := by omega
          cases hempty : members.keyList.isEmpty with
          | true =>
              rw [if_pos rfl]
              exact ⟨rfl, iff_of_false (by rintro ⟨⟩) fun h => by cases h.2⟩
          | false =>
              rw [if_neg Bool.false_ne_true]
              by_cases hpos : 0 ≤ n
              · rw [if_pos hpos]
                exact ⟨rfl, iff_of_false (by rintro ⟨⟩) fun h => absurd h.1.1 (Int.not_lt.mpr hpos)⟩
              · rw [if_neg hpos]
                have hneg : n < 0 := Int.not_le.mp hpos
                split
                · next htrap =>
                    -- The least integer: its negation traps, and so would the vector.
                    have hleast : n = -2 ^ 63 := of_decide_eq_true (Bool.and_eq_true_iff.mp htrap).2
                    refine ⟨rfl, iff_of_true rfl ⟨⟨hneg, ?_⟩, rfl⟩⟩
                    rw [hleast]
                    decide
                · rw [hnat.resolve_right hpos]
                  split
                  · next hlarge => exact ⟨rfl, iff_of_true rfl ⟨⟨hneg, hlarge⟩, rfl⟩⟩
                  · next hfits => exact ⟨rfl, iff_of_false (by rintro ⟨⟩) fun h => hfits h.1.2⟩
      · next hother =>
          refine ⟨rfl, iff_of_false (by rintro ⟨⟩) fun h => ?_⟩
          obtain ⟨-, _, members, ⟨⟩, hv, -⟩ := h
          exact hother members hv

theorem handleSrandmember_eq (hn : parseI64 (fromUtf8Lossy text) = some n) :
    handleSrandmember db [.fromString "SRANDMEMBER", .fromBytes key, .fromBytes text] =
      onKey .reply db key (.srandmember n) items := by
  have hint : Args.int [.fromString "SRANDMEMBER", .fromBytes key, .fromBytes text] 2 "count" = .ok n :=
    Args.numeral_of_text _ _ rfl hn
  change reading ((((Args.int [.fromString "SRANDMEMBER", .fromBytes key, .fromBytes text] 2 "count").map
    some)).bind _) _ = _
  rw [hint]
  rfl

theorem handleSrandmember_refuses (hn : parseI64 (fromUtf8Lossy text) = none) :
    handleSrandmember db [.fromString "SRANDMEMBER", .fromBytes key, .fromBytes text] =
      .ret (.err Args.notInteger) := by
  have hint : Args.int [.fromString "SRANDMEMBER", .fromBytes key, .fromBytes text] 2 "count" =
      Args.reject Args.notInteger := Args.numeral_of_none _ _ rfl hn
  change reading ((((Args.int [.fromString "SRANDMEMBER", .fromBytes key, .fromBytes text] 2 "count").map
    some)).bind _) _ = _
  rw [hint]
  rfl

end Srandmember

/-! ## EVAL -/

/-- The script is reached, or refused with a reply, unless the sum of the sizes overflows. -/
theorem handleEval_ends {lua : LuaEngine} (hlua : lua.Finishes) (ω : Nat → Ctx) (w : World) (db : Nat)
    (name numKeys : RespFrame) (script : Bytes) (rest : Parts) :
    (∃ reply w', (handleEval lua db (name :: .fromBytes script :: numKeys :: rest)).run (World.step ω) w =
      (.ok reply, w')) ↔
    ¬ ((fromUtf8 script).isSome ∧ ∃ n, numKeysArg (some numKeys) = .ok n ∧ 2 ^ 64 ≤ 3 + n) := by
  have hlen : 3 ≤ (name :: RespFrame.fromBytes script :: numKeys :: rest).length := by
    rw [List.length_cons, List.length_cons, List.length_cons]
    omega
  have harity : Args.arity "eval" (3 ≤ (name :: RespFrame.fromBytes script :: numKeys :: rest).length) = .ok () := by
    rw [Args.arity, decide_eq_true hlen]
    rfl
  have hscript : (name :: RespFrame.fromBytes script :: numKeys :: rest)[1]?.bind RespFrame.bulk? = some script := rfl
  have hkeys : (name :: RespFrame.fromBytes script :: numKeys :: rest)[2]? = some numKeys := rfl
  unfold handleEval
  rw [harity, hscript, hkeys]
  dsimp only [bind, Except.bind, pure, Except.pure, Args.reject]
  cases hutf8 : fromUtf8 script with
  | none => exact iff_of_true ⟨_, _, rfl⟩ fun h => nomatch h.1
  | some s =>
      cases hnum : numKeysArg (some numKeys) with
      | error reply => exact iff_of_true ⟨_, _, rfl⟩ fun h => by obtain ⟨-, n, hn, -⟩ := h; cases hn
      | ok n =>
          change (∃ reply w', (if 2 ^ 64 ≤ 3 + n then Prog.panic else _).run (World.step ω) w = (.ok reply, w')) ↔ _
          split
          · next hlarge =>
              refine iff_of_false ?_ fun h => h ⟨rfl, n, rfl, hlarge⟩
              rintro ⟨reply, w', hrun⟩
              cases hrun
          · next hfits =>
              refine iff_of_true ?_ ?_
              · unfold reading
                split
                · next _ strings _ => exact hlua s strings.1 strings.2 db ω w
                · exact ⟨_, _, rfl⟩
              · rintro ⟨-, n', hn', hlarge⟩
                cases hn'
                exact hfits hlarge

/-! ## Together -/

section Sizes

variable (env : Env) (db : Nat) (s : Server)

/-- There is an engine whose scripts all end. -/
theorem quiet_finishes : (Env.quiet none).lua.Finishes := fun _ _ _ _ _ w => ⟨.nullBulk, w, rfl⟩

theorem safe_setrange (key : Key) (text value : Bytes) :
    (SizedCall.setrange key text value).Safe env db s ↔ ¬ (SizedCall.setrange key text value).TooLarge db s := by
  cases hn : parseU64 (fromUtf8Lossy text) with
  | none =>
      refine iff_of_true (fun lua _ => ⟨.err Args.notInteger, s, ?_, nofun⟩) fun h => ?_
      · rw [SizedCall.run, handleSetrange_refuses hn, storing_reply]
        rfl
      · obtain ⟨-, ⟨offset, hn', -⟩, -⟩ := h
        rw [hn] at hn'
        cases hn'
  | some offset =>
      obtain ⟨hcharge, hpanic, hok⟩ := @setrange_step key offset value (env.ω s.world.calls)
        (s.world.engine.entryAt db key)
      have hlarge : (SizedCall.setrange key text value).TooLarge db s ↔ db < s.world.engine.databases.length ∧
          ((KeyCmd.setrange offset value).step key (env.ω s.world.calls) (s.world.engine.entryAt db key)).result =
            .panic := by
        rw [hpanic]
        constructor
        · rintro ⟨hdb, ⟨offset', hn', hlarge⟩, hentry⟩
          rw [hn] at hn'
          cases hn'
          exact ⟨hdb, hlarge, hentry⟩
        · exact fun ⟨hdb, hlarge, hentry⟩ => ⟨hdb, ⟨offset, hn, hlarge⟩, hentry⟩
      unfold SizedCall.Safe
      simp only [SizedCall.run, handleSetrange_eq hn, storing_reply]
      rw [hlarge]
      rcases @run_onKey_ends env.ω s.world db key _ _ _ rfl hcharge count with
        ⟨⟨msg, w', hrun⟩, hresult⟩ | ⟨n, w', -, hresult, hrun, hentry⟩ | ⟨hdb, hresult, hrun⟩
      · refine iff_of_true (fun lua _ => ⟨.err msg, { s with world := w' }, by rw [hrun], nofun⟩) fun h => ?_
        obtain ⟨e, he⟩ := hresult h.1
        rw [he] at h
        cases h.2
      · refine iff_of_true (fun lua _ => ⟨count n, { s with world := w' }, by rw [hrun], fun m hm => ?_⟩) fun h => ?_
        · obtain ⟨old, new, after', hold, hleaves, hnew, hlen, hover⟩ := hok n hresult
          refine ⟨offset, old, new, after', hn, hold, hentry.trans hleaves, hnew, ?_, hover⟩
          rw [← RespFrame.integer.inj hm, hlen]
        · rw [hresult] at h
          cases h.2
      · refine iff_of_false (fun h => ?_) fun h => h ⟨hdb, hresult⟩
        obtain ⟨reply, s', hreply, -⟩ := h _ quiet_finishes
        have hfirst := congrArg Prod.fst hreply
        rw [hrun] at hfirst
        cases hfirst

/-- Where there is nothing to say of the reply, only that there is one is at stake. -/
theorem safe_iff_answers {c : SizedCall} (hover : ∀ before after reply, c.Overlays db before after reply) :
    c.Safe env db s ↔
      ∀ lua : LuaEngine, lua.Finishes → ∃ reply s', c.run { env with lua := lua } db s = (.ok reply, s') := by
  constructor
  · intro h lua hlua
    obtain ⟨reply, s', hrun, -⟩ := h lua hlua
    exact ⟨reply, s', hrun⟩
  · intro h lua hlua
    obtain ⟨reply, s', hrun⟩ := h lua hlua
    exact ⟨reply, s', hrun, hover ..⟩

theorem safe_srandmember (key : Key) (text : Bytes) :
    (SizedCall.srandmember key text).Safe env db s ↔ ¬ (SizedCall.srandmember key text).TooLarge db s := by
  rw [safe_iff_answers env db s (c := .srandmember key text) fun _ _ _ => trivial]
  simp only [SizedCall.run, storing_answers]
  cases hn : parseI64 (fromUtf8Lossy text) with
  | none =>
      rw [handleSrandmember_refuses hn]
      refine iff_of_true (fun lua _ => ⟨_, _, rfl⟩) ?_
      rintro ⟨⟨n, hn', -⟩, -⟩
      rw [hn] at hn'
      cases hn'
  | some n =>
      obtain ⟨hcharge, hpanic⟩ := srandmember_step (n := n) (env.ω s.world.calls) (s.world.engine.entryAt db key)
      rw [handleSrandmember_eq hn, run_onKey_answers rfl hcharge, hpanic]
      constructor
      · rintro h ⟨⟨n', hn', hsize⟩, sv, members, hsv, hset⟩
        rw [hn] at hn'
        cases hn'
        exact h _ quiet_finishes ⟨Engine.lt_of_entryAt hsv, hsize, sv, members, hsv, hset⟩
      · rintro h lua - ⟨-, hsize, hset⟩
        exact h ⟨⟨n, hn, hsize⟩, hset⟩

theorem safe_eval (script : Bytes) (numKeys : RespFrame) (rest : Parts) :
    (SizedCall.eval script numKeys rest).Safe env db s ↔ ¬ (SizedCall.eval script numKeys rest).TooLarge db s := by
  rw [safe_iff_answers env db s (c := .eval script numKeys rest) fun _ _ _ => trivial]
  simp only [SizedCall.run, storing_answers]
  constructor
  · exact fun h => (handleEval_ends quiet_finishes env.ω s.world db (.fromString "EVAL") numKeys script rest).mp
      (h _ quiet_finishes)
  · exact fun h lua hlua => (handleEval_ends hlua env.ω s.world db (.fromString "EVAL") numKeys script rest).mpr h

theorem safe_evalsha (sha1 : Bytes) (numKeys : RespFrame) (rest : Parts) :
    (SizedCall.evalsha sha1 numKeys rest).Safe env db s ↔
      ¬ (SizedCall.evalsha sha1 numKeys rest).TooLarge db s := by
  have harity : Args.arity "evalsha"
      (3 ≤ (RespFrame.fromString "EVALSHA" :: RespFrame.fromBytes sha1 :: numKeys :: rest).length) = .ok () := by
    rw [Args.arity, decide_eq_true (by rw [List.length_cons, List.length_cons, List.length_cons]; omega)]
    rfl
  have hsha : (RespFrame.fromString "EVALSHA" :: RespFrame.fromBytes sha1 :: numKeys :: rest)[1]?.bind
      RespFrame.bulk? = some sha1 := rfl
  rw [safe_iff_answers env db s (c := .evalsha sha1 numKeys rest) fun _ _ _ => trivial]
  simp only [SizedCall.run, SizedCall.TooLarge, Server.handleEvalsha, harity, hsha, Option.bind_some]
  cases hname : fromUtf8 sha1 with
  | none => exact iff_of_true (fun lua _ => ⟨_, _, rfl⟩) fun h => by cases h.1
  | some name =>
      dsimp only [bind, Except.bind, pure, Except.pure, Action.reading, Option.bind_some]
      cases hcached : s.scriptCache.get? name with
      | none => exact iff_of_true (fun lua _ => ⟨_, _, rfl⟩) fun h => by cases h.1
      | some script =>
          have hends {lua : LuaEngine} (hlua : lua.Finishes) :=
            handleEval_ends hlua env.ω s.world 0 (.fromString "EVAL") numKeys script.toBytes rest
          rw [fromUtf8_toBytes] at hends
          dsimp only
          simp only [storing_answers]
          exact ⟨fun h => (hends quiet_finishes).mp (h _ quiet_finishes), fun h lua hlua => (hends hlua).mpr h⟩

end Sizes

/-- A command with a size in it is answered, and an overlay is one, in every state and
whatever the script is, unless the size does not fit. -/
theorem sized_call_safe_iff (env : Env) (db : Nat) (s : Server) (c : SizedCall) :
    c.Safe env db s ↔ ¬ c.TooLarge db s := by
  cases c with
  | setrange key offset value => exact safe_setrange env db s key offset value
  | srandmember key count => exact safe_srandmember env db s key count
  | eval script numKeys rest => exact safe_eval env db s script numKeys rest
  | evalsha sha1 numKeys rest => exact safe_evalsha env db s sha1 numKeys rest

/-- SETRANGE at the last offset there is panics on an empty store. -/
theorem setrange_panics :
    ¬ (SizedCall.setrange "k".toBytes (intBytes (2 ^ 64 - 1 : Nat)) "a".toBytes).Safe (Env.quiet none) 0
      (Server.initial (Engine.withConfig 16 .unlimited) "0" 1024) := by
  intro h
  refine (safe_setrange (Env.quiet none) 0 (Server.initial (Engine.withConfig 16 .unlimited) "0" 1024) "k".toBytes
    (intBytes (2 ^ 64 - 1 : Nat)) "a".toBytes).mp h ⟨by decide, ⟨2 ^ 64 - 1, ?_, by decide⟩, ?_⟩
  · rw [fromUtf8Lossy_of_fromUtf8 (fromUtf8_intBytes _)]
    exact parseU64_toString (by decide)
  · have hempty : (Server.initial (Engine.withConfig 16 .unlimited) "0" 1024).world.engine.entryAt 0 "k".toBytes =
        none := by decide +kernel
    intro sv hsv
    rw [hempty] at hsv
    cases hsv

end Ferrous
