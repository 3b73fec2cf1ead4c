/-
# `Commands.LuaValues` — values on their way to a script and back

A script gets its keys and arguments as two tables of strings, and the reply of a command as
a Lua value; what it returns becomes a frame.  Bytes are taken for text on the way in, with
replacement characters where they are none, an empty table comes out as the null bulk string,
and the counter of the loop over a table is an `i32`.  Texts, integers and arrays of them cross
unchanged, but for the empty arrays.
-/
import Ferrous.Lib.Float64
import Ferrous.Protocol.Resp

namespace Ferrous

open Lib

/-! ## Lua values -/

/-- `mlua::Value`.  Of a table there are the values at the keys 1, 2 and so on, nil where
there is none; the other types of Lua are one. -/
inductive LuaValue
  | nil
  | boolean (b : Bool)
  | integer (n : Int)
  | number (x : Float64)
  | string (bytes : Bytes)
  | table (items : List LuaValue)
  | other

/-- `handle_command_error_with_context`: the script goes on with nil, or is aborted with the
text. -/
def handleCommandErrorWithContext (errorMsg : String) (isPcall : Bool) : Except String LuaValue :=
  if isPcall then .ok .nil
  else
    .error ("REDIS_CALL_ABORT:" ++
      if "ERR ".toList.isPrefixOf errorMsg.toList then errorMsg else "ERR " ++ errorMsg)

/-- `create_string`, of bytes taken for text. -/
def luaText (bytes : Bytes) : LuaValue := .string (fromUtf8Lossy bytes).toBytes

mutual

/-- `resp_frame_to_lua_value`. -/
def respFrameToLuaValue (isPcall : Bool) : RespFrame → Except String LuaValue
  | .simpleString bytes => .ok (luaText bytes)
  | .bulkString (some bytes) => .ok (luaText bytes)
  | .bulkString none => .ok .nil
  | .integer n => .ok (.integer n)
  | .error bytes => handleCommandErrorWithContext (fromUtf8Lossy bytes) isPcall
  | .array (some frames) => (respFramesToLuaValues isPcall frames).map .table
  | .array none => .ok .nil
  | _ => .ok .nil

@[inherit_doc respFrameToLuaValue]
def respFramesToLuaValues (isPcall : Bool) : List RespFrame → Except String (List LuaValue)
  | [] => .ok []
  | frame :: frames => do
      let value ← respFrameToLuaValue isPcall frame
      let values ← respFramesToLuaValues isPcall frames
      return value :: values

end

/-- `setup_keys_and_args`: the tables `KEYS` and `ARGV`. -/
def setupKeysAndArgs (keys args : List Bytes) : LuaValue × LuaValue :=
  (.table (keys.map luaText), .table (args.map luaText))

/-! ## Frames from Lua values -/

/-- `format!("{:.17}", x)` without the zeros at its end. -/
def trimmedDecimals (x : Float64) : String :=
  let q := Float64.roundDiv (x.scaled.natAbs * 10 ^ 17) (2 ^ 1074)
  let frac := toString (q % 10 ^ 17)
  let formatted := toString (q / 10 ^ 17) ++ "." ++ String.ofList (List.replicate (17 - frac.length) '0') ++ frac
  let trimmed := (formatted.toList.reverse.dropWhile (· == '0')).dropWhile (· == '.')
  (if x.sign then "-" else "") ++ String.ofList trimmed.reverse

/-- A number as a frame: an integer if it is one. -/
def numberToResp (x : Float64) : RespFrame :=
  if x.isNaN then .nullBulk
  else if x.isInf then .fromString (if x.sign then "-inf" else "inf")
  else if x.scaled % 2 ^ 1074 = 0 ∧ -2 ^ 63 ≤ x.scaled / 2 ^ 1074 ∧ x.scaled / 2 ^ 1074 ≤ 2 ^ 63 then
    .integer (min (x.scaled / 2 ^ 1074) (2 ^ 63 - 1))
  else .fromString (trimmedDecimals x)

/-- `i32::MAX`, the last value of the counter of the loop over a table. -/
def lastIndex : Nat := 2 ^ 31 - 1

mutual

/-- `lua_value_to_resp`; none where the counter of a loop overflows in a build that checks. -/
def luaValueToResp (overflowChecks : Bool) : LuaValue → Option RespFrame
  | .nil => some .nullBulk
  | .boolean b => some (.integer (if b then 1 else 0))
  | .integer n => some (.integer n)
  | .number x => some (numberToResp x)
  | .string bytes => some (.fromBytes bytes)
  | .table values =>
      (tableItems overflowChecks 1 values).map fun items => if items.isEmpty then .nullBulk else .list items
  | .other => some .nullBulk

/-- `for i in 1..`: the items up to the first nil.  To hand out a value of the counter its
successor is computed first; without checks it wraps, and at a negative key there is nothing. -/
def tableItems (overflowChecks : Bool) (i : Nat) : List LuaValue → Option (List RespFrame)
  | [] => if overflowChecks && i == lastIndex then none else some []
  | value :: values =>
      if overflowChecks && i == lastIndex then none
      else if lastIndex < i then some []
      else
        match value with
        | .nil => some []
        | value => do
            let item ← luaValueToResp overflowChecks value
            let items ← tableItems overflowChecks (i + 1) values
            return item :: items

end

/-! ## What crosses unchanged -/

/-- The bytes of a text. -/
def Utf8 (bytes : Bytes) : Prop := ∃ s : String, s.toBytes = bytes

/-- Exactly the bytes of texts are kept when they are taken for text. -/
theorem toBytes_fromUtf8Lossy_iff {bytes : Bytes} : (fromUtf8Lossy bytes).toBytes = bytes ↔ Utf8 bytes := by
  constructor
  · intro h
    exact ⟨_, h⟩
  · rintro ⟨s, rfl⟩
    rw [fromUtf8Lossy_of_fromUtf8 (fromUtf8_toBytes s)]

theorem luaText_eq_iff {bytes : Bytes} : luaText bytes = .string bytes ↔ Utf8 bytes := by
  rw [luaText, LuaValue.string.injEq, toBytes_fromUtf8Lossy_iff]

/-- The keys and the arguments that a script sees as they are. -/
theorem map_luaText_eq_iff {all : List Bytes} : all.map luaText = all.map .string ↔ ∀ bytes ∈ all, Utf8 bytes := by
  simp only [List.map_inj_left, luaText_eq_iff]

/-- A frame of an integer, a bulk string or an array. -/
inductive Plain : RespFrame → Prop
  | integer (n : Int) : Plain (.integer n)
  | bulkString (bytes : Bytes) : Plain (.bulkString (some bytes))
  | array (frames : List RespFrame) : Plain (.array (some frames))

theorem one_lt_lastIndex : 1 < lastIndex := by
  unfold lastIndex
  omega

/-- The longest table that is read to its end: the loop needs one more key to see that there
is nothing, and with checks one value of the counter after that. -/
def longestTable (overflowChecks : Bool) : Nat := if overflowChecks then lastIndex - 2 else lastIndex

/-- What the way to a script and back asks of a frame: bytes of a text, an array that is not
too long. -/
def Crosses (overflowChecks : Bool) : RespFrame → Prop
  | .bulkString (some bytes) => Utf8 bytes
  | .array (some frames) => frames.length ≤ longestTable overflowChecks
  | _ => True

mutual

/-- The frame with the null bulk string for every empty array. -/
def nullForEmpty : RespFrame → RespFrame
  | .array (some frames) => if frames.isEmpty then .nullBulk else .array (some (nullForEmptyAll frames))
  | f => f

@[inherit_doc nullForEmpty]
def nullForEmptyAll : List RespFrame → List RespFrame
  | [] => []
  | f :: fs => nullForEmpty f :: nullForEmptyAll fs

end

mutual

/-- Without empty arrays nothing is replaced. -/
theorem nullForEmpty_eq_self : ∀ f : RespFrame, f.Everywhere Plain → f.Everywhere (· ≠ .array (some [])) →
    nullForEmpty f = f
  | .array (some frames), h, hne => by
      have hframes : frames ≠ [] := fun hnil => hne.1 (congrArg (fun fs => RespFrame.array (some fs)) hnil)
      rw [nullForEmpty, if_neg fun hempty => hframes (List.isEmpty_iff.mp hempty),
        nullForEmptyAll_eq_self frames h.2 hne.2]
  | .integer _, _, _ => by simp [nullForEmpty]
  | .bulkString _, _, _ => by simp [nullForEmpty]
  | .array none, _, _ => by simp [nullForEmpty]
  | .simpleString _, _, _ => by simp [nullForEmpty]
  | .error _, _, _ => by simp [nullForEmpty]
  | .noResponse, _, _ => by simp [nullForEmpty]
  | .null, _, _ => by simp [nullForEmpty]
  | .boolean _, _, _ => by simp [nullForEmpty]
  | .double _, _, _ => by simp [nullForEmpty]
  | .map _, _, _ => by simp [nullForEmpty]
  | .set _, _, _ => by simp [nullForEmpty]

theorem nullForEmptyAll_eq_self : ∀ fs : List RespFrame, RespFrame.EverywhereAll Plain fs →
    RespFrame.EverywhereAll (· ≠ .array (some [])) fs → nullForEmptyAll fs = fs
  | [], _, _ => by rw [nullForEmptyAll]
  | f :: fs, h, hne => by
      rw [nullForEmptyAll, nullForEmpty_eq_self f h.1 hne.1, nullForEmptyAll_eq_self fs h.2 hne.2]

end

/-- The value stands for the frame in a script: it is not nil, and the frame comes back from it
if everything inside can cross. -/
structure Stands (f : RespFrame) (v : LuaValue) : Prop where
  not_nil : v ≠ .nil
  back : ∀ overflowChecks,
    luaValueToResp overflowChecks v = some (nullForEmpty f) ↔ f.Everywhere (Crosses overflowChecks)

/-- One round of the loop over a table, while its counter lasts. -/
theorem tableItems_cons {overflowChecks : Bool} {i : Nat} {v : LuaValue} {vs : List LuaValue} (hv : v ≠ .nil)
    (hi : i < if overflowChecks then lastIndex else lastIndex + 1) :
    tableItems overflowChecks i (v :: vs) = do
      let item ← luaValueToResp overflowChecks v
      let items ← tableItems overflowChecks (i + 1) vs
      return item :: items := by
  have hlast : (overflowChecks && i == lastIndex) = false := by
    cases overflowChecks with
    | false => rfl
    | true => simpa using Nat.ne_of_lt hi
  have hle : ¬ lastIndex < i := by
    cases overflowChecks with
    | false => exact Nat.not_lt.mpr (Nat.le_of_lt_succ hi)
    | true => exact Nat.not_lt.mpr (Nat.le_of_lt hi)
  rw [tableItems.eq_def]
  -- a value that is not nil takes the last branch
  simp only [hlast, Bool.false_eq_true, if_false, if_neg hle]

/-- At the end of its counter the loop reads nothing. -/
theorem tableItems_cons_last {overflowChecks : Bool} {v : LuaValue} {vs : List LuaValue} :
    tableItems overflowChecks (if overflowChecks then lastIndex else lastIndex + 1) (v :: vs) =
      if overflowChecks then none else some [] := by
  rw [tableItems.eq_def]
  cases overflowChecks with
  | false => simp
  | true => simp

/-- The loop over a table reads the frames its values stand for, as far as its counter goes. -/
theorem tableItems_eq_iff {overflowChecks : Bool} {fs : List RespFrame} {vs : List LuaValue}
    (h : List.Forall₂ Stands fs vs) {i : Nat} (hi : i ≤ if overflowChecks then lastIndex else lastIndex + 1) :
    tableItems overflowChecks i vs = some (nullForEmptyAll fs) ↔
      i + fs.length ≤ longestTable overflowChecks + 1 ∧ RespFrame.EverywhereAll (Crosses overflowChecks) fs := by
  induction h generalizing i with
  | nil =>
      cases overflowChecks with
      | false => simpa [tableItems, longestTable, nullForEmptyAll, RespFrame.EverywhereAll] using hi
      | true =>
          replace hi : i ≤ lastIndex := hi
          have hlimit : i + 0 ≤ lastIndex - 2 + 1 ↔ i ≠ lastIndex := by
            unfold lastIndex at hi ⊢
            omega
          simp [tableItems, longestTable, nullForEmptyAll, RespFrame.EverywhereAll, ← hlimit]
  | @cons f v fs vs hv _ ih =>
      rcases Nat.lt_or_eq_of_le hi with hlt | rfl
      · have hnext : i + 1 + fs.length = i + (f :: fs).length := by
          rw [List.length_cons, Nat.add_assoc, Nat.add_comm 1]
        rw [tableItems_cons hv.not_nil hlt]
        rw [RespFrame.EverywhereAll, and_left_comm, ← hnext, ← ih hlt, ← hv.back]
        simp only [nullForEmptyAll, Option.bind_eq_bind, Option.bind_eq_some_iff, Option.pure_def,
          Option.some.injEq, List.cons.injEq]
        constructor
        · rintro ⟨item, hitem, items, hitems, rfl, rfl⟩
          exact ⟨hitem, hitems⟩
        · rintro ⟨hitem, hitems⟩
          exact ⟨_, hitem, _, hitems, rfl, rfl⟩
      · rw [tableItems_cons_last]
        cases overflowChecks with
        | false =>
            refine iff_of_false (by simp [nullForEmptyAll]) fun h => ?_
            have hlen : lastIndex + 1 + (fs.length + 1) ≤ lastIndex + 1 := h.1
            omega
        | true =>
            refine iff_of_false (by simp [nullForEmptyAll]) fun h => ?_
            have hlen : lastIndex + (fs.length + 1) ≤ lastIndex - 2 + 1 := h.1
            unfold lastIndex at hlen
            omega

mutual

/-- A frame of integers, bulk strings and arrays is a value in a script. -/
theorem respFrameToLuaValue_stands (isPcall : Bool) : ∀ f : RespFrame, f.Everywhere Plain →
    ∃ v, respFrameToLuaValue isPcall f = .ok v ∧ Stands f v
  | .integer n, _ => by
      refine ⟨.integer n, by rw [respFrameToLuaValue], nofun, fun overflowChecks => ?_⟩
      simp [luaValueToResp, nullForEmpty, RespFrame.Everywhere, Crosses]
  | .bulkString (some bytes), _ => by
      refine ⟨luaText bytes, by rw [respFrameToLuaValue], nofun, fun overflowChecks => ?_⟩
      simp [luaText, luaValueToResp, nullForEmpty, RespFrame.fromBytes, RespFrame.Everywhere, Crosses,
        toBytes_fromUtf8Lossy_iff]
  | .array (some frames), h => by
      obtain ⟨vs, hvs, hstand⟩ := respFramesToLuaValues_stand isPcall frames h.2
      refine ⟨.table vs, by rw [respFrameToLuaValue, hvs]; rfl, nofun, fun overflowChecks => ?_⟩
      have hfirst : 1 ≤ if overflowChecks then lastIndex else lastIndex + 1 := by
        unfold lastIndex
        split <;> omega
      have hitems := tableItems_eq_iff hstand hfirst
      rw [Nat.add_comm 1, Nat.add_le_add_iff_right] at hitems
      rw [luaValueToResp, RespFrame.Everywhere, Crosses, ← hitems, nullForEmpty]
      cases hstand with
      | nil => simp [tableItems.eq_def, nullForEmptyAll, Nat.ne_of_lt one_lt_lastIndex]
      | cons _ _ =>
          simp only [nullForEmptyAll, Option.map_eq_some_iff, List.isEmpty_cons, Bool.false_eq_true, if_false]
          constructor
          · rintro ⟨items, htable, hback⟩
            split at hback
            · exact absurd hback nofun
            · cases hback
              exact htable
          · intro htable
            exact ⟨_, htable, rfl⟩
  | .bulkString none, h => nomatch (h : Plain _)
  | .array none, h => nomatch (h : Plain _)
  | .simpleString _, h => nomatch (h : Plain _)
  | .error _, h => nomatch (h : Plain _)
  | .noResponse, h => nomatch (h : Plain _)
  | .null, h => nomatch (h : Plain _)
  | .boolean _, h => nomatch (h : Plain _)
  | .double _, h => nomatch (h : Plain _)
  | .map _, h => nomatch (h.1 : Plain _)
  | .set _, h => nomatch (h.1 : Plain _)

@[inherit_doc respFrameToLuaValue_stands]
theorem respFramesToLuaValues_stand (isPcall : Bool) : ∀ fs : List RespFrame, RespFrame.EverywhereAll Plain fs →
    ∃ vs, respFramesToLuaValues isPcall fs = .ok vs ∧ List.Forall₂ Stands fs vs
  | [], _ => ⟨[], by rw [respFramesToLuaValues], .nil⟩
  | f :: fs, h => by
      obtain ⟨v, hv, hstands⟩ := respFrameToLuaValue_stands isPcall f h.1
      obtain ⟨vs, hvs, hstand⟩ := respFramesToLuaValues_stand isPcall fs h.2
      refine ⟨v :: vs, ?_, .cons hstands hstand⟩
      rw [respFramesToLuaValues, hv, hvs]
      rfl

end

/-- What a script is given and what it hands back: it sees the keys and the arguments as they
are, and the second frame comes back from the value that the first is read as. -/
def Crossing (overflowChecks isPcall : Bool) (keys args : List Bytes) (f back : RespFrame) : Prop :=
  setupKeysAndArgs keys args = (.table (keys.map .string), .table (args.map .string)) ∧
    ∃ v, respFrameToLuaValue isPcall f = .ok v ∧ luaValueToResp overflowChecks v = some back

/-- Frames cross, but for their empty arrays, exactly when all bytes are those of texts and no
array is longer than the loop can read. -/
theorem crossing_iff (overflowChecks isPcall : Bool) (keys args : List Bytes) {f : RespFrame}
    (hplain : f.Everywhere Plain) :
    Crossing overflowChecks isPcall keys args f (nullForEmpty f) ↔
      (∀ bytes ∈ keys ++ args, Utf8 bytes) ∧ f.Everywhere (Crosses overflowChecks) := by
  obtain ⟨v, hv, hstands⟩ := respFrameToLuaValue_stands isPcall f hplain
  have hback : (∃ v', respFrameToLuaValue isPcall f = .ok v' ∧
      luaValueToResp overflowChecks v' = some (nullForEmpty f)) ↔
      luaValueToResp overflowChecks v = some (nullForEmpty f) := by
    rw [hv]
    simp
  rw [Crossing, hback, hstands.back, setupKeysAndArgs, Prod.mk.injEq, LuaValue.table.injEq,
    LuaValue.table.injEq, map_luaText_eq_iff, map_luaText_eq_iff, List.forall_mem_append]

/-- A byte that is no text becomes a replacement character, and an empty array the null bulk
string. -/
theorem byte_and_empty_array_change :
    ¬ Crossing true false [[255]] [] (.integer 0) (.integer 0) ∧
      ¬ Crossing true false [] [] (.array (some [])) (.array (some [])) := by
  constructor
  · rintro ⟨hsetup, -⟩
    rw [setupKeysAndArgs, Prod.mk.injEq, LuaValue.table.injEq, map_luaText_eq_iff] at hsetup
    have hback := toBytes_fromUtf8Lossy_iff.mpr (hsetup.1 _ List.mem_cons_self)
    exact absurd hback (by decide)
  · rintro ⟨-, v, hv, hback⟩
    rw [respFrameToLuaValue, respFramesToLuaValues] at hv
    cases hv
    rw [luaValueToResp, tableItems.eq_def] at hback
    exact absurd hback nofun

/-- Texts cross unchanged as keys, as arguments and in frames of integers, bulk strings and
arrays that are not too long; an empty array comes back as the null bulk string. -/
theorem texts_cross (overflowChecks isPcall : Bool) {keys args : List Bytes} {f : RespFrame}
    (hbytes : ∀ bytes ∈ keys ++ args, Utf8 bytes) (hplain : f.Everywhere Plain)
    (hcrosses : f.Everywhere (Crosses overflowChecks)) :
    Crossing overflowChecks isPcall keys args f (nullForEmpty f) ∧
      (f.Everywhere (· ≠ .array (some [])) → Crossing overflowChecks isPcall keys args f f) := by
  have hcross := (crossing_iff overflowChecks isPcall keys args hplain).mpr ⟨hbytes, hcrosses⟩
  refine ⟨hcross, fun hne => ?_⟩
  rwa [nullForEmpty_eq_self f hplain hne] at hcross

/-- `[1, "a", []]` for a script with the key `a`. -/
theorem nested_crosses :
    Crossing true true ["a".toBytes] []
      (.array (some [.integer 1, .fromString "a", .array (some [])]))
      (.array (some [.integer 1, .fromString "a", .nullBulk])) := by
  have hcross := (@texts_cross true true ["a".toBytes] []
    (.array (some [.integer 1, .fromString "a", .array (some [])])) ?_ ?_ ?_).1
  · exact hcross
  · rintro bytes hmem
    exact ⟨"a", (List.mem_singleton.mp hmem).symm⟩
  · exact ⟨.array _, .integer 1, .bulkString _, ⟨.array _, trivial⟩, trivial⟩
  · exact ⟨(by decide : 3 ≤ longestTable true), trivial, ⟨"a", rfl⟩, ⟨Nat.zero_le _, trivial⟩, trivial⟩

end Ferrous
