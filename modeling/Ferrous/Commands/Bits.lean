/-
# `Commands.Bits` — single bits of a string

GETBIT, SETBIT and BITCOUNT read a string as a row of bits, the highest of each byte first.
The executor does so by shifts and masks, and takes for BITCOUNT a slice whose two ends it
clamps into the string one by one.  The empty string has no byte to clamp to, and a range
that lies beside the string, or ends before it starts, is clamped onto one of its bytes or
turned around.
-/
import Ferrous.Commands.Executor
import Ferrous.Commands.Failures
import Ferrous.Commands.ListRemovals
import Ferrous.Commands.Strings
import Ferrous.Lib.Bits

namespace Ferrous

open Lib

/-! ## Commands -/

/-- `BitCommand`. -/
inductive BitCommand
  | getBit (key : Key) (offset : Nat)
  | setBit (key : Key) (offset : Nat) (value : UInt8)
  | bitCount (key : Key) (start stop : Option Int)

namespace CommandParser

/-- `parse_getbit`. -/
def parseGetbit : Parts → Except FerrousError BitCommand
  | [_, key, offset] => do
      let key ← extractBytes key
      let offset ← extractUsize offset
      return .getBit key offset
  | _ => .error (.command (.wrongNumberOfArguments "GETBIT"))

/-- `parse_setbit`. -/
def parseSetbit : Parts → Except FerrousError BitCommand
  | [_, key, offset, value] => do
      let key ← extractBytes key
      let offset ← extractUsize offset
      match ← extractString value with
      | "0" => return .setBit key offset 0
      | "1" => return .setBit key offset 1
      | _ => .error (.command (.invalidArgument "bit value must be 0 or 1"))
  | _ => .error (.command (.wrongNumberOfArguments "SETBIT"))

/-- `parse_bitcount`: of a start without an end nothing is read. -/
def parseBitcount : Parts → Except FerrousError BitCommand
  | [_, key, start, stop] => do
      let key ← extractBytes key
      let start ← extractI64 start
      let stop ← extractI64 stop
      return .bitCount key (some start) (some stop)
  | [_, key] | [_, key, _] => return .bitCount (← extractBytes key) none none
  | _ => .error (.command (.wrongNumberOfArguments "BITCOUNT"))

end CommandParser

namespace Executor

/-- `n as usize`, of an `isize`. -/
def asUsize (n : Int) : Nat := if n < 0 then (2 ^ 64 + n).toNat else n.toNat

/-- `&value[start..=end]`; a start past the end, or an end past the string, panics. -/
def sliceInclusive (value : Bytes) (start stop : Nat) : Option Bytes :=
  if start ≤ stop + 1 ∧ stop + 1 ≤ value.length then some ((value.drop start).take (stop + 1 - start)) else none

/-- The bytes BITCOUNT counts in. -/
def bitCountSlice (value : Bytes) (start stop : Option Int) : Option Bytes :=
  let len : Int := value.length
  let (startByte, endByte) :=
    match start, stop with
    | some s, some e =>
        (asUsize (if s < 0 then max (len + s) 0 else min s (len - 1)),
          asUsize (if e < 0 then max (len + e) 0 else min e (len - 1)))
    | _, _ => (0, value.length - 1)
  sliceInclusive value startByte (min endByte (value.length - 1))

/-- `execute_bit`.  An offset is a `usize`, so that its byte is far from the capacity limit. -/
def executeBit (db : Nat) : BitCommand → StoreProg RespFrame
  | .getBit key offset => do
      match ← need (.key db key .getString) with
      | some value =>
          match value[offset / 8]? with
          | some byte => return count ((byte >>> UInt8.ofNat (7 - offset % 8)) &&& 1).toNat
          | none => return count 0
      | none => return count 0
  | .setBit key offset value => do
      let existing ← need (.key db key .getString)
      let data := existing.getD []
      let data :=
        if data.length ≤ offset / 8 then data ++ List.replicate (offset / 8 + 1 - data.length) 0 else data
      match data[offset / 8]? with
      | none => .panic
      | some byte =>
          let oldBit := (byte >>> UInt8.ofNat (7 - offset % 8)) &&& 1
          let byte :=
            if value = 1 then byte ||| (1 <<< UInt8.ofNat (7 - offset % 8))
            else byte &&& ~~~(1 <<< UInt8.ofNat (7 - offset % 8))
          need (.key db key (setString (data.set (offset / 8) byte) none))
          return count oldBit.toNat
  | .bitCount key start stop => do
      match ← need (.key db key .getString) with
      | some value =>
          match bitCountSlice value start stop with
          | some slice => return count (slice.map onesOf).sum
          | none => .panic
      | none => return count 0

end Executor

/-! ## What the commands read -/

section Bits

variable {ω : Nat → Ctx} {w : World} {db : Nat} {key : Key}

/-- The string that is read under a key, none where there is no key or its deadline has
passed. -/
structure Seen (ω : Nat → Ctx) (w : World) (db : Nat) (key : Key) (value : Option Bytes) : Prop where
  database : db < w.engine.databases.length
  read : (KeyCmd.getString.step key (ω w.calls) (w.engine.entryAt db key)).result = .ok value

theorem Seen.step {value : Option Bytes} (h : Seen ω w db key value) :
    ∃ w', World.step ω _ (.key db key .getString) w = (.ok value, w') ∧
      OnlyChanges db key w.engine w'.engine := by
  have hcharge : (KeyCmd.getString.step key (ω w.calls) (w.engine.entryAt db key)).charge = none := by
    simp only [KeyCmd.step, KeyOps.getString, KeyOps.viaGet]
    split
    · rfl
    · split <;> rfl
  obtain ⟨e', hstep, hch, -⟩ := World.step_of_admitted (ω := ω) key .getString h.database
    (Engine.refuses_of_charge hcharge)
  rw [h.read] at hstep
  exact ⟨_, hstep, hch⟩

/-- A string without a deadline is read at every time. -/
theorem seen_of_entry {bytes : Bytes} (h : w.engine.entryAt db key = some ⟨.string bytes, none⟩) :
    Seen ω w db key (some bytes) := by
  refine ⟨Engine.lt_of_entryAt h, ?_⟩
  rw [h]
  rfl

/-! ## GETBIT and SETBIT -/

/-- GETBIT answers the bit of the row. -/
theorem run_getBit {value : Option Bytes} (h : Seen ω w db key value) (offset : Nat) :
    ((Executor.executeBit db (.getBit key offset)).run (World.step ω) w).1 =
      .ok (count (bitAt (value.getD []) offset).toNat) := by
  obtain ⟨w', hstep, -⟩ := h.step
  rw [Executor.executeBit, run_need hstep]
  cases value with
  | none => rfl
  | some bytes =>
      dsimp only [Option.getD_some]
      unfold bitAt
      cases hbyte : bytes[offset / 8]? with
      | none => rfl
      | some byte =>
          dsimp only
          rw [bitOf_eq_shift byte (Nat.mod_lt _ (by omega))]
          rfl

/-- A string is stored without a deadline, unless the memory for it is refused. -/
theorem reach_setString (hdb : db < w.engine.databases.length) (value : Bytes) :
    (∃ w', World.step ω _ (.key db key (setString value none)) w = (.ok (), w') ∧
      w'.engine.entryAt db key = some ⟨.string value, none⟩) ∨
    w.engine.memory.maxMemory ≠ 0 ∧
      ∃ w', World.step ω _ (.key db key (setString value none)) w = (.err (.storage .outOfMemory), w') := by
  cases hrefuses : w.engine.refuses
      ((setString value none).step key (ω w.calls) (w.engine.entryAt db key)) with
  | false =>
      obtain ⟨e', hstep, -, hentry⟩ := World.step_of_admitted (ω := ω) key (setString value none) hdb hrefuses
      exact .inl ⟨_, hstep, hentry⟩
  | true =>
      refine .inr ⟨fun hunlimited => ?_, ?_⟩
      · rw [Engine.refuses_of_unlimited hunlimited] at hrefuses
        cases hrefuses
      · exact World.step_fails hdb (if_pos hrefuses)

/-- SETBIT answers the old bit, and leaves the row with the new one, unless it is refused
the memory. -/
theorem run_setBit {value : Option Bytes} (h : Seen ω w db key value) (offset : Nat) (bit : UInt8) :
    (∃ w', (Executor.executeBit db (.setBit key offset bit)).run (World.step ω) w =
        (.ok (count (bitAt (value.getD []) offset).toNat), w') ∧
      Seen ω w' db key (some (putBit (value.getD []) offset (decide (bit = 1))))) ∨
    w.engine.memory.maxMemory ≠ 0 ∧
      ((Executor.executeBit db (.setBit key offset bit)).run (World.step ω) w).1 =
        .err (.storage .outOfMemory) := by
  obtain ⟨w₁, hstep, hch⟩ := h.step
  rw [Executor.executeBit, run_need hstep]
  have hdb₁ : db < w₁.engine.databases.length := by
    rw [hch.length]
    exact h.database
  have hold := bitAt_append_zeros (value.getD []) (offset / 8 + 1 - (value.getD []).length) offset
  unfold putBit
  dsimp only
  generalize value.getD [] = data at hold
  have hdata : (if data.length ≤ offset / 8 then data ++ List.replicate (offset / 8 + 1 - data.length) (0 : UInt8)
      else data) = data ++ List.replicate (offset / 8 + 1 - data.length) 0 := by
    split
    · rfl
    · next hlong =>
        have hnone : offset / 8 + 1 - data.length = 0 := by omega
        rw [hnone, List.replicate_zero, List.append_nil]
  have hin : offset / 8 < (data ++ List.replicate (offset / 8 + 1 - data.length) (0 : UInt8)).length := by
    rw [List.length_append, List.length_replicate]
    omega
  rw [hdata, ← hold]
  generalize data ++ List.replicate (offset / 8 + 1 - data.length) (0 : UInt8) = padded at hin
  obtain ⟨byte, hbyte⟩ : ∃ byte, padded[offset / 8]? = some byte := ⟨_, List.getElem?_eq_getElem hin⟩
  have hshift := bitOf_eq_shift byte (Nat.mod_lt offset (by omega : 0 < 8))
  have hwrite : (if bit = 1 then byte ||| (1 <<< UInt8.ofNat (7 - offset % 8))
      else byte &&& ~~~(1 <<< UInt8.ofNat (7 - offset % 8))) = putBitOf byte (offset % 8) (decide (bit = 1)) := by
    unfold putBitOf bitMask
    simp only [decide_eq_true_eq]
  unfold bitAt
  rw [hbyte]
  dsimp only [Option.getD_some]
  rw [hshift, hwrite]
  rcases @reach_setString ω _ _ key hdb₁
      (padded.set (offset / 8) (putBitOf byte (offset % 8) (decide (bit = 1)))) with
    ⟨w', hset, hentry⟩ | ⟨hlimited, w', hset⟩
  · refine .inl ⟨w', ?_, seen_of_entry hentry⟩
    rw [run_need hset]
    rfl
  · refine .inr ⟨hch.maxMemory ▸ hlimited, ?_⟩
    rw [Prog.bind_eq, need, Prog.run_perform_bind, hset]
    rfl

/-! ## BITCOUNT -/

/-- The first byte of a range: a negative start counts from the end, and is raised to 0. -/
def rangeFirst (len : Nat) (s : Int) : Int := if s < 0 then max (len + s) 0 else s

/-- The last byte: a negative end counts from the end, and no end is behind the string. -/
def rangeLast (len : Nat) (e : Int) : Int := if e < 0 then len + e else min e (len - 1)

/-- The byte is within the range, where one is given. -/
def withinRange (len : Nat) (start stop : Option Int) (i : Nat) : Bool :=
  match start, stop with
  | some s, some e => decide (rangeFirst len s ≤ i) && decide (i ≤ rangeLast len e)
  | _, _ => true

/-- The string is not empty, and a range starts within it and ends behind its start, or it
is clamped to the bytes after its end of which there are none, or to one zero byte. -/
def Countable (bytes : Bytes) (start stop : Option Int) : Prop :=
  bytes ≠ [] ∧ ∀ s e, start = some s → stop = some e →
    rangeFirst bytes.length s ≤ rangeLast bytes.length e ∨
    min (rangeFirst bytes.length s) (bytes.length - 1) = max (rangeLast bytes.length e) 0 + 1 ∨
    min (rangeFirst bytes.length s) (bytes.length - 1) = max (rangeLast bytes.length e) 0 ∧
      bytes[(max (rangeLast bytes.length e) 0).toNat]? = some 0

theorem clamp_start {len : Nat} (hlen : 0 < len) (s : Int) :
    Executor.asUsize (if s < 0 then max (len + s) 0 else min s (len - 1)) =
      (min (rangeFirst len s) (len - 1)).toNat := by
  unfold Executor.asUsize rangeFirst
  split <;> split <;> omega

theorem clamp_stop {len : Nat} (hlen : 0 < len) (e : Int) :
    min (Executor.asUsize (if e < 0 then max (len + e) 0 else min e (len - 1))) (len - 1) =
      (max (rangeLast len e) 0).toNat := by
  unfold Executor.asUsize rangeLast
  split <;> split <;> omega

/-- A slice within the string. -/
theorem sliceInclusive_iff {bytes : Bytes} {start stop n : Nat} (hstop : stop < bytes.length) :
    (∃ slice, Executor.sliceInclusive bytes start stop = some slice ∧ (slice.map onesOf).sum = n) ↔
      start ≤ stop + 1 ∧ countBits bytes (fun i => decide (start ≤ i) && decide (i ≤ stop)) = n := by
  unfold Executor.sliceInclusive
  by_cases hstart : start ≤ stop + 1
  · have hsame : (fun i => decide (start ≤ i) && decide (i < start + (stop + 1 - start))) =
        fun i => decide (start ≤ i) && decide (i ≤ stop) := by
      funext i
      congr 1
      rw [decide_eq_decide]
      omega
    rw [if_pos ⟨hstart, hstop⟩, ← hsame, ← sum_ones_slice]
    simp only [Option.some.injEq, exists_eq_left', hstart, true_and]
  · rw [if_neg fun h => hstart h.1]
    refine iff_of_false ?_ fun h => hstart h.1
    rintro ⟨slice, ⟨⟩, -⟩

/-- Without a range the slice is the whole string. -/
theorem whole_slice {bytes : Bytes} (hlen : 0 < bytes.length) :
    ∃ slice, Executor.sliceInclusive bytes 0 (min (bytes.length - 1) (bytes.length - 1)) = some slice ∧
      (slice.map onesOf).sum = countBits bytes fun _ => true := by
  rw [Nat.min_self]
  refine (sliceInclusive_iff (by omega)).mpr ⟨Nat.zero_le _, countBits_congr fun i hi => ?_⟩
  rw [decide_eq_true (Nat.zero_le i), decide_eq_true (show i ≤ bytes.length - 1 by omega), Bool.and_self]

/-- Between clamped ends that lie the wrong way round there are no ones exactly if there is
no byte, or one zero byte. -/
theorem inverted_slice {bytes : Bytes} {first last : Int} (hfirst : 0 ≤ first) (hlast : last ≤ bytes.length - 1)
    (hlen : 0 < bytes.length) (hinverted : last < first) :
    (min first (bytes.length - 1)).toNat ≤ (max last 0).toNat + 1 ∧
      countBits bytes (fun i => decide ((min first (bytes.length - 1)).toNat ≤ i) &&
        decide (i ≤ (max last 0).toNat)) = 0 ↔
    min first (bytes.length - 1) = max last 0 + 1 ∨
      min first (bytes.length - 1) = max last 0 ∧ bytes[(max last 0).toNat]? = some 0 := by
  obtain ⟨a, ha⟩ : ∃ a : Nat, min first (bytes.length - 1) = a := ⟨_, (Int.toNat_of_nonneg (by omega)).symm⟩
  obtain ⟨b, hb⟩ : ∃ b : Nat, max last 0 = b := ⟨_, (Int.toNat_of_nonneg (by omega)).symm⟩
  have hin : b < bytes.length := by omega
  rw [ha, hb, Int.toNat_natCast, Int.toNat_natCast]
  rcases Nat.lt_trichotomy a (b + 1) with hlt | heq | hgt
  · -- both ends are clamped to the same byte
    obtain rfl : a = b := by omega
    have hsingle : countBits bytes (fun i => decide (a ≤ i) && decide (i ≤ a)) = onesOf bytes[a] := by
      have hwithin : (fun i => decide (a ≤ i) && decide (i ≤ a)) =
          fun i => decide (a ≤ i) && decide (i < a + 1) := by
        funext i
        congr 1
        rw [decide_eq_decide]
        exact Nat.lt_succ_iff.symm
      rw [hwithin, ← sum_ones_slice, List.drop_eq_getElem_cons hin]
      rfl
    rw [hsingle, onesOf_eq_zero, List.getElem?_eq_getElem hin, Option.some.injEq]
    constructor
    · exact fun h => .inr ⟨rfl, h.2⟩
    · rintro (h | ⟨-, h⟩)
      · omega
      · exact ⟨Nat.le_succ a, h⟩
  · refine iff_of_true ⟨Nat.le_of_eq heq, countBits_eq_zero fun i => ?_⟩ (.inl (by omega))
    rw [Bool.and_eq_false_iff, decide_eq_false_iff_not, decide_eq_false_iff_not]
    omega
  · refine iff_of_false (fun h => absurd h.1 (by omega)) ?_
    rintro (h | ⟨h, -⟩) <;> omega

/-- The slice has the ones of the range exactly if the range is countable. -/
theorem bitCountSlice_iff (bytes : Bytes) (start stop : Option Int) :
    (∃ slice, Executor.bitCountSlice bytes start stop = some slice ∧
      (slice.map onesOf).sum = countBits bytes (withinRange bytes.length start stop)) ↔
    Countable bytes start stop := by
  unfold Countable
  by_cases hempty : bytes = []
  · subst hempty
    refine iff_of_false ?_ fun h => h.1 rfl
    rintro ⟨slice, hslice, -⟩
    unfold Executor.bitCountSlice Executor.sliceInclusive at hslice
    dsimp only at hslice
    rw [if_neg fun h => absurd h.2 (by rw [List.length_nil]; omega)] at hslice
    cases hslice
  have hlen : 0 < bytes.length := List.length_pos_of_ne_nil hempty
  match start, stop with
  | none, stop => exact iff_of_true (whole_slice hlen) ⟨hempty, nofun⟩
  | some s, none => exact iff_of_true (whole_slice hlen) ⟨hempty, nofun⟩
  | some s, some e =>
      unfold Executor.bitCountSlice withinRange
      dsimp only
      rw [clamp_start hlen, clamp_stop hlen]
      have hfirst : 0 ≤ rangeFirst bytes.length s := by
        unfold rangeFirst
        split <;> omega
      have hlast : rangeLast bytes.length e ≤ bytes.length - 1 := by
        unfold rangeLast
        split <;> omega
      have hcond (P : Int → Int → Prop) : (bytes ≠ [] ∧ ∀ s' e', some s = some s' → some e = some e' →
          P (rangeFirst bytes.length s') (rangeLast bytes.length e')) ↔
            P (rangeFirst bytes.length s) (rangeLast bytes.length e) := by
        constructor
        · exact fun h => h.2 s e rfl rfl
        · intro h
          refine ⟨hempty, ?_⟩
          rintro _ _ ⟨⟩ ⟨⟩
          exact h
      rw [hcond fun first last => first ≤ last ∨ min first (bytes.length - 1) = max last 0 + 1 ∨
        min first (bytes.length - 1) = max last 0 ∧ bytes[(max last 0).toNat]? = some 0]
      generalize rangeFirst bytes.length s = first at hfirst
      generalize rangeLast bytes.length e = last at hlast
      rw [sliceInclusive_iff (by omega)]
      rcases Int.lt_or_le last first with hinverted | hle
      · rw [or_iff_right (Int.not_le.mpr hinverted), ← inverted_slice hfirst hlast hlen hinverted]
        have hnone : countBits bytes (fun i : Nat => decide (first ≤ i) && decide (i ≤ last)) = 0 := by
          refine countBits_eq_zero fun i => ?_
          rw [Bool.and_eq_false_iff, decide_eq_false_iff_not, decide_eq_false_iff_not]
          omega
        rw [hnone]
      · refine iff_of_true ⟨by omega, countBits_congr fun i _ => ?_⟩ (.inl hle)
        congr 1 <;> rw [decide_eq_decide] <;> omega

/-- BITCOUNT answers the number of ones in the range exactly if the range is countable. -/
theorem run_bitCount_iff {value : Option Bytes} (h : Seen ω w db key value) (start stop : Option Int) :
    ((Executor.executeBit db (.bitCount key start stop)).run (World.step ω) w).1 =
        .ok (count (countBits (value.getD []) (withinRange (value.getD []).length start stop))) ↔
      ∀ bytes, value = some bytes → Countable bytes start stop := by
  obtain ⟨w', hstep, -⟩ := h.step
  rw [Executor.executeBit, run_need hstep]
  cases value with
  | none => exact iff_of_true rfl nofun
  | some bytes =>
      have hone : (∀ bytes', some bytes = some bytes' → Countable bytes' start stop) ↔ Countable bytes start stop :=
        ⟨fun h => h bytes rfl, by rintro h _ ⟨⟩; exact h⟩
      rw [hone, ← bitCountSlice_iff]
      dsimp only [Option.getD_some]
      cases hslice : Executor.bitCountSlice bytes start stop with
      | none =>
          refine iff_of_false nofun ?_
          rintro ⟨slice, ⟨⟩, -⟩
      | some slice =>
          simp only [Option.some.injEq, exists_eq_left']
          constructor
          · intro h
            exact Int.ofNat.inj (RespFrame.integer.inj (Outcome.ok.inj h))
          · intro h
            exact congrArg (fun n => Outcome.ok (count n)) h

/-! ## The laws -/

/-- The commands on bits. -/
inductive BitName
  | getbit | setbit | bitcount
  deriving DecidableEq, Repr

def BitName.parse : BitName → Parts → Except FerrousError BitCommand
  | getbit => CommandParser.parseGetbit
  | setbit => CommandParser.parseSetbit
  | bitcount => CommandParser.parseBitcount

/-- The command as the executor carries it out. -/
def BitName.program (name : BitName) (db : Nat) (parts : Parts) : StoreProg RespFrame :=
  Executor.execute (name.parse parts) (Executor.executeBit db)

/-- What GETBIT answers of an offset. -/
def bitFrame (value : Option Bytes) (offset : Nat) : RespFrame := count (bitAt (value.getD []) offset).toNat

/-- GETBIT answers the bit of the string, 0 behind its end.  SETBIT answers the bit there
was; GETBIT then answers the bit written, and of every other offset what it did before.
BITCOUNT answers the number of offsets in the range that have a one.  SETBIT may be refused
the memory, where it is limited. -/
def BitLaw (ω : Nat → Ctx) (w : World) (db : Nat) (program : StoreProg RespFrame) : BitCommand → Prop
  | .getBit key offset => ∀ value, Seen ω w db key value →
      (program.run (World.step ω) w).1 = .ok (bitFrame value offset)
  | .setBit key offset bit => ∀ value, Seen ω w db key value →
      (∃ w', program.run (World.step ω) w = (.ok (bitFrame value offset), w') ∧
        ∀ offset', ((Executor.executeBit db (.getBit key offset')).run (World.step ω) w').1 =
          .ok (if offset' = offset then count bit.toNat else bitFrame value offset')) ∨
      w.engine.memory.maxMemory ≠ 0 ∧ (program.run (World.step ω) w).1 = .err (.storage .outOfMemory)
  | .bitCount key start stop => ∀ value, Seen ω w db key value →
      (program.run (World.step ω) w).1 =
        .ok (count (countBits (value.getD []) (withinRange (value.getD []).length start stop)))

/-- The only condition is on the range of BITCOUNT. -/
def BitCommand.Lawful (ω : Nat → Ctx) (w : World) (db : Nat) : BitCommand → Prop
  | .bitCount key start stop => ∀ bytes, Seen ω w db key (some bytes) → Countable bytes start stop
  | _ => True

/-- Only bits are written. -/
theorem parse_setBit {name : BitName} {parts : Parts} {key : Key} {offset : Nat} {bit : UInt8}
    (h : name.parse parts = .ok (.setBit key offset bit)) : bit = 0 ∨ bit = 1 := by
  cases name with
  | getbit =>
      simp only [BitName.parse, CommandParser.parseGetbit] at h
      split at h
      · obtain ⟨key', -, h⟩ := Args.bind_ok h
        obtain ⟨offset', -, h⟩ := Args.bind_ok h
        cases h
      · cases h
  | setbit =>
      simp only [BitName.parse, CommandParser.parseSetbit] at h
      split at h
      · obtain ⟨key', -, h⟩ := Args.bind_ok h
        obtain ⟨offset', -, h⟩ := Args.bind_ok h
        obtain ⟨text, -, h⟩ := Args.bind_ok h
        split at h
        · cases h
          exact .inl rfl
        · cases h
          exact .inr rfl
        · cases h
      · cases h
  | bitcount =>
      simp only [BitName.parse, CommandParser.parseBitcount] at h
      split at h
      · obtain ⟨key', -, h⟩ := Args.bind_ok h
        obtain ⟨start, -, h⟩ := Args.bind_ok h
        obtain ⟨stop, -, h⟩ := Args.bind_ok h
        cases h
      · obtain ⟨key', -, h⟩ := Args.bind_ok h
        cases h
      · obtain ⟨key', -, h⟩ := Args.bind_ok h
        cases h
      · cases h

end Bits

/-- Whatever the parser makes of the frames of a command obeys the laws of a row of bits, in
every state, unless BITCOUNT is given a string and a range that it cannot count. -/
theorem bit_laws_iff (ω : Nat → Ctx) (w : World) (db : Nat) (name : BitName) (parts : Parts) :
    (∀ command, name.parse parts = .ok command → BitLaw ω w db (name.program db parts) command) ↔
      ∀ command, name.parse parts = .ok command → command.Lawful ω w db := by
  refine forall_congr' fun command => forall_congr' fun hparse => ?_
  have hprogram : name.program db parts = Executor.executeBit db command := by
    rw [BitName.program, hparse]
    rfl
  rw [hprogram]
  cases command with
  | getBit key offset => exact iff_of_true (fun value hseen => run_getBit hseen offset) trivial
  | setBit key offset bit =>
      refine iff_of_true (fun value hseen => ?_) trivial
      rcases run_setBit hseen offset bit with ⟨w', hrun, hseen'⟩ | hrefused
      · refine .inl ⟨w', hrun, fun offset' => ?_⟩
        rw [run_getBit hseen', Option.getD_some, bitAt_putBit]
        split
        · rcases parse_setBit hparse with rfl | rfl <;> rfl
        · rfl
      · exact .inr hrefused
  | bitCount key start stop =>
      constructor
      · exact fun h bytes hseen => (run_bitCount_iff hseen start stop).mp (h _ hseen) bytes rfl
      · intro h value hseen
        refine (run_bitCount_iff hseen start stop).mpr ?_
        rintro bytes rfl
        exact h bytes hseen

/-- A store with an empty string. -/
def emptyString : World :=
  ⟨((Op.key 0 "k".toBytes (setString [] none)).run (.at 0) (Engine.withConfig 1 .unlimited)).2, 0⟩

theorem emptyString_entry : emptyString.engine.entryAt 0 "k".toBytes = some ⟨.string [], none⟩ := by
  decide +kernel

/-- BITCOUNT of an empty string panics. -/
theorem emptyString_bitcount :
    BitName.bitcount.parse [.fromString "BITCOUNT", .fromString "k"] = .ok (.bitCount "k".toBytes none none) ∧
      ¬ BitLaw (fun _ => .at 0) emptyString 0
        (BitName.bitcount.program 0 [.fromString "BITCOUNT", .fromString "k"]) (.bitCount "k".toBytes none none) := by
  refine ⟨rfl, fun hlaw => ?_⟩
  have hseen : Seen (fun _ => .at 0) emptyString 0 "k".toBytes (some []) := seen_of_entry emptyString_entry
  exact ((run_bitCount_iff hseen none none).mp (hlaw _ hseen) [] rfl).1 rfl

end Ferrous
