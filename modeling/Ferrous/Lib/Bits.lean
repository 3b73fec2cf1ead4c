/-
# `Lib.Bits` — a string of bytes as one row of bits

The bits are numbered through, the highest of each byte first; behind the last byte they are
zero.  A bit is written by a mask, and the ones of some bytes are counted byte by byte.
-/
import Mathlib.Data.List.Range
import Mathlib.Data.Nat.Bitwise

namespace Lib

/-! ## One byte -/

/-- Bit `i` of a byte, the highest being bit 0. -/
def bitOf (b : UInt8) (i : Nat) : Bool := b.toBitVec.getLsbD (7 - i)

/-- The mask of bit `i`. -/
def bitMask (i : Nat) : UInt8 := 1 <<< UInt8.ofNat (7 - i)

/-- The byte with bit `i` written. -/
def putBitOf (b : UInt8) (i : Nat) (v : Bool) : UInt8 := if v then b ||| bitMask i else b &&& ~~~bitMask i

/-- The number of ones in a byte. -/
def onesOf (b : UInt8) : Nat := b.toBitVec.cpop.toNat

theorem bitOf_eq_testBit (b : UInt8) (i : Nat) : bitOf b i = b.toNat.testBit (7 - i) := rfl

/-- A bit is read by shifting it to the end. -/
theorem bitOf_eq_shift (b : UInt8) {i : Nat} (hi : i < 8) :
    ((b >>> UInt8.ofNat (7 - i)) &&& 1).toNat = (bitOf b i).toNat := by
  have hshift : (UInt8.ofNat (7 - i)).toNat % 8 = 7 - i := by
    rw [UInt8.toNat_ofNat']
    omega
  rw [UInt8.toNat_and, UInt8.toNat_shiftRight, hshift, bitOf_eq_testBit, Nat.testBit, Nat.and_comm 1,
    show UInt8.toNat 1 = 1 from rfl, Nat.and_one_is_mod]
  rcases Nat.mod_two_eq_zero_or_one (b.toNat >>> (7 - i)) with h | h
  all_goals rw [h]
  all_goals rfl

theorem bitOf_bitMask : ∀ i < 8, ∀ j < 8, bitOf (bitMask i) j = decide (j = i) := by decide

/-- Writing a bit changes that bit only. -/
theorem bitOf_putBitOf (b : UInt8) {i j : Nat} (hi : i < 8) (hj : j < 8) (v : Bool) :
    bitOf (putBitOf b i v) j = if j = i then v else bitOf b j := by
  have hmask : (bitMask i).toBitVec.getLsbD (7 - j) = decide (j = i) := bitOf_bitMask i hi j hj
  unfold bitOf putBitOf
  cases v with
  | true =>
      rw [if_pos rfl, UInt8.toBitVec_or, BitVec.getLsbD_or, hmask]
      split
      · next h => rw [decide_eq_true h, Bool.or_true]
      · next h => rw [decide_eq_false h, Bool.or_false]
  | false =>
      have hcut : decide (7 - j < 8) = true := decide_eq_true (by omega)
      rw [if_neg Bool.false_ne_true, UInt8.toBitVec_and, BitVec.getLsbD_and, UInt8.toBitVec_not, BitVec.getLsbD_not,
        hmask, hcut, Bool.true_and]
      split
      · next h => rw [decide_eq_true h, Bool.not_true, Bool.and_false]
      · next h => rw [decide_eq_false h, Bool.not_false, Bool.and_true]

theorem countP_range_eight (p : Nat → Bool) :
    (List.range 8).countP p = (p 0).toNat + (p 1).toNat + (p 2).toNat + (p 3).toNat + (p 4).toNat + (p 5).toNat +
      (p 6).toNat + (p 7).toNat := by
  have hbit (c : Bool) : (if c = true then 1 else 0) = c.toNat := by cases c <;> rfl
  simp only [List.range, List.range.loop, List.countP_cons, List.countP_nil, hbit]
  omega

theorem onesOf_eq_countP (b : UInt8) : onesOf b = (List.range 8).countP (bitOf b) := by
  have hle (i : Nat) : (b.toBitVec.getLsbD i).toNat ≤ 1 := Bool.toNat_le _
  have h₀ := hle 0
  have h₁ := hle 1
  have h₂ := hle 2
  have h₃ := hle 3
  have h₄ := hle 4
  have h₅ := hle 5
  have h₆ := hle 6
  have h₇ := hle 7
  rw [countP_range_eight]
  unfold onesOf
  simp only [BitVec.cpop, BitVec.cpopNatRec, BitVec.toNat_ofNat, bitOf, Nat.sub_self, Nat.sub_zero, Nat.reduceSub]
  omega

/-- Only the zero byte has no ones. -/
theorem onesOf_eq_zero {b : UInt8} : onesOf b = 0 ↔ b = 0 := by
  constructor
  · intro h
    rw [onesOf_eq_countP, List.countP_eq_zero] at h
    refine UInt8.toBitVec_inj.mp (BitVec.eq_of_getLsbD_eq fun i hi => ?_)
    have hbit := h (7 - i) (List.mem_range.mpr (by omega))
    have hback : 7 - (7 - i) = i := by omega
    rw [bitOf, hback] at hbit
    exact (Bool.eq_false_iff.mpr hbit).trans BitVec.getLsbD_zero.symm
  · rintro rfl
    decide

/-! ## A row of bytes -/

/-- The bit at an offset. -/
def bitAt (bytes : List UInt8) (offset : Nat) : Bool :=
  match bytes[offset / 8]? with
  | some b => bitOf b (offset % 8)
  | none => false

/-- The row with a bit written, and zeros up to it where it was shorter. -/
def putBit (bytes : List UInt8) (offset : Nat) (v : Bool) : List UInt8 :=
  let padded := bytes ++ List.replicate (offset / 8 + 1 - bytes.length) 0
  padded.set (offset / 8) (putBitOf (padded[offset / 8]?.getD 0) (offset % 8) v)

theorem bitOf_zero (i : Nat) : bitOf 0 i = false := BitVec.getLsbD_zero

/-- Zeros behind the end make no difference. -/
theorem bitAt_append_zeros (bytes : List UInt8) (n offset : Nat) :
    bitAt (bytes ++ List.replicate n 0) offset = bitAt bytes offset := by
  unfold bitAt
  rcases Nat.lt_or_ge (offset / 8) bytes.length with h | h
  · rw [List.getElem?_append_left h]
  · rw [List.getElem?_append_right h, List.getElem?_eq_none h, List.getElem?_replicate]
    split
    · next b hb =>
        split at hb
        · cases hb
          exact bitOf_zero _
        · cases hb
    · rfl

/-- A written bit reads back, and the others read as before. -/
theorem bitAt_putBit (bytes : List UInt8) (offset offset' : Nat) (v : Bool) :
    bitAt (putBit bytes offset v) offset' = if offset' = offset then v else bitAt bytes offset' := by
  rw [← bitAt_append_zeros bytes (offset / 8 + 1 - bytes.length) offset']
  unfold putBit
  have hin : offset / 8 < (bytes ++ List.replicate (offset / 8 + 1 - bytes.length) (0 : UInt8)).length := by
    rw [List.length_append, List.length_replicate]
    omega
  dsimp only
  generalize bytes ++ List.replicate (offset / 8 + 1 - bytes.length) (0 : UInt8) = padded at hin
  unfold bitAt
  rw [List.getElem?_set]
  by_cases hbyte : offset / 8 = offset' / 8
  · rw [if_pos hbyte, if_pos hin, ← hbyte, List.getElem?_eq_getElem hin, Option.getD_some]
    dsimp only
    rw [bitOf_putBitOf _ (Nat.mod_lt _ (by omega)) (Nat.mod_lt _ (by omega))]
    by_cases hbit : offset' % 8 = offset % 8
    · have hsame : offset' = offset := by omega
      rw [if_pos hbit, if_pos hsame]
    · have hother : offset' ≠ offset := fun h => hbit (by rw [h])
      rw [if_neg hbit, if_neg hother]
  · have hother : offset' ≠ offset := fun h => hbyte (by rw [h])
    rw [if_neg hbyte, if_neg hother]

/-! ## Counting ones -/

/-- The number of offsets with a one whose byte is within some range. -/
def countBits (bytes : List UInt8) (within : Nat → Bool) : Nat :=
  (List.range (8 * bytes.length)).countP fun offset => within (offset / 8) && bitAt bytes offset

theorem countBits_cons (b : UInt8) (bytes : List UInt8) (within : Nat → Bool) :
    countBits (b :: bytes) within =
      (if within 0 then onesOf b else 0) + countBits bytes fun i => within (i + 1) := by
  unfold countBits
  rw [List.length_cons, Nat.mul_add, Nat.mul_one, Nat.add_comm (8 * bytes.length) 8, List.range_add,
    List.countP_append, List.countP_map]
  have hhead : (List.range 8).countP (fun offset => within (offset / 8) && bitAt (b :: bytes) offset) =
      (List.range 8).countP fun offset => within 0 && bitOf b offset := by
    refine List.countP_congr fun offset hoffset => ?_
    have hlt := List.mem_range.mp hoffset
    have hdiv : offset / 8 = 0 := by omega
    have hmod : offset % 8 = offset := by omega
    rw [bitAt, hdiv, hmod]
    rfl
  have htail (offset : Nat) : (within ((8 + offset) / 8) && bitAt (b :: bytes) (8 + offset)) =
      (within (offset / 8 + 1) && bitAt bytes offset) := by
    have hdiv : (8 + offset) / 8 = offset / 8 + 1 := by omega
    have hmod : (8 + offset) % 8 = offset % 8 := by omega
    rw [bitAt, hdiv, hmod]
    rfl
  rw [hhead, onesOf_eq_countP]
  refine congrArg₂ _ ?_ (List.countP_congr fun offset _ => Bool.coe_iff_coe.mpr (htail offset))
  cases within 0 with
  | true => simp only [Bool.true_and, if_true]
  | false => simp only [Bool.false_and, List.countP_false, Bool.false_eq_true, if_false, Function.const]

/-- Only the bytes that are there are asked for. -/
theorem countBits_congr {bytes : List UInt8} {within within' : Nat → Bool}
    (h : ∀ i < bytes.length, within i = within' i) : countBits bytes within = countBits bytes within' := by
  unfold countBits
  refine List.countP_congr fun offset hoffset => ?_
  have hlt := List.mem_range.mp hoffset
  rw [h (offset / 8) (by omega)]

/-- Bytes outside of the range make no difference. -/
theorem countBits_eq_zero {bytes : List UInt8} {within : Nat → Bool} (h : ∀ i, within i = false) :
    countBits bytes within = 0 := by
  unfold countBits
  rw [List.countP_eq_zero]
  intro offset _
  rw [h, Bool.false_and]
  exact Bool.false_ne_true

/-- The ones of a slice are those of its bytes in the whole. -/
theorem sum_ones_slice (bytes : List UInt8) (first n : Nat) :
    (((bytes.drop first).take n).map onesOf).sum =
      countBits bytes fun i => decide (first ≤ i) && decide (i < first + n) := by
  induction bytes generalizing first n with
  | nil => rw [List.drop_nil, List.take_nil]; rfl
  | cons b bytes ih =>
      rw [countBits_cons]
      cases first with
      | zero =>
          cases n with
          | zero =>
              rw [List.take_zero, countBits_eq_zero fun i => by simp]
              rfl
          | succ n =>
              have hrest := ih 0 n
              rw [List.drop_zero] at hrest
              rw [List.drop_zero, List.take_succ_cons, List.map_cons, List.sum_cons, hrest]
              have hsame : (fun i => decide (0 ≤ i) && decide (i < 0 + n)) =
                  fun i => decide (0 ≤ i + 1) && decide (i + 1 < 0 + (n + 1)) := by
                funext i
                rw [decide_eq_true (Nat.zero_le i), decide_eq_true (Nat.zero_le (i + 1)), Bool.true_and, Bool.true_and,
                  decide_eq_decide]
                omega
              rw [hsame]
              refine congrArg (· + _) (if_pos ?_).symm
              simp
      | succ first =>
          have hsame : (fun i => decide (first ≤ i) && decide (i < first + n)) =
              fun i => decide (first + 1 ≤ i + 1) && decide (i + 1 < first + 1 + n) := by
            funext i
            congr 1 <;> rw [decide_eq_decide] <;> omega
          rw [List.drop_succ_cons, ih first n, hsame, if_neg (by simp), Nat.zero_add]

end Lib
