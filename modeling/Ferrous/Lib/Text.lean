/-
# `Lib.Text` — byte strings, UTF-8 and decimal numerals

The text primitives a byte-oriented server leans on, with the conventions of
Rust's standard library: strict and lossy UTF-8 decoding (one U+FFFD for each
maximal ill-formed prefix), `to_uppercase`, `trim`, and the decimal readers of
`i64`, `u64` and `usize`.  Everything is structurally recursive, so a concrete
text is evaluated by the kernel.
-/
import Mathlib.Algebra.Ring.Int.Defs
import Mathlib.Algebra.Ring.Nat
import Mathlib.Data.List.Basic

/-- A byte string (`Vec<u8>`). -/
abbrev Bytes := List UInt8

instance : LawfulBEq Bytes := inferInstance

/-- The UTF-8 bytes of a text. -/
def String.toBytes (s : String) : Bytes := s.toUTF8.data.toList

namespace Lib

/-! ## UTF-8 -/

/-- Decoder state: between characters, or inside a sequence that still needs
`n + 1` continuation bytes, the next of them in `lo..hi`. -/
inductive Utf8State
  | start
  | more (n lo hi acc : Nat)
  deriving DecidableEq, Repr

/-- Read one byte between characters.  `none` in the output marks an
ill-formed sequence. -/
def utf8Lead (b : Nat) : Utf8State × List (Option Char) :=
  if b < 0x80 then (.start, [some (Char.ofNat b)])
  else if 0xC2 ≤ b ∧ b ≤ 0xDF then (.more 0 0x80 0xBF (b % 0x20), [])
  else if b = 0xE0 then (.more 1 0xA0 0xBF 0, [])
  else if b = 0xED then (.more 1 0x80 0x9F 0xD, [])
  else if 0xE1 ≤ b ∧ b ≤ 0xEF then (.more 1 0x80 0xBF (b % 0x10), [])
  else if b = 0xF0 then (.more 2 0x90 0xBF 0, [])
  else if 0xF1 ≤ b ∧ b ≤ 0xF3 then (.more 2 0x80 0xBF (b % 0x08), [])
  else if b = 0xF4 then (.more 2 0x80 0x8F 4, [])
  else (.start, [none])

/-- One decoding step.  A byte that cannot continue the open sequence closes
it as ill-formed and is read again as a lead byte. -/
def utf8Step : Utf8State → Nat → Utf8State × List (Option Char)
  | .start, b => utf8Lead b
  | .more n lo hi acc, b =>
      if lo ≤ b ∧ b ≤ hi then
        let acc' := acc * 0x40 + b % 0x40
        match n with
        | 0 => (.start, [some (Char.ofNat acc')])
        | n + 1 => (.more n 0x80 0xBF acc', [])
      else
        let (s, out) := utf8Lead b
        (s, none :: out)

/-- Decode from a given state; an open sequence at the end is ill-formed. -/
def utf8Decode : Utf8State → Bytes → List (Option Char)
  | .start, [] => []
  | .more .., [] => [none]
  | s, b :: bs =>
      let (s', out) := utf8Step s b.toNat
      out ++ utf8Decode s' bs

/-- `String::from_utf8_lossy`. -/
def fromUtf8Lossy (bs : Bytes) : String :=
  String.ofList ((utf8Decode .start bs).map (·.getD '\uFFFD'))

/-- `std::str::from_utf8`. -/
def fromUtf8 (bs : Bytes) : Option String :=
  ((utf8Decode .start bs).mapM id).map String.ofList

/-! ## Case and blanks -/

/-- `char::to_uppercase`.  The ASCII letters, every character whose upper case
contains an ASCII letter (so that it can take part in a command name), and the
Latin-1, Greek and Cyrillic letters; other scripts are left as they are. -/
def charToUppercase (c : Char) : List Char :=
  let n := c.toNat
  if 0x61 ≤ n ∧ n ≤ 0x7A then [Char.ofNat (n - 0x20)]
  else if n < 0x80 then [c]
  else if n = 0xDF then ['S', 'S']
  else if n = 0xB5 then [Char.ofNat 0x39C]
  else if n = 0xFF then [Char.ofNat 0x178]
  else if 0xE0 ≤ n ∧ n ≤ 0xFE ∧ n ≠ 0xF7 then [Char.ofNat (n - 0x20)]
  else if n = 0x131 then ['I']
  else if n = 0x149 then [Char.ofNat 0x2BC, 'N']
  else if n = 0x17F then ['S']
  else if n = 0x1F0 then ['J', Char.ofNat 0x30C]
  else if n = 0x1E96 then ['H', Char.ofNat 0x331]
  else if n = 0x1E97 then ['T', Char.ofNat 0x308]
  else if n = 0x1E98 then ['W', Char.ofNat 0x30A]
  else if n = 0x1E99 then ['Y', Char.ofNat 0x30A]
  else if n = 0x1E9A then ['A', Char.ofNat 0x2BE]
  else if n = 0xFB00 then ['F', 'F']
  else if n = 0xFB01 then ['F', 'I']
  else if n = 0xFB02 then ['F', 'L']
  else if n = 0xFB03 then ['F', 'F', 'I']
  else if n = 0xFB04 then ['F', 'F', 'L']
  else if n = 0xFB05 ∨ n = 0xFB06 then ['S', 'T']
  else if n = 0x3C2 then [Char.ofNat 0x3A3]
  else if 0x3B1 ≤ n ∧ n ≤ 0x3C9 then [Char.ofNat (n - 0x20)]
  else if 0x430 ≤ n ∧ n ≤ 0x44F then [Char.ofNat (n - 0x20)]
  else if 0x450 ≤ n ∧ n ≤ 0x45F then [Char.ofNat (n - 0x50)]
  else [c]

/-- `str::to_uppercase`. -/
def toUppercase (s : String) : String := String.ofList (s.toList.flatMap charToUppercase)

/-- `char::to_lowercase`, as far as `charToUppercase` goes; the two characters
beyond ASCII whose lower case contains an ASCII letter are the Kelvin sign and
the dotted capital I. -/
def charToLowercase (c : Char) : List Char :=
  let n := c.toNat
  if 0x41 ≤ n ∧ n ≤ 0x5A then [Char.ofNat (n + 0x20)]
  else if n < 0x80 then [c]
  else if 0xC0 ≤ n ∧ n ≤ 0xDE ∧ n ≠ 0xD7 then [Char.ofNat (n + 0x20)]
  else if n = 0x130 then ['i', Char.ofNat 0x307]
  else if n = 0x178 then [Char.ofNat 0xFF]
  else if 0x391 ≤ n ∧ n ≤ 0x3A9 then [Char.ofNat (n + 0x20)]
  else if 0x410 ≤ n ∧ n ≤ 0x42F then [Char.ofNat (n + 0x20)]
  else if 0x400 ≤ n ∧ n ≤ 0x40F then [Char.ofNat (n + 0x50)]
  else if n = 0x212A then ['k']
  else [c]

/-- `str::to_lowercase`. -/
def toLowercase (s : String) : String := String.ofList (s.toList.flatMap charToLowercase)

/-- `char::is_whitespace`. -/
def isWhitespace (c : Char) : Bool :=
  let n := c.toNat
  (9 ≤ n && n ≤ 13) || n == 0x20 || n == 0x85 || n == 0xA0 || n == 0x1680 ||
    (0x2000 ≤ n && n ≤ 0x200A) || n == 0x2028 || n == 0x2029 || n == 0x202F ||
    n == 0x205F || n == 0x3000

/-- `str::trim`. -/
def trim (s : String) : String :=
  String.ofList (((s.toList.dropWhile isWhitespace).reverse.dropWhile isWhitespace).reverse)

/-- Blanks have no case. -/
theorem charToUppercase_of_whitespace {c : Char} (h : isWhitespace c = true) :
    charToUppercase c = [c] := by
  simp only [isWhitespace, Bool.or_eq_true, Bool.and_eq_true, decide_eq_true_eq, beq_iff_eq] at h
  have hn : ¬ (0x61 ≤ c.toNat ∧ c.toNat ≤ 0x7A) := by omega
  by_cases hascii : c.toNat < 0x80
  · simp only [charToUppercase, if_neg hn, if_pos hascii]
  · unfold charToUppercase
    dsimp only
    repeat rw [if_neg (by omega)]

/-- Without blanks there is nothing to trim. -/
theorem trim_of_no_whitespace {s : String} (h : ∀ c ∈ s.toList, isWhitespace c = false) : trim s = s := by
  have hdrop (l : List Char) (hl : ∀ c ∈ l, isWhitespace c = false) : l.dropWhile isWhitespace = l := by
    cases l with
    | nil => rfl
    | cons c cs => rw [List.dropWhile_cons, hl c List.mem_cons_self, if_neg Bool.false_ne_true]
  rw [trim, hdrop _ h, hdrop _ fun c hc => h c (List.mem_reverse.mp hc), List.reverse_reverse,
    String.ofList_toList]

/-! ## Decimal numerals -/

/-- The value of a run of decimal digits; `none` on any other character. -/
def digitsValue : Nat → List Char → Option Nat
  | acc, [] => some acc
  | acc, c :: cs =>
      if c.isDigit then digitsValue (acc * 10 + (c.toNat - 48)) cs else none

/-- A non-empty run of decimal digits. -/
def readDigits : List Char → Option Nat
  | [] => none
  | cs => digitsValue 0 cs

/-- `str::parse::<u64>` (and `usize`): an optional `+`, then digits, below `2^64`. -/
def parseU64 (s : String) : Option Nat :=
  (match s.toList with
    | '+' :: cs => readDigits cs
    | cs => readDigits cs).filter (· < 2 ^ 64)

/-- `str::parse::<i64>` (and `isize`). -/
def parseI64 (s : String) : Option Int :=
  match s.toList with
  | '-' :: cs => ((readDigits cs).filter (· ≤ 2 ^ 63)).map fun n => -(n : Int)
  | '+' :: cs => ((readDigits cs).filter (· < 2 ^ 63)).map Int.ofNat
  | cs => ((readDigits cs).filter (· < 2 ^ 63)).map Int.ofNat

/-- Two's complement reading of an integer as `i64` (`as i64`, wrapping arithmetic). -/
def wrapI64 (n : Int) : Int := (n + 2 ^ 63) % 2 ^ 64 - 2 ^ 63

/-- The decimal text of an integer, as bytes. -/
def intBytes (n : Int) : Bytes := (toString n).toBytes

/-- A character takes four bytes at most. -/
theorem length_toBytes_ofList (cs : List Char) :
    (String.ofList cs).toBytes.length ≤ 4 * cs.length := by
  have hlen : ∀ s : String, s.toBytes.length = s.utf8ByteSize := fun _ => rfl
  rw [hlen]
  induction cs with
  | nil => simp
  | cons c cs ih =>
      rw [String.ofList_cons, String.utf8ByteSize_append, String.utf8ByteSize_singleton]
      have hc := c.utf8Size_le_four
      simp only [List.length_cons]
      omega

/-- The text of a 64-bit number is short. -/
theorem length_toBytes_toString {n : Nat} (h : n < 2 ^ 64) : (toString n).toBytes.length ≤ 80 := by
  have hd : (Nat.toDigits 10 n).length ≤ 20 :=
    (Nat.length_toDigits_le_iff (by decide) (by decide)).mpr (by omega)
  have ht : toString n = String.ofList (Nat.toDigits 10 n) := Nat.repr_eq_ofList_toDigits
  have hb := length_toBytes_ofList (Nat.toDigits 10 n)
  rw [ht]
  omega

/-! ## Numerals are read back -/

/-- Text is written character by character. -/
theorem toBytes_ofList (cs : List Char) :
    (String.ofList cs).toBytes = cs.flatMap String.utf8EncodeChar := by
  rw [String.toBytes, String.toUTF8_eq_toByteArray, String.toByteArray_ofList, List.utf8Encode,
    List.data_toByteArray]

/-- ASCII characters are written as one byte each. -/
theorem toBytes_ofList_ascii {cs : List Char} (h : ∀ c ∈ cs, c.toNat < 128) :
    (String.ofList cs).toBytes = cs.map fun c => UInt8.ofNat c.toNat := by
  rw [toBytes_ofList, List.map_eq_flatMap]
  refine List.flatMap_congr fun c hc => ?_
  have hlt : c.val.toNat ≤ 0x7f := Nat.le_of_lt_succ (h c hc)
  exact if_pos hlt

/-- ASCII characters are decoded one by one, whatever follows them. -/
theorem utf8Decode_ascii_append {cs : List Char} (h : ∀ c ∈ cs, c.toNat < 128) (rest : Bytes) :
    utf8Decode .start ((cs.map fun c => UInt8.ofNat c.toNat) ++ rest) =
      cs.map some ++ utf8Decode .start rest := by
  induction cs with
  | nil => rfl
  | cons c cs ih =>
      have hc : c.toNat < 128 := h c List.mem_cons_self
      have hb : (UInt8.ofNat c.toNat).toNat = c.toNat :=
        UInt8.toNat_ofNat_of_lt' (Nat.lt_of_lt_of_le hc (by decide))
      simp only [List.map_cons, List.cons_append, utf8Decode, utf8Step, utf8Lead, hb, if_pos hc,
        Char.ofNat_toNat, List.nil_append, ih fun d hd => h d (List.mem_cons_of_mem c hd)]

theorem mapM_some (cs : List Char) : (cs.map some).mapM id = some cs := by
  rw [List.mapM_map]
  exact List.mapM_pure.trans (congrArg some (List.map_id cs))

/-- The last byte of an open sequence. -/
theorem utf8Decode_more_zero {lo hi acc : Nat} {b : UInt8} (hlo : lo ≤ b.toNat) (hhi : b.toNat ≤ hi)
    (bs : Bytes) :
    utf8Decode (.more 0 lo hi acc) (b :: bs) =
      some (Char.ofNat (acc * 0x40 + b.toNat % 0x40)) :: utf8Decode .start bs := by
  simp only [utf8Decode, utf8Step, if_pos (And.intro hlo hhi), List.cons_append, List.nil_append]

/-- Another byte of an open sequence. -/
theorem utf8Decode_more_succ {n lo hi acc : Nat} {b : UInt8} (hlo : lo ≤ b.toNat) (hhi : b.toNat ≤ hi)
    (bs : Bytes) :
    utf8Decode (.more (n + 1) lo hi acc) (b :: bs) =
      utf8Decode (.more n 0x80 0xBF (acc * 0x40 + b.toNat % 0x40)) bs := by
  simp only [utf8Decode, utf8Step, if_pos (And.intro hlo hhi), List.nil_append]

/-- The first byte of a sequence. -/
theorem utf8Decode_lead {b : UInt8} {s : Utf8State} (h : utf8Lead b.toNat = (s, [])) (bs : Bytes) :
    utf8Decode .start (b :: bs) = utf8Decode s bs := by
  simp only [utf8Decode, utf8Step, h, List.nil_append]

/-- A character that was encoded is decoded first, whatever follows it. -/
theorem utf8Decode_encodeChar_append (c : Char) (rest : Bytes) :
    utf8Decode .start (String.utf8EncodeChar c ++ rest) = some c :: utf8Decode .start rest := by
  have hchar : Char.ofNat c.val.toNat = c := Char.ofNat_toNat c
  have hvalid : c.val.toNat < 0xD800 ∨ 0xDFFF < c.val.toNat ∧ c.val.toNat < 0x110000 := c.valid
  rw [← hchar]
  generalize hv : c.val.toNat = v at hvalid
  have henc : String.utf8EncodeChar (Char.ofNat v) = String.utf8EncodeChar c := by rw [← hv, hchar]
  rw [henc]
  unfold String.utf8EncodeChar
  rw [hv]
  dsimp only
  have hbyte {n : Nat} (h : n < 256) : (UInt8.ofNat n).toNat = n := UInt8.toNat_ofNat_of_lt' h
  split
  · next h₁ =>
      have hlead := @hbyte v (by omega)
      simp only [List.cons_append, List.nil_append, utf8Decode, utf8Step, utf8Lead, hlead,
        if_pos (show v < 0x80 by omega)]
  · split
    · next h₁ h₂ =>
        have hlead := @hbyte (v / 64 % 0x20 + 0xc0) (by omega)
        have hlast := @hbyte (v % 0x40 + 0x80) (by omega)
        have hstate : utf8Lead (v / 64 % 0x20 + 0xc0) = (.more 0 0x80 0xBF (v / 64), []) := by
          unfold utf8Lead
          rw [if_neg (by omega), if_pos (by omega)]
          congr 2
          omega
        rw [List.cons_append, List.cons_append, List.nil_append, utf8Decode_lead (hlead.symm ▸ hstate),
          utf8Decode_more_zero (by omega) (by omega), hlast]
        congr 3
        omega
    · split
      · next h₁ h₂ h₃ =>
          have hlead := @hbyte (v / 4096 % 0x10 + 0xe0) (by omega)
          have hnext := @hbyte (v / 64 % 0x40 + 0x80) (by omega)
          have hlast := @hbyte (v % 0x40 + 0x80) (by omega)
          -- the first two bytes of the shortest and of the surrogates are told apart
          obtain ⟨lo, hi, hstate, hlo, hhi⟩ : ∃ lo hi,
              utf8Lead (v / 4096 % 0x10 + 0xe0) = (.more 1 lo hi (v / 4096), []) ∧
                lo ≤ v / 64 % 0x40 + 0x80 ∧ v / 64 % 0x40 + 0x80 ≤ hi := by
            unfold utf8Lead
            rw [if_neg (by omega), if_neg (by omega)]
            split
            · exact ⟨0xA0, 0xBF, by congr 2; omega, by omega, by omega⟩
            · split
              · exact ⟨0x80, 0x9F, by congr 2; omega, by omega, by omega⟩
              · rw [if_pos (by omega)]
                exact ⟨0x80, 0xBF, by congr 2; omega, by omega, by omega⟩
          simp only [List.cons_append, List.nil_append]
          rw [utf8Decode_lead (hlead.symm ▸ hstate),
            utf8Decode_more_succ (by omega) (by omega), utf8Decode_more_zero (by omega) (by omega),
            hnext, hlast]
          congr 3
          omega
      · next h₁ h₂ h₃ =>
          have hlead := @hbyte (v / 262144 % 0x08 + 0xf0) (by omega)
          have hnext := @hbyte (v / 4096 % 0x40 + 0x80) (by omega)
          have hnext' := @hbyte (v / 64 % 0x40 + 0x80) (by omega)
          have hlast := @hbyte (v % 0x40 + 0x80) (by omega)
          obtain ⟨lo, hi, hstate, hlo, hhi⟩ : ∃ lo hi,
              utf8Lead (v / 262144 % 0x08 + 0xf0) = (.more 2 lo hi (v / 262144), []) ∧
                lo ≤ v / 4096 % 0x40 + 0x80 ∧ v / 4096 % 0x40 + 0x80 ≤ hi := by
            unfold utf8Lead
            rw [if_neg (by omega), if_neg (by omega), if_neg (by omega), if_neg (by omega),
              if_neg (by omega)]
            split
            · exact ⟨0x90, 0xBF, by congr 2; omega, by omega, by omega⟩
            · split
              · exact ⟨0x80, 0xBF, by congr 2; omega, by omega, by omega⟩
              · rw [if_pos (by omega)]
                exact ⟨0x80, 0x8F, by congr 2; omega, by omega, by omega⟩
          simp only [List.cons_append, List.nil_append]
          rw [utf8Decode_lead (hlead.symm ▸ hstate),
            utf8Decode_more_succ (by omega) (by omega), utf8Decode_more_succ (by omega) (by omega),
            utf8Decode_more_zero (by omega) (by omega), hnext, hnext', hlast]
          congr 3
          omega

/-- An ASCII character is its own byte. -/
theorem utf8EncodeChar_ascii {c : Char} (h : c.toNat < 128) :
    String.utf8EncodeChar c = [UInt8.ofNat c.toNat] :=
  if_pos (show c.val.toNat ≤ 0x7f from Nat.le_of_lt_succ h)

/-- The other characters are written in bytes beyond ASCII. -/
theorem utf8EncodeChar_high {c : Char} (h : 128 ≤ c.toNat) :
    String.utf8EncodeChar c ≠ [] ∧ ∀ b ∈ String.utf8EncodeChar c, 128 ≤ b.toNat := by
  have hc : 128 ≤ c.val.toNat := h
  have hbyte {n : Nat} (hlo : 128 ≤ n) (hhi : n < 256) : 128 ≤ (UInt8.ofNat n).toNat := by
    rw [UInt8.toNat_ofNat_of_lt' hhi]
    exact hlo
  unfold String.utf8EncodeChar
  dsimp only
  rw [if_neg (by omega)]
  split
  · refine ⟨List.cons_ne_nil _ _, fun b hb => ?_⟩
    simp only [List.mem_cons, List.not_mem_nil, or_false] at hb
    rcases hb with rfl | rfl <;> exact hbyte (by omega) (by omega)
  · split
    · refine ⟨List.cons_ne_nil _ _, fun b hb => ?_⟩
      simp only [List.mem_cons, List.not_mem_nil, or_false] at hb
      rcases hb with rfl | rfl | rfl <;> exact hbyte (by omega) (by omega)
    · refine ⟨List.cons_ne_nil _ _, fun b hb => ?_⟩
      simp only [List.mem_cons, List.not_mem_nil, or_false] at hb
      rcases hb with rfl | rfl | rfl | rfl <;> exact hbyte (by omega) (by omega)

/-- ASCII characters are told apart by their bytes. -/
theorem ofNat_toNat_inj {c d : Char} (hc : c.toNat < 128) (hd : d.toNat < 128)
    (h : UInt8.ofNat c.toNat = UInt8.ofNat d.toNat) : c = d := by
  have hbyte {e : Char} (he : e.toNat < 128) : (UInt8.ofNat e.toNat).toNat = e.toNat :=
    UInt8.toNat_ofNat_of_lt' (Nat.lt_of_lt_of_le he (by decide))
  have hnat := congrArg UInt8.toNat h
  rw [hbyte hc, hbyte hd] at hnat
  rw [← Char.ofNat_toNat c, hnat, Char.ofNat_toNat]

theorem mapM_id_eq_some {l : List (Option Char)} {cs : List Char} (h : l.mapM id = some cs) : l = cs.map some := by
  induction l generalizing cs with
  | nil =>
      cases h
      rfl
  | cons o l ih =>
      rw [List.mapM_cons] at h
      cases o with
      | none => cases h
      | some c =>
          cases hl : l.mapM id with
          | none =>
              rw [hl] at h
              cases h
          | some ds =>
              rw [hl] at h
              cases h
              rw [ih hl]
              rfl

/-- Nothing of a text that is UTF-8 is replaced. -/
theorem fromUtf8Lossy_of_fromUtf8 {bs : Bytes} {s : String} (h : fromUtf8 bs = some s) : fromUtf8Lossy bs = s := by
  obtain ⟨cs, hcs, rfl⟩ := Option.map_eq_some_iff.mp h
  rw [fromUtf8Lossy, mapM_id_eq_some hcs, List.map_map]
  exact congrArg String.ofList (List.map_id cs)
/-- Text is decoded as it was written. -/
theorem fromUtf8_toBytes (s : String) : fromUtf8 s.toBytes = some s := by
  have hdec (cs : List Char) : utf8Decode .start (cs.flatMap String.utf8EncodeChar) = cs.map some := by
    induction cs with
    | nil => rfl
    | cons c cs ih => rw [List.flatMap_cons, utf8Decode_encodeChar_append, ih, List.map_cons]
  have henc : s.toBytes = s.toList.flatMap String.utf8EncodeChar := by
    rw [← toBytes_ofList, String.ofList_toList]
  rw [fromUtf8, henc, hdec, mapM_some, Option.map_some, String.ofList_toList]

/-- A text is known by its bytes. -/
theorem toBytes_injective : Function.Injective String.toBytes := by
  intro s t h
  have hs := fromUtf8_toBytes s
  rw [h, fromUtf8_toBytes] at hs
  exact (Option.some.inj hs).symm

/-- A text that starts with ASCII bytes starts with their characters. -/
theorem fromUtf8_ascii_append {cs : List Char} (h : ∀ c ∈ cs, c.toNat < 128) {rest : Bytes}
    {s : String} (hs : fromUtf8 ((cs.map fun c => UInt8.ofNat c.toNat) ++ rest) = some s) :
    ∃ ds, s.toList = cs ++ ds := by
  obtain ⟨es, hes, rfl⟩ := Option.map_eq_some_iff.mp hs
  rw [utf8Decode_ascii_append h, List.mapM_append, mapM_some] at hes
  cases hds : (utf8Decode .start rest).mapM id with
  | none =>
      rw [hds] at hes
      cases hes
  | some ds =>
      rw [hds] at hes
      cases hes
      exact ⟨ds, String.toList_ofList⟩

theorem digitsValue_eq_ofDigitChars {cs : List Char} (h : ∀ c ∈ cs, c.isDigit) (acc : Nat) :
    digitsValue acc cs = some (Nat.ofDigitChars 10 cs acc) := by
  induction cs generalizing acc with
  | nil => rw [digitsValue, Nat.ofDigitChars_nil]
  | cons c cs ih =>
      rw [digitsValue, if_pos (h c List.mem_cons_self), Nat.ofDigitChars_cons, Nat.mul_comm acc]
      exact ih (fun d hd => h d (List.mem_cons_of_mem c hd)) _

/-- A run of digits that something else interrupts is no numeral. -/
theorem digitsValue_interrupted {c : Char} (hc : c.isDigit = false) (cs ds : List Char) (acc : Nat) :
    digitsValue acc (cs ++ c :: ds) = none := by
  induction cs generalizing acc with
  | nil => simp [digitsValue, hc]
  | cons d cs ih =>
      rw [List.cons_append, digitsValue]
      split
      · exact ih _
      · rfl

theorem isDigit_toDigits {n : Nat} {c : Char} (h : c ∈ Nat.toDigits 10 n) : c.isDigit :=
  Nat.isDigit_of_mem_toDigits (by decide) (by decide) h

theorem readDigits_toDigits (n : Nat) : readDigits (Nat.toDigits 10 n) = some n := by
  cases hd : Nat.toDigits 10 n with
  | nil => exact absurd hd Nat.toDigits_ne_nil
  | cons c cs =>
      rw [readDigits, ← hd, digitsValue_eq_ofDigitChars (fun _ => isDigit_toDigits),
        Nat.ofDigitChars_ten_toDigits]
      nofun

/-- A numeral does not start with a sign. -/
theorem toDigits_head (n : Nat) : ∃ c cs, Nat.toDigits 10 n = c :: cs ∧ c.isDigit := by
  cases hd : Nat.toDigits 10 n with
  | nil => exact absurd hd Nat.toDigits_ne_nil
  | cons c cs => exact ⟨c, cs, rfl, isDigit_toDigits (hd ▸ List.mem_cons_self)⟩

theorem toList_toString (n : Nat) : (toString n).toList = Nat.toDigits 10 n := by
  rw [Nat.toString_eq_ofList_toDigits, String.toList_ofList]

/-- `parse::<u64>` reads back what `to_string` writes. -/
theorem parseU64_toString {n : Nat} (h : n < 2 ^ 64) : parseU64 (toString n) = some n := by
  obtain ⟨c, cs, hd, hc⟩ := toDigits_head n
  have hplus : c ≠ '+' := by
    rintro rfl
    exact absurd hc (by decide)
  have hread := readDigits_toDigits n
  rw [hd] at hread
  rw [parseU64, toList_toString, hd]
  split
  · next heq => exact absurd (List.cons.inj heq).1 hplus
  · rw [hread]
    exact Option.filter_some_pos (decide_eq_true h)

/-- The numbers `parse::<i64>` reads are in range. -/
theorem parseI64_range {s : String} {n : Int} (h : parseI64 s = some n) : -2 ^ 63 ≤ n ∧ n < 2 ^ 63 := by
  unfold parseI64 at h
  split at h
  · obtain ⟨m, hm, rfl⟩ := Option.map_eq_some_iff.mp h
    obtain ⟨k, hk, hkm⟩ := Option.bind_eq_some_iff.mp hm
    have hle := of_decide_eq_true (Option.filter_eq_some_iff.mp hk).2
    obtain rfl : (k : Int) = m := Option.some.inj hkm
    omega
  all_goals
    obtain ⟨m, hm, rfl⟩ := Option.map_eq_some_iff.mp h
    have hlt := of_decide_eq_true (Option.filter_eq_some_iff.mp hm).2
    have hcast : Int.ofNat m = (m : Int) := rfl
    omega

/-- `parse::<i64>` reads back what `to_string` writes. -/
theorem parseI64_toString {n : Int} (hlo : -2 ^ 63 ≤ n) (hhi : n < 2 ^ 63) :
    parseI64 (toString n) = some n := by
  cases n with
  | ofNat n =>
      have htext : (toString (Int.ofNat n)).toList = Nat.toDigits 10 n := toList_toString n
      obtain ⟨c, cs, hd, hc⟩ := toDigits_head n
      have hread := readDigits_toDigits n
      rw [hd] at hread
      rw [parseI64, htext, hd]
      have hn : n < 2 ^ 63 := by
        have : (n : Int) < 2 ^ 63 := hhi
        omega
      split
      · next heq =>
          rw [(List.cons.inj heq).1] at hc
          exact absurd hc (by decide)
      · next heq =>
          rw [(List.cons.inj heq).1] at hc
          exact absurd hc (by decide)
      · have hfits : (some n).filter (fun m => decide (m < 2 ^ 63)) = some n :=
          Option.filter_some_pos (decide_eq_true hn)
        rw [hread, hfits]
        rfl
  | negSucc n =>
      have htext : (toString (Int.negSucc n)).toList = '-' :: Nat.toDigits 10 (n + 1) := by
        have : toString (Int.negSucc n) = "-" ++ toString (n + 1) := rfl
        rw [this, String.toList_append, toList_toString]
        rfl
      have hn : n + 1 ≤ 2 ^ 63 := by
        have : -2 ^ 63 ≤ Int.negSucc n := hlo
        omega
      rw [parseI64, htext]
      simp only [readDigits_toDigits]
      rw [Option.filter_some_pos (by simpa using hn)]
      simp [Int.negSucc_eq]

/-- A numeral with something behind it that is no digit is not read. -/
theorem parseI64_interrupted {s : String} {n : Nat} {c : Char} (hc : c.isDigit = false)
    {ds : List Char} (hs : s.toList = Nat.toDigits 10 n ++ c :: ds) : parseI64 s = none := by
  obtain ⟨d, cs, hd, hdigit⟩ := toDigits_head n
  have hread : readDigits (d :: cs ++ c :: ds) = none := digitsValue_interrupted hc (d :: cs) ds 0
  rw [parseI64, hs, hd]
  rw [List.cons_append] at hread ⊢
  split
  · next heq =>
      rw [(List.cons.inj heq).1] at hdigit
      exact absurd hdigit (by decide)
  · next heq =>
      rw [(List.cons.inj heq).1] at hdigit
      exact absurd hdigit (by decide)
  · rw [hread]
    rfl

/-- The text of a number: digits, behind a minus sign at most. -/
theorem toString_int_chars (n : Int) :
    ∃ cs, toString n = String.ofList cs ∧ ∀ c ∈ cs, 13 < c.toNat ∧ c.toNat < 128 := by
  have hdigits : ∀ m : Nat, ∀ c ∈ Nat.toDigits 10 m, 13 < c.toNat ∧ c.toNat < 128 := by
    intro m c hc
    obtain ⟨hlo, hhi⟩ := Char.isDigit_iff_toNat.mp (isDigit_toDigits hc)
    exact ⟨Nat.lt_of_lt_of_le (by decide) hlo, Nat.lt_of_le_of_lt hhi (by decide)⟩
  cases n with
  | ofNat n => exact ⟨_, Nat.toString_eq_ofList_toDigits, hdigits n⟩
  | negSucc n =>
      refine ⟨'-' :: Nat.toDigits 10 (n + 1), ?_, ?_⟩
      · have hneg : toString (Int.negSucc n) = "-" ++ toString (n + 1) := rfl
        rw [hneg, Nat.toString_eq_ofList_toDigits, String.ofList_cons]
        rfl
      · intro c hc
        rcases List.mem_cons.mp hc with rfl | hc
        · decide
        · exact hdigits (n + 1) c hc

theorem fromUtf8_intBytes (n : Int) : fromUtf8 (intBytes n) = some (toString n) :=
  fromUtf8_toBytes _

/-- A numeral holds no control character up to the line end. -/
theorem not_mem_intBytes_of_le {b : UInt8} (hb : b.toNat ≤ 13) (n : Int) : b ∉ intBytes n := by
  obtain ⟨cs, htext, hcs⟩ := toString_int_chars n
  rw [intBytes, htext, toBytes_ofList_ascii fun c hc => (hcs c hc).2]
  intro hmem
  obtain ⟨c, hc, heq⟩ := List.mem_map.mp hmem
  obtain ⟨hlo, hhi⟩ := hcs c hc
  have hval : (UInt8.ofNat c.toNat).toNat = c.toNat :=
    UInt8.toNat_ofNat_of_lt' (Nat.lt_of_lt_of_le hhi (by decide))
  rw [heq] at hval
  omega

/-- A numeral holds no line end. -/
theorem not_mem_intBytes (n : Int) : (13 : UInt8) ∉ intBytes n :=
  not_mem_intBytes_of_le (by decide) n

/-- The text of a natural number is that of the integer. -/
theorem toBytes_toString_nat (n : Nat) : (toString n).toBytes = intBytes n := rfl

/-! ## ASCII characters of lossy text -/

/-- A number is the code of its character, or no code at all. -/
theorem toNat_charOfNat (n : Nat) : (Char.ofNat n).toNat = n ∨ (Char.ofNat n).toNat = 0 := by
  unfold Char.ofNat
  by_cases h : n.isValidChar
  · rw [dif_pos h]
    exact .inl rfl
  · rw [dif_neg h]
    exact .inr rfl

/-- What an open sequence still makes is no ASCII character. -/
def Utf8State.Deep : Utf8State → Prop
  | .start => True
  | .more 0 lo hi acc => ∀ b, lo ≤ b → b ≤ hi → 128 ≤ acc * 0x40 + b % 0x40
  | .more (_ + 1) lo hi acc => ∀ b, lo ≤ b → b ≤ hi → 2 ≤ acc * 0x40 + b % 0x40

/-- A lead byte is the character it makes, or opens a sequence. -/
theorem utf8Lead_deep (b : Nat) :
    (utf8Lead b).1.Deep ∧ ∀ c, some c ∈ (utf8Lead b).2 → b < 128 ∧ c = Char.ofNat b := by
  unfold utf8Lead
  split
  · next h => exact ⟨trivial, fun c hc => ⟨h, by simpa using hc⟩⟩
  · repeat' split
    all_goals
      refine ⟨?_, by simp⟩
      first
        | trivial
        | (intro b' hlo hhi; omega)

/-- A byte makes an ASCII character other than NUL only by being it. -/
theorem utf8Step_deep {s : Utf8State} (hs : s.Deep) (b : Nat) :
    (utf8Step s b).1.Deep ∧
      ∀ c, some c ∈ (utf8Step s b).2 → 0 < c.toNat → c.toNat < 128 → b < 128 ∧ c = Char.ofNat b := by
  cases s with
  | start => exact ⟨(utf8Lead_deep b).1, fun c hc _ _ => (utf8Lead_deep b).2 c hc⟩
  | more n lo hi acc =>
      unfold utf8Step
      dsimp only
      split
      · next hb =>
          cases n with
          | zero =>
              refine ⟨trivial, fun c hc hpos hlt => ?_⟩
              have hlarge := hs b hb.1 hb.2
              obtain rfl : c = Char.ofNat (acc * 0x40 + b % 0x40) := by simpa using hc
              have hcode := toNat_charOfNat (acc * 0x40 + b % 0x40)
              omega
          | succ n =>
              have hlarge := hs b hb.1 hb.2
              refine ⟨?_, by simp⟩
              cases n with
              | zero => intro b' _ _; omega
              | succ n => intro b' _ _; omega
      · refine ⟨(utf8Lead_deep b).1, fun c hc _ _ => (utf8Lead_deep b).2 c ?_⟩
        exact (List.mem_cons.mp hc).resolve_left nofun

/-- An ASCII character other than NUL is decoded from its own byte. -/
theorem mem_of_mem_utf8Decode {s : Utf8State} (hs : s.Deep) {bs : Bytes} {c : Char}
    (h : some c ∈ utf8Decode s bs) (hpos : 0 < c.toNat) (hlt : c.toNat < 128) : UInt8.ofNat c.toNat ∈ bs := by
  induction bs generalizing s with
  | nil =>
      cases s with
      | start => cases h
      | more n lo hi acc => simp [utf8Decode] at h
  | cons b bs ih =>
      have hdecode : utf8Decode s (b :: bs) = (utf8Step s b.toNat).2 ++ utf8Decode (utf8Step s b.toNat).1 bs := by
        cases s <;> rfl
      rw [hdecode, List.mem_append] at h
      obtain ⟨hdeep, hout⟩ := utf8Step_deep hs b.toNat
      rcases h with h | h
      · obtain ⟨hb, rfl⟩ := hout c h hpos hlt
        rw [(toNat_charOfNat b.toNat).resolve_right (Nat.ne_of_gt hpos), UInt8.ofNat_toNat]
        exact List.mem_cons_self
      · exact List.mem_cons_of_mem b (ih hdeep h)

/-- The lossy text has an ASCII character other than NUL only where its byte stands. -/
theorem mem_of_mem_fromUtf8Lossy {bs : Bytes} {c : Char} (h : c ∈ (fromUtf8Lossy bs).toList)
    (hpos : 0 < c.toNat) (hlt : c.toNat < 128) : UInt8.ofNat c.toNat ∈ bs := by
  rw [fromUtf8Lossy, String.toList_ofList] at h
  obtain ⟨o, ho, rfl⟩ := List.mem_map.mp h
  cases o with
  | some c => exact mem_of_mem_utf8Decode (s := .start) trivial ho hpos hlt
  | none =>
      have hbig : 128 ≤ ((none : Option Char).getD '\uFFFD').toNat := by decide
      omega

end Lib
