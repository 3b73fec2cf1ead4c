/-
# `Storage.StreamIds` — stream IDs as numbers and as text

An ID is one number of two halves, so the order of the numbers is the
lexicographic order of the halves.  The text of an ID reads back as the ID.
What else reads as one is a dash between two runs of digits, each taken modulo
`2^64` and an empty one for zero.
-/
import Ferrous.Storage.ConsumerGroups

namespace Ferrous

open Lib

/-! ## Two halves -/

namespace StreamId

theorem lt_iff {a b : StreamId} : a < b ↔ a.packed < b.packed := Iff.rfl

theorem le_iff {a b : StreamId} : a ≤ b ↔ a.packed ≤ b.packed := Iff.rfl

theorem ext_iff' {a b : StreamId} : a = b ↔ a.packed = b.packed := by
  cases a
  cases b
  simp

theorem lt_of_le_of_lt {a b c : StreamId} (h : a ≤ b) (h' : b < c) : a < c :=
  Nat.lt_of_le_of_lt h h'

theorem lt_of_lt_of_le {a b c : StreamId} (h : a < b) (h' : b ≤ c) : a < c :=
  Nat.lt_of_lt_of_le h h'

theorem le_of_lt {a b : StreamId} (h : a < b) : a ≤ b := Nat.le_of_lt h

theorem not_le {a b : StreamId} : ¬ a ≤ b ↔ b < a := Nat.not_le

theorem not_lt {a b : StreamId} : ¬ a < b ↔ b ≤ a := Nat.not_lt

/-- The number behind an ID, given its two halves. -/
theorem packed_new {m q : Nat} (hm : m < 2 ^ 64) (hq : q < 2 ^ 64) :
    (new m q).packed = m * 2 ^ 64 + q := by
  have hp : (new m q).packed = m % 2 ^ 64 * 2 ^ 64 + q % 2 ^ 64 := rfl
  rw [hp, Nat.mod_eq_of_lt hm, Nat.mod_eq_of_lt hq]

theorem millis_lt (i : StreamId) : i.millis < 2 ^ 64 := by
  have := i.packed_lt
  rw [millis]
  omega

theorem seq_lt (i : StreamId) : i.seq < 2 ^ 64 := Nat.mod_lt _ (by decide)

@[simp] theorem new_millis_seq (i : StreamId) : new i.millis i.seq = i := by
  have hp := packed_new i.millis_lt i.seq_lt
  rw [ext_iff', hp, millis, seq]
  omega

end StreamId

/-! ## IDs as text -/

namespace StreamId

/-- `parse_u64_fast` on a run of digits: the numeral, wrapped. -/
theorem foldl_digits {cs : List Char} (h : ∀ c ∈ cs, c.isDigit) (acc : Nat) :
    (cs.map fun c => UInt8.ofNat c.toNat).foldl (fun acc b => acc.bind fun n =>
      if b < 48 || 57 < b then none else some ((n * 10 + (b.toNat - 48)) % 2 ^ 64))
        (some (acc % 2 ^ 64)) = some (Nat.ofDigitChars 10 cs acc % 2 ^ 64) := by
  induction cs generalizing acc with
  | nil => rw [List.map_nil, List.foldl_nil, Nat.ofDigitChars_nil]
  | cons c cs ih =>
      obtain ⟨hlo, hhi⟩ := Char.isDigit_iff_toNat.mp (h c List.mem_cons_self)
      have hb : (UInt8.ofNat c.toNat).toNat = c.toNat :=
        UInt8.toNat_ofNat_of_lt' (Nat.lt_of_le_of_lt hhi (by decide))
      have hdigit : ¬ ((decide (UInt8.ofNat c.toNat < 48) || decide (57 < UInt8.ofNat c.toNat)) = true) := by
        rw [Bool.or_eq_true, decide_eq_true_eq, decide_eq_true_eq, UInt8.lt_iff_toNat_lt,
          UInt8.lt_iff_toNat_lt, hb]
        exact fun hor => hor.elim (Nat.not_lt.mpr hlo) (Nat.not_lt.mpr hhi)
      have hnext : (acc % 2 ^ 64 * 10 + (c.toNat - 48)) % 2 ^ 64 = (acc * 10 + (c.toNat - 48)) % 2 ^ 64 := by
        omega
      rw [List.map_cons, List.foldl_cons, Option.bind_some, if_neg hdigit, hb, hnext,
        ih fun d hd => h d (List.mem_cons_of_mem c hd), Nat.ofDigitChars_cons, Nat.mul_comm acc]
      rfl

theorem parseU64Fast_toDigits {n : Nat} (h : n < 2 ^ 64) :
    parseU64Fast ((Nat.toDigits 10 n).map fun c => UInt8.ofNat c.toNat) = some n := by
  have hfold := foldl_digits (fun c (hc : c ∈ Nat.toDigits 10 n) => isDigit_toDigits hc) 0
  rw [Nat.ofDigitChars_ten_toDigits, Nat.mod_eq_of_lt h] at hfold
  exact hfold

theorem toText_eq (i : StreamId) :
    i.toText = String.ofList (Nat.toDigits 10 i.millis ++ '-' :: Nat.toDigits 10 i.seq) := by
  rw [toText, Nat.toString_eq_ofList_toDigits, Nat.toString_eq_ofList_toDigits,
    String.ofList_append, String.ofList_cons, String.append_assoc]
  rfl

theorem toText_ascii (i : StreamId) :
    ∀ c ∈ Nat.toDigits 10 i.millis ++ '-' :: Nat.toDigits 10 i.seq, c.toNat < 128 := by
  have hdigit : ∀ {n : Nat} {c : Char}, c ∈ Nat.toDigits 10 n → c.toNat < 128 := fun hc =>
    Nat.lt_of_le_of_lt (Char.isDigit_iff_toNat.mp (isDigit_toDigits hc)).2 (by decide)
  intro c hc
  rcases List.mem_append.mp hc with hc | hc
  · exact hdigit hc
  · rcases List.mem_cons.mp hc with rfl | hc
    · decide
    · exact hdigit hc

theorem fromUtf8_toText (i : StreamId) : fromUtf8 i.toText.toBytes = some i.toText :=
  fromUtf8_toBytes _

/-- An ID is read back from its text. -/
theorem fromString_toText (i : StreamId) : fromString i.toText = some i := by
  have hbytes : i.toText.toBytes = ((Nat.toDigits 10 i.millis).map fun c => UInt8.ofNat c.toNat) ++
      45 :: (Nat.toDigits 10 i.seq).map fun c => UInt8.ofNat c.toNat := by
    rw [toText_eq, toBytes_ofList_ascii i.toText_ascii, List.map_append, List.map_cons]
    rfl
  have hne : ∀ b ∈ (Nat.toDigits 10 i.millis).map fun c => UInt8.ofNat c.toNat,
      decide (b ≠ 45) = true := by
    intro b hb
    obtain ⟨c, hc, rfl⟩ := List.mem_map.mp hb
    obtain ⟨hlo, hhi⟩ := Char.isDigit_iff_toNat.mp (isDigit_toDigits hc)
    have hval : (UInt8.ofNat c.toNat).toNat = c.toNat :=
      UInt8.toNat_ofNat_of_lt' (Nat.lt_of_le_of_lt hhi (by decide))
    refine decide_eq_true fun h45 => ?_
    rw [h45] at hval
    exact absurd (hlo.trans_eq hval.symm) (by decide)
  rw [fromString, hbytes, List.dropWhile_append_of_pos hne, List.takeWhile_append_of_pos hne]
  simp only [List.dropWhile_cons, List.takeWhile_cons, ne_eq, not_true_eq_false, decide_false,
    Bool.false_eq_true, if_false, List.append_nil]
  rw [parseU64Fast_toDigits i.millis_lt, parseU64Fast_toDigits i.seq_lt]
  exact congrArg some i.new_millis_seq

theorem length_toBytes_toText (i : StreamId) : i.toText.toBytes.length < 2 ^ 32 := by
  have hdigits : ∀ {n : Nat}, n < 2 ^ 64 → (Nat.toDigits 10 n).length ≤ 20 := fun h =>
    (Nat.length_toDigits_le_iff (by decide) (by decide)).mpr (by omega)
  have hm := hdigits i.millis_lt
  have hs := hdigits i.seq_lt
  rw [toText_eq, toBytes_ofList_ascii i.toText_ascii, List.length_map, List.length_append,
    List.length_cons]
  omega

/-! ## What reads as an ID -/

/-- A run of digits. -/
def Digits (cs : List Char) : Prop := ∀ c ∈ cs, c.isDigit

/-- The number a run of digits denotes. -/
def valueOf (cs : List Char) : Nat := Nat.ofDigitChars 10 cs 0

/-- The run is not empty and denotes the number, which fits into 64 bits. -/
def Numeral (cs : List Char) (n : Nat) : Prop := cs ≠ [] ∧ Digits cs ∧ valueOf cs = n ∧ n < 2 ^ 64

/-- The text is the two halves of the ID in decimal, joined by a dash. -/
def Denotes (s : String) (i : StreamId) : Prop :=
  ∃ a b, s = String.ofList (a ++ '-' :: b) ∧ Numeral a i.millis ∧ Numeral b i.seq

/-- A dash joins two runs of digits of which one is empty or denotes too great a
number. -/
def Sloppy (s : String) : Prop :=
  ∃ a b, s = String.ofList (a ++ '-' :: b) ∧ Digits a ∧ Digits b ∧
    (a = [] ∨ b = [] ∨ 2 ^ 64 ≤ valueOf a ∨ 2 ^ 64 ≤ valueOf b)

/-- A run of digits on the wire. -/
def digitBytes (cs : List Char) : Bytes := cs.map fun c => UInt8.ofNat c.toNat

theorem parseU64Fast_digits {cs : List Char} (h : Digits cs) :
    parseU64Fast (digitBytes cs) = some (valueOf cs % 2 ^ 64) := foldl_digits h 0

/-- What is read is a run of digits. -/
theorem digits_of_parseU64Fast {bs : Bytes} {n : Nat} (h : parseU64Fast bs = some n) :
    ∃ cs, Digits cs ∧ bs = digitBytes cs ∧ n = valueOf cs % 2 ^ 64 := by
  have hstuck : ∀ bs : Bytes, bs.foldl (fun (acc : Option Nat) b => acc.bind fun n =>
      if b < 48 || 57 < b then none else some ((n * 10 + (b.toNat - 48)) % 2 ^ 64)) none = none := by
    intro bs
    induction bs with
    | nil => rfl
    | cons b bs ih => exact ih
  have hdigits : ∀ (bs : Bytes) (acc : Nat), bs.foldl (fun acc b => acc.bind fun n =>
      if b < 48 || 57 < b then none else some ((n * 10 + (b.toNat - 48)) % 2 ^ 64)) (some acc) = some n →
      ∃ cs, Digits cs ∧ bs = digitBytes cs := by
    intro bs
    induction bs with
    | nil => exact fun _ _ => ⟨[], nofun, rfl⟩
    | cons b bs ih =>
        intro acc hread
        rw [List.foldl_cons, Option.bind_some] at hread
        split at hread
        · cases (hstuck bs).symm.trans hread
        · next hrange =>
            obtain ⟨cs, hcs, rfl⟩ := ih _ hread
            simp only [Bool.or_eq_true, decide_eq_true_eq, not_or, UInt8.not_lt, UInt8.le_iff_toNat_le] at hrange
            have hlo : 48 ≤ b.toNat := hrange.1
            have hhi : b.toNat ≤ 57 := hrange.2
            have hvalid : b.toNat.isValidChar := .inl (by omega)
            have hval : (Char.ofNat b.toNat).toNat = b.toNat := by
              rw [Char.ofNat, dif_pos hvalid]
              rfl
            refine ⟨Char.ofNat b.toNat :: cs, List.forall_mem_cons.mpr ⟨?_, hcs⟩, ?_⟩
            · rw [Char.isDigit_iff_toNat, hval]
              exact ⟨hlo, hhi⟩
            · simp only [digitBytes, List.map_cons, hval, UInt8.ofNat_toNat]
  obtain ⟨cs, hcs, rfl⟩ := hdigits bs 0 h
  exact ⟨cs, hcs, rfl, Option.some.inj (h.symm.trans (parseU64Fast_digits hcs))⟩

/-- No digit is the dash. -/
theorem dash_not_mem_digitBytes {cs : List Char} (h : Digits cs) : ∀ b ∈ digitBytes cs, decide (b ≠ 45) = true := by
  intro b hb
  obtain ⟨c, hc, rfl⟩ := List.mem_map.mp hb
  obtain ⟨hlo, hhi⟩ := Char.isDigit_iff_toNat.mp (h c hc)
  have hval : (UInt8.ofNat c.toNat).toNat = c.toNat :=
    UInt8.toNat_ofNat_of_lt' (Nat.lt_of_le_of_lt hhi (by decide))
  refine decide_eq_true fun h45 => ?_
  rw [h45] at hval
  exact absurd (hlo.trans_eq hval.symm) (by decide)

/-- Two runs of digits with a dash between them, on the wire. -/
theorem toBytes_joined {a b : List Char} (ha : Digits a) (hb : Digits b) :
    (String.ofList (a ++ '-' :: b)).toBytes = digitBytes a ++ 45 :: digitBytes b := by
  have hascii : ∀ {cs : List Char}, Digits cs → ∀ c ∈ cs, c.toNat < 128 := fun h c hc =>
    Nat.lt_of_le_of_lt (Char.isDigit_iff_toNat.mp (h c hc)).2 (by decide)
  rw [toBytes_ofList_ascii, List.map_append, List.map_cons]
  · rfl
  · intro c hc
    rcases List.mem_append.mp hc with hc | hc
    · exact hascii ha c hc
    · rcases List.mem_cons.mp hc with rfl | hc
      · decide
      · exact hascii hb c hc

/-- What `from_string` accepts: two runs of digits, each taken modulo `2^64`. -/
theorem fromString_eq_some_iff {s : String} {i : StreamId} :
    fromString s = some i ↔ ∃ a b, s = String.ofList (a ++ '-' :: b) ∧ Digits a ∧ Digits b ∧
      i = new (valueOf a) (valueOf b) := by
  have hnew (m q : Nat) : new (m % 2 ^ 64) (q % 2 ^ 64) = new m q := by
    simp only [new, Nat.mod_mod]
  constructor
  · intro h
    unfold fromString at h
    dsimp only at h
    split at h
    · cases h
    · next x rest hdrop =>
        obtain ⟨m, hm, h⟩ := Option.bind_eq_some_iff.mp h
        obtain ⟨q, hq, h⟩ := Option.bind_eq_some_iff.mp h
        obtain ⟨a, ha, hbytes, rfl⟩ := digits_of_parseU64Fast hm
        obtain ⟨b, hb, rfl, rfl⟩ := digits_of_parseU64Fast hq
        have hx : x = 45 := by
          have hhead := List.head?_dropWhile_not (fun b : UInt8 => decide (b ≠ 45)) s.toBytes
          rw [hdrop] at hhead
          simpa using hhead
        subst hx
        refine ⟨a, b, toBytes_injective ?_, ha, hb, (Option.some.inj h).symm.trans (hnew _ _)⟩
        rw [toBytes_joined ha hb, ← hbytes, ← hdrop, List.takeWhile_append_dropWhile]
  · rintro ⟨a, b, rfl, ha, hb, rfl⟩
    have hne := dash_not_mem_digitBytes ha
    rw [fromString, toBytes_joined ha hb, List.dropWhile_append_of_pos hne, List.takeWhile_append_of_pos hne]
    simp only [List.dropWhile_cons, List.takeWhile_cons, ne_eq, not_true_eq_false, decide_false,
      Bool.false_eq_true, if_false, List.append_nil, parseU64Fast_digits ha, parseU64Fast_digits hb]
    exact congrArg some (hnew _ _)

theorem new_halves {m q : Nat} (hm : m < 2 ^ 64) (hq : q < 2 ^ 64) :
    (new m q).millis = m ∧ (new m q).seq = q := by
  rw [millis, seq, packed_new hm hq]
  omega

/-- An ID is the two halves its text denotes. -/
theorem Denotes.fromString {s : String} {i : StreamId} (h : Denotes s i) : fromString s = some i := by
  obtain ⟨a, b, rfl, ⟨-, ha, hm, -⟩, ⟨-, hb, hq, -⟩⟩ := h
  refine fromString_eq_some_iff.mpr ⟨a, b, rfl, ha, hb, ?_⟩
  rw [hm, hq, new_millis_seq]

/-- A text with one dash between digits has one reading. -/
theorem joined_inj {a b a' b' : List Char} (ha : Digits a) (ha' : Digits a')
    (h : String.ofList (a ++ '-' :: b) = String.ofList (a' ++ '-' :: b')) : a = a' ∧ b = b' := by
  have hne {cs : List Char} (hcs : Digits cs) : ∀ c ∈ cs, decide (c ≠ '-') = true := fun c hc =>
    decide_eq_true fun hdash => absurd (hdash ▸ hcs c hc) (by decide)
  have hlist := String.ofList_injective h
  have htake := congrArg (List.takeWhile (· ≠ '-')) hlist
  have hdrop := congrArg (List.dropWhile (· ≠ '-')) hlist
  rw [List.takeWhile_append_of_pos (hne ha), List.takeWhile_append_of_pos (hne ha')] at htake
  rw [List.dropWhile_append_of_pos (hne ha), List.dropWhile_append_of_pos (hne ha')] at hdrop
  simp only [List.takeWhile_cons, List.dropWhile_cons, ne_eq, not_true_eq_false, decide_false,
    Bool.false_eq_true, if_false, List.append_nil] at htake hdrop
  exact ⟨htake, (List.cons.inj hdrop).2⟩

/-- The order of IDs is the lexicographic order of their halves. -/
theorem le_iff_lex {i j : StreamId} : i ≤ j ↔ i.millis < j.millis ∨ i.millis = j.millis ∧ i.seq ≤ j.seq := by
  rw [le_iff, millis, millis, seq, seq]
  omega

/-- An ID reads back from its text and the order is that of the halves; texts
are read exactly but for the sloppy ones, which are accepted all the same. -/
theorem parses_exactly_iff (s : String) :
    ((∀ i, fromString s = some i ↔ Denotes s i) ∧ (∀ i : StreamId, fromString i.toText = some i) ∧
      ∀ i j : StreamId, i ≤ j ↔ i.millis < j.millis ∨ i.millis = j.millis ∧ i.seq ≤ j.seq) ↔
      ¬ Sloppy s := by
  constructor
  · rintro ⟨h, -, -⟩ ⟨a, b, rfl, ha, hb, hbad⟩
    obtain ⟨a', b', hs, ⟨hane, ha', hm, hmlt⟩, ⟨hbne, hb', hq, hqlt⟩⟩ :=
      (h (new (valueOf a) (valueOf b))).mp (fromString_eq_some_iff.mpr ⟨a, b, rfl, ha, hb, rfl⟩)
    obtain ⟨rfl, rfl⟩ := joined_inj ha ha' hs
    rcases hbad with rfl | rfl | hbig | hbig
    · exact hane rfl
    · exact hbne rfl
    · rw [hm] at hbig
      exact Nat.not_le_of_lt hmlt hbig
    · rw [hq] at hbig
      exact Nat.not_le_of_lt hqlt hbig
  · intro h
    refine ⟨fun i => ⟨fun hread => ?_, Denotes.fromString⟩, fromString_toText, fun i j => le_iff_lex⟩
    obtain ⟨a, b, rfl, ha, hb, rfl⟩ := fromString_eq_some_iff.mp hread
    have hgood : ¬ (a = [] ∨ b = [] ∨ 2 ^ 64 ≤ valueOf a ∨ 2 ^ 64 ≤ valueOf b) := fun hbad =>
      h ⟨a, b, rfl, ha, hb, hbad⟩
    simp only [not_or, Nat.not_le] at hgood
    obtain ⟨hane, hbne, hm, hq⟩ := hgood
    obtain ⟨hmillis, hseq⟩ := new_halves hm hq
    exact ⟨a, b, rfl, ⟨hane, ha, hmillis.symm, millis_lt _⟩, ⟨hbne, hb, hseq.symm, seq_lt _⟩⟩

/-- A lone dash is read as `0-0`. -/
theorem fromString_dash : fromString "-" = some (new 0 0) ∧ ¬ Denotes "-" (new 0 0) := by
  refine ⟨by decide, ?_⟩
  rintro ⟨a, b, hs, ⟨hne, ha, -⟩, -⟩
  have hself : String.ofList ([] ++ '-' :: []) = "-" := rfl
  exact hne (joined_inj (List.forall_mem_nil _) ha (hself.trans hs)).1.symm

end StreamId

end Ferrous
