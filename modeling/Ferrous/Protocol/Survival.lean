/-
# `Protocol.Survival` — the bytes that bring the parser down

The vector of an aggregate is allocated before the first element is looked at, from a
length the client wrote.  `Whole` is the grammar of complete frames, with no parser in
it; `Oversized` are the bytes with a header, where a frame is due, that declares more
elements than a vector can hold.  These are what the parser does not survive.
-/
import Ferrous.Protocol.Checked

namespace Ferrous

open Lib

namespace RespFrame

/-! ## The grammar -/

/-- The text of a line that is read as a number. -/
structure Numeral {α : Type} (read : String → Option α) (text : Bytes) (a : α) : Prop where
  line : OneLine text
  value : (fromUtf8 text).bind read = some a

/-- A complete frame that is no aggregate. -/
inductive Plain : Bytes → Prop
  | simple {text : Bytes} : OneLine text → Plain (43 :: text ++ crlf)
  | error {text : Bytes} : OneLine text → Plain (45 :: text ++ crlf)
  | integer {text : Bytes} {n : Int} : Numeral parseI64 text n → Plain (58 :: text ++ crlf)
  | double {text : Bytes} {x : Float64} : Numeral Float64.parse text x → Plain (44 :: text ++ crlf)
  | nullBulk {text : Bytes} : Numeral parseI64 text (-1) → Plain (36 :: text ++ crlf)
  | bulk {text content : Bytes} :
      Numeral parseI64 text (content.length : Int) → Plain (36 :: text ++ crlf ++ (content ++ crlf))
  | nullArray {text : Bytes} : Numeral parseI64 text (-1) → Plain (42 :: text ++ crlf)
  | null : Plain (95 :: crlf)
  | true : Plain (35 :: 116 :: crlf)
  | false : Plain (35 :: 102 :: crlf)

/-- The header of an aggregate of so many frames; a pair of a map is two. -/
inductive Header : Bytes → Nat → Prop
  | array {text : Bytes} {k : Nat} : Numeral parseI64 text (k : Int) → Header (42 :: text ++ crlf) k
  | map {text : Bytes} {k : Nat} : Numeral parseU64 text k → Header (37 :: text ++ crlf) (2 * k)
  | set {text : Bytes} {k : Nat} : Numeral parseU64 text k → Header (126 :: text ++ crlf) k

/-- The bytes are one complete frame. -/
inductive Whole : Bytes → Prop
  | plain {w : Bytes} : Plain w → Whole w
  | aggregate {h : Bytes} {ws : List Bytes} :
      Header h ws.length → ws.length * frameSize < 2 ^ 63 → (∀ w ∈ ws, Whole w) → Whole (h ++ ws.flatten)

/-- Where a frame is due there stands, behind complete elements of any aggregates around
it, the header of an aggregate whose vector would take `2^63` bytes or more. -/
inductive Oversized : Bytes → Prop
  | here {h : Bytes} {k : Nat} (rest : Bytes) : Header h k → 2 ^ 63 ≤ k * frameSize → Oversized (h ++ rest)
  | inside {h rest : Bytes} {k : Nat} {ws : List Bytes} :
      Header h k → k * frameSize < 2 ^ 63 → ws.length < k → (∀ w ∈ ws, Whole w) → Oversized rest →
        Oversized (h ++ (ws.flatten ++ rest))

/-- A bulk string whose header, declared length and line end are `2^64` bytes or more
together; its header alone is then as long as a slice can be. -/
def BulkOverflow (data : Bytes) : Prop :=
  ∃ (text rest : Bytes) (len : Nat), data = 36 :: text ++ crlf ++ rest ∧ Numeral parseI64 text (len : Int) ∧
    2 ^ 64 ≤ (36 :: text ++ crlf).length + len + 2

/-! ## Lines -/

theorem oneLine_cons {b : UInt8} {body : Bytes} (h : OneLine body) (hb : ¬ (b = 13 ∧ body.head? = some 10)) :
    OneLine (b :: body) := by
  intro hin
  rcases List.infix_cons_iff.mp hin with ⟨r, hr⟩ | hin
  · have hcons := List.cons.inj hr
    refine hb ⟨hcons.1.symm, ?_⟩
    rw [← hcons.2]
    rfl
  · exact h hin

/-- What stands before the first line end. -/
theorem findCrlf_some {data : Bytes} {i : Nat} (h : findCrlf data = some i) :
    OneLine (data.take i) ∧ ∃ rest, data = data.take i ++ crlf ++ rest := by
  induction data generalizing i with
  | nil => cases h
  | cons b bs ih =>
      rw [findCrlf] at h
      split at h
      · next hb =>
          cases h
          obtain ⟨rfl, hhead⟩ := hb
          obtain ⟨rest, rfl⟩ := List.head?_eq_some_iff.mp hhead
          refine ⟨fun hin => ?_, rest, rfl⟩
          cases List.infix_nil.mp hin
      · next hb =>
          obtain ⟨j, hj, rfl⟩ := Option.map_eq_some_iff.mp h
          obtain ⟨hline, rest, hrest⟩ := ih hj
          refine ⟨?_, rest, ?_⟩
          · rw [List.take_succ_cons]
            refine oneLine_cons hline fun hcut => hb ⟨hcut.1, ?_⟩
            have hhead := hcut.2
            rw [List.head?_take] at hhead
            split at hhead
            · cases hhead
            · exact hhead
          · rw [List.take_succ_cons, List.cons_append, List.cons_append, ← hrest]

/-- A parsed line, in the bytes. -/
theorem parseLine_done {b : UInt8} {bs line : Bytes} {c : Nat} (h : parseLine (b :: bs) = .done line c) :
    OneLine line ∧ c = (b :: line ++ crlf).length ∧ ∃ rest, b :: bs = b :: line ++ crlf ++ rest := by
  unfold parseLine at h
  split at h
  · next i hi =>
      cases h
      have hlt := findCrlf_lt hi
      obtain ⟨hline, rest, hrest⟩ := findCrlf_some hi
      refine ⟨hline, ?_, rest, ?_⟩
      · rw [List.length_append, List.length_cons, List.length_take]
        change 1 + i + 2 = min i bs.length + 1 + 2
        have hle : i + 2 ≤ bs.length := hlt.1
        omega
      · rw [List.cons_append, List.cons_append]
        exact congrArg (b :: ·) hrest
  · cases h

/-- A parsed number, in the bytes. -/
theorem parseAs_done {α : Type} {read : String → Option α} {word complaint : String} {b : UInt8} {bs : Bytes}
    {a : α} {c : Nat} (h : parseAs read word complaint (b :: bs) = .done a c) :
    ∃ text rest, Numeral read text a ∧ c = (b :: text ++ crlf).length ∧ b :: bs = b :: text ++ crlf ++ rest := by
  unfold parseAs at h
  cases hl : parseLine (b :: bs) with
  | done line consumed =>
      obtain ⟨hline, hc, rest, hrest⟩ := parseLine_done hl
      rw [hl, Parsed.bind_done] at h
      split at h
      · cases h
      · next s hs =>
          split at h
          · cases h
          · next hread =>
              cases h
              exact ⟨line, rest, ⟨hline, by rw [hs]; exact hread⟩, hc, hrest⟩
  | _ => simp [hl] at h

theorem parseAs_of_numeral {α : Type} {read : String → Option α} {text : Bytes} {a : α} (h : Numeral read text a)
    (word complaint : String) (b : UInt8) (r : Bytes) :
    parseAs read word complaint (b :: text ++ crlf ++ r) = .done a (b :: text ++ crlf).length :=
  parseAs_of_line h.line h.value word complaint b r

theorem parseAs_ne_panic {α : Type} {read : String → Option α} {word complaint : String} {data : Bytes} :
    parseAs read word complaint data ≠ .panic := by
  unfold parseAs parseLine
  split
  · rw [Parsed.bind_done]
    split
    · nofun
    · split <;> nofun
  · nofun

/-! ## Aggregates -/

/-- The elements of a map, two by two. -/
def pairUp : List RespFrame → List (RespFrame × RespFrame)
  | key :: value :: fs => (key, value) :: pairUp fs
  | _ => []

section Items

variable {item : Bytes → Parsed RespFrame}

/-- Pairs are read as twice as many frames. -/
theorem parseMany_pairs (item : Bytes → Parsed RespFrame) (n : Nat) (data : Bytes) :
    parseMany (parsePair item) n data =
      (parseMany item (2 * n) data).bind fun fs consumed => .done (pairUp fs) consumed := by
  induction n generalizing data with
  | zero => rfl
  | succ n ih =>
      rw [Nat.mul_succ, parseMany, parseMany, parsePair]
      cases item data with
      | done key c =>
          simp only [Parsed.bind_done]
          rw [parseMany]
          cases item (data.drop c) with
          | done value c' =>
              simp only [Parsed.bind_done]
              rw [ih, ← List.drop_drop]
              cases parseMany item (2 * n) ((data.drop c).drop c') with
              | done fs c'' => simp only [Parsed.bind_done, pairUp, Nat.add_assoc]
              | _ => rfl
          | _ => rfl
      | _ => rfl

/-- What an aggregate of `k` frames is, behind its header. -/
def aggregate (build : List RespFrame → RespFrame) (item : Bytes → Parsed RespFrame) (k header : Nat)
    (rest : Bytes) : Parsed RespFrame :=
  if allocatable frameSize k then
    (parseMany item k rest).bind fun fs consumed => .done (build fs) (header + consumed)
  else .panic

/-- The vector of frames, behind a header. -/
theorem parseVec_frames (build : List RespFrame → RespFrame) (h rest : Bytes) (k : Nat) :
    ((parseVec frameSize item k h.length (h ++ rest)).bind fun fs consumed => .done (build fs) consumed) =
      aggregate build item k h.length rest := by
  unfold parseVec aggregate
  rw [List.drop_left]
  split
  · cases parseMany item k rest <;> rfl
  · rfl

/-- The vector of pairs, behind a header. -/
theorem parseVec_pairs (h rest : Bytes) (k : Nat) :
    ((parseVec (2 * frameSize) (parsePair item) k h.length (h ++ rest)).bind fun ps consumed =>
        .done (map ps) consumed) =
      aggregate (fun fs => map (pairUp fs)) item (2 * k) h.length rest := by
  have hsize : allocatable (2 * frameSize) k = allocatable frameSize (2 * k) := by
    unfold allocatable
    rw [← Nat.mul_assoc, Nat.mul_comm k 2]
  unfold parseVec aggregate
  rw [List.drop_left, hsize, parseMany_pairs]
  split
  · cases parseMany item (2 * k) rest <;> rfl
  · rfl

/-- Behind its header an aggregate is read as its frames. -/
theorem parseDepth_header {h : Bytes} {k : Nat} (hh : Header h k) :
    ∃ build, ∀ n rest, parseDepth (n + 1) (h ++ rest) = aggregate build (parseDepth n) k h.length rest := by
  cases hh with
  | array hnum =>
      refine ⟨fun fs => array (some fs), fun n rest => ?_⟩
      change parseArray (parseDepth n) (42 :: _ ++ crlf ++ rest) = _
      rw [parseArray, parseAs_of_numeral hnum, Parsed.bind_done, if_neg (by omega), if_neg (by omega),
        Int.toNat_natCast, parseVec_frames]
  | map hnum =>
      refine ⟨fun fs => map (pairUp fs), fun n rest => ?_⟩
      change parseMap (parseDepth n) (37 :: _ ++ crlf ++ rest) = _
      rw [parseMap, parseAs_of_numeral hnum, Parsed.bind_done, parseVec_pairs]
  | set hnum =>
      refine ⟨set, fun n rest => ?_⟩
      change parseSet (parseDepth n) (126 :: _ ++ crlf ++ rest) = _
      rw [parseSet, parseAs_of_numeral hnum, Parsed.bind_done, parseVec_frames]

end Items

/-! ## Frames that are no aggregates -/

/-- The parser does not panic here, and what it reads is no aggregate. -/
def Modest (data : Bytes) (r : Parsed RespFrame) : Prop :=
  r ≠ .panic ∧ ∀ f c, r = .done f c → ∃ w rest, Plain w ∧ data = w ++ rest ∧ c = w.length

theorem modest_more (data : Bytes) : Modest data .more := ⟨by rintro ⟨⟩, by rintro _ _ ⟨⟩⟩

theorem modest_bad (data : Bytes) (complaint : String) : Modest data (bad complaint) :=
  ⟨by rintro ⟨⟩, by rintro _ _ ⟨⟩⟩

theorem modest_of_line {b : UInt8} {bs : Bytes} (build : Bytes → RespFrame)
    (hplain : ∀ text, OneLine text → Plain (b :: text ++ crlf)) :
    Modest (b :: bs) ((parseLine (b :: bs)).bind fun line consumed => .done (build line) consumed) := by
  cases hl : parseLine (b :: bs) with
  | done line consumed =>
      obtain ⟨hline, hc, rest, hrest⟩ := parseLine_done hl
      refine ⟨nofun, fun f c h => ?_⟩
      cases h
      exact ⟨_, rest, hplain line hline, hrest, hc⟩
  | more => exact ⟨nofun, nofun⟩
  | error e => exact ⟨nofun, nofun⟩
  | panic =>
      unfold parseLine at hl
      split at hl <;> cases hl

theorem modest_of_number {α : Type} {read : String → Option α} {word complaint : String} {b : UInt8} {bs : Bytes}
    (build : α → RespFrame) (hplain : ∀ text a, Numeral read text a → Plain (b :: text ++ crlf)) :
    Modest (b :: bs) ((parseAs read word complaint (b :: bs)).bind fun a consumed => .done (build a) consumed) := by
  cases hl : parseAs read word complaint (b :: bs) with
  | done a consumed =>
      obtain ⟨text, rest, hnum, hc, hrest⟩ := parseAs_done hl
      refine ⟨nofun, fun f c h => ?_⟩
      cases h
      exact ⟨_, rest, hplain text a hnum, hrest, hc⟩
  | more => exact ⟨nofun, nofun⟩
  | error e => exact ⟨nofun, nofun⟩
  | panic => exact absurd hl parseAs_ne_panic

theorem modest_bulkString (bs : Bytes) : Modest (36 :: bs) (parseBulkString (36 :: bs)) := by
  unfold parseBulkString
  cases hl : parseAs parseI64 "bulk length" "Invalid bulk string length" (36 :: bs) with
  | done len header =>
      obtain ⟨text, rest, hnum, rfl, hrest⟩ := parseAs_done hl
      rw [Parsed.bind_done]
      split
      · next hnull =>
          subst hnull
          refine ⟨nofun, fun f c h => ?_⟩
          cases h
          exact ⟨_, rest, .nullBulk hnum, hrest, rfl⟩
      · split
        · exact ⟨nofun, nofun⟩
        · next hneg =>
            obtain ⟨n, rfl⟩ := Int.eq_ofNat_of_zero_le (by omega : 0 ≤ len)
            dsimp only
            split
            · exact ⟨nofun, nofun⟩
            · next hlen =>
                split
                · exact ⟨nofun, nofun⟩
                · next hend =>
                    have hend := not_not.mp hend
                    refine ⟨nofun, fun f c h => ?_⟩
                    cases h
                    rw [hrest, Int.toNat_natCast, ← List.drop_drop, List.drop_left] at hend
                    rw [hrest, List.length_append, Int.toNat_natCast] at hlen
                    have htake : (rest.take n).length = n := List.length_take_of_le (by omega)
                    have hsplit : rest = rest.take n ++ crlf ++ rest.drop (n + 2) := by
                      rw [← hend, ← List.drop_drop, List.append_assoc, List.take_append_drop, List.take_append_drop]
                    have hcontent : Numeral parseI64 text ((rest.take n).length : Int) := by rwa [htake]
                    refine ⟨_, rest.drop (n + 2), .bulk hcontent, ?_, ?_⟩
                    · rw [hrest, List.append_assoc _ (rest.take n ++ crlf), ← hsplit]
                    · have hw : (rest.take n ++ crlf).length = n + 2 := by
                        rw [List.length_append, htake]
                        rfl
                      rw [Int.toNat_natCast, Nat.add_assoc, ← hw]
                      exact List.length_append.symm
  | more => exact ⟨nofun, nofun⟩
  | error e => exact ⟨nofun, nofun⟩
  | panic => exact absurd hl parseAs_ne_panic

theorem modest_null (bs : Bytes) : Modest (95 :: bs) (parseNull (95 :: bs)) := by
  unfold parseNull
  split
  · exact ⟨nofun, nofun⟩
  · split
    · next hend =>
        refine ⟨nofun, fun f c h => ?_⟩
        cases h
        have hend : bs.take 2 = crlf := hend
        refine ⟨_, bs.drop 2, .null, ?_, rfl⟩
        rw [← hend, List.cons_append, List.take_append_drop]
    · exact ⟨nofun, nofun⟩

theorem modest_boolean (bs : Bytes) : Modest (35 :: bs) (parseBoolean (35 :: bs)) := by
  have htrue : "t\r\n".toBytes = 116 :: crlf := by decide
  have hfalse : "f\r\n".toBytes = 102 :: crlf := by decide
  unfold parseBoolean
  rw [htrue, hfalse]
  split
  · exact ⟨nofun, nofun⟩
  · split
    · next hend =>
        refine ⟨nofun, fun f c h => ?_⟩
        cases h
        have hend : bs.take 3 = 116 :: crlf := hend
        refine ⟨_, bs.drop 3, .true, ?_, rfl⟩
        rw [← hend, List.cons_append, List.take_append_drop]
    · split
      · next hend =>
          refine ⟨nofun, fun f c h => ?_⟩
          cases h
          have hend : bs.take 3 = 102 :: crlf := hend
          refine ⟨_, bs.drop 3, .false, ?_, rfl⟩
          rw [← hend, List.cons_append, List.take_append_drop]
      · exact ⟨nofun, nofun⟩

/-- A number that opens an aggregate, or nothing of an aggregate. -/
theorem modest_or_header {α : Type} {read : String → Option α} {word complaint : String} {b : UInt8} {bs : Bytes}
    {g : α → Nat → Parsed RespFrame}
    (hg : ∀ text a rest, Numeral read text a → b :: bs = b :: text ++ crlf ++ rest →
      (∃ k, Header (b :: text ++ crlf) k) ∨ Modest (b :: bs) (g a (b :: text ++ crlf).length)) :
    (∃ h k rest, Header h k ∧ b :: bs = h ++ rest) ∨
      Modest (b :: bs) ((parseAs read word complaint (b :: bs)).bind g) := by
  cases hl : parseAs read word complaint (b :: bs) with
  | done a consumed =>
      obtain ⟨text, rest, hnum, rfl, hrest⟩ := parseAs_done hl
      rcases hg text a rest hnum hrest with ⟨k, hk⟩ | hmodest
      · exact .inl ⟨_, k, rest, hk, hrest⟩
      · exact .inr hmodest
  | more => exact .inr ⟨nofun, nofun⟩
  | error e => exact .inr ⟨nofun, nofun⟩
  | panic => exact absurd hl parseAs_ne_panic

/-- At every depth, bytes start with the header of an aggregate, or the parser does not
panic on them and what it reads is no aggregate. -/
theorem header_or_modest (n : Nat) (data : Bytes) :
    (∃ h k rest, Header h k ∧ data = h ++ rest) ∨ Modest data (parseDepth (n + 1) data) := by
  cases data with
  | nil => exact .inr (modest_more [])
  | cons b bs =>
      rw [parseDepth]
      unfold parseKind
      split
      · next htag =>
          obtain rfl : b = 43 := Checked.eq_of_charOfNat htag
          exact .inr (modest_of_line simpleString fun _ => .simple)
      · next htag =>
          obtain rfl : b = 45 := Checked.eq_of_charOfNat htag
          exact .inr (modest_of_line error fun _ => .error)
      · next htag =>
          obtain rfl : b = 58 := Checked.eq_of_charOfNat htag
          exact .inr (modest_of_number integer fun _ _ => .integer)
      · next htag =>
          obtain rfl : b = 36 := Checked.eq_of_charOfNat htag
          exact .inr (modest_bulkString bs)
      · next htag =>
          obtain rfl : b = 42 := Checked.eq_of_charOfNat htag
          unfold parseArray
          refine modest_or_header fun text len rest hnum hrest => ?_
          split
          · next hnull =>
              subst hnull
              refine .inr ⟨by rintro ⟨⟩, ?_⟩
              rintro _ _ ⟨⟩
              exact ⟨_, rest, .nullArray hnum, hrest, rfl⟩
          · split
            · exact .inr (modest_bad _ _)
            · obtain ⟨k, rfl⟩ := Int.eq_ofNat_of_zero_le (by omega : 0 ≤ len)
              exact .inl ⟨k, .array hnum⟩
      · next htag =>
          obtain rfl : b = 95 := Checked.eq_of_charOfNat htag
          exact .inr (modest_null bs)
      · next htag =>
          obtain rfl : b = 35 := Checked.eq_of_charOfNat htag
          exact .inr (modest_boolean bs)
      · next htag =>
          obtain rfl : b = 44 := Checked.eq_of_charOfNat htag
          exact .inr (modest_of_number double fun _ _ => .double)
      · next htag =>
          obtain rfl : b = 37 := Checked.eq_of_charOfNat htag
          exact modest_or_header fun text k rest hnum _ => .inl ⟨2 * k, .map hnum⟩
      · next htag =>
          obtain rfl : b = 126 := Checked.eq_of_charOfNat htag
          exact modest_or_header fun text k rest hnum _ => .inl ⟨k, .set hnum⟩
      · exact .inr (modest_bad _ _)

/-! ## What is read is whole -/

/-- What an element parser reads is a complete frame. -/
def Exact (item : Bytes → Parsed RespFrame) : Prop :=
  ∀ data f c, item data = .done f c → ∃ w rest, Whole w ∧ data = w ++ rest ∧ c = w.length

section Elements

variable {item : Bytes → Parsed RespFrame}

theorem parseMany_done (hitem : Exact item) {k : Nat} {data : Bytes} {fs : List RespFrame} {c : Nat}
    (h : parseMany item k data = .done fs c) :
    ∃ (ws : List Bytes) (rest : Bytes), ws.length = k ∧ (∀ w ∈ ws, Whole w) ∧ data = ws.flatten ++ rest ∧ c = ws.flatten.length := by
  induction k generalizing data fs c with
  | zero =>
      cases h
      exact ⟨[], data, rfl, nofun, rfl, rfl⟩
  | succ k ih =>
      rw [parseMany] at h
      cases hf : item data with
      | done f c₁ =>
          obtain ⟨w, rest, hw, rfl, rfl⟩ := hitem data f c₁ hf
          rw [hf, Parsed.bind_done, List.drop_left] at h
          cases hfs : parseMany item k rest with
          | done fs' c₂ =>
              obtain ⟨ws, rest', hlen, hws, rfl, rfl⟩ := ih hfs
              rw [hfs, Parsed.bind_done] at h
              cases h
              refine ⟨w :: ws, rest', by rw [List.length_cons, hlen], ?_, ?_, ?_⟩
              · exact List.forall_mem_cons.mpr ⟨hw, hws⟩
              · rw [List.flatten_cons, List.append_assoc]
              · rw [List.flatten_cons, List.length_append]
          | _ => simp [hfs] at h
      | _ => simp [hf] at h

/-- An element panics, behind elements that are complete. -/
theorem parseMany_panic (hitem : Exact item) {k : Nat} {data : Bytes} (h : parseMany item k data = .panic) :
    ∃ (ws : List Bytes) (rest : Bytes), ws.length < k ∧ (∀ w ∈ ws, Whole w) ∧ data = ws.flatten ++ rest ∧ item rest = .panic := by
  induction k generalizing data with
  | zero => cases h
  | succ k ih =>
      rw [parseMany] at h
      cases hf : item data with
      | done f c =>
          obtain ⟨w, rest, hw, rfl, rfl⟩ := hitem data f c hf
          rw [hf, Parsed.bind_done, List.drop_left] at h
          cases hfs : parseMany item k rest with
          | panic =>
              obtain ⟨ws, rest', hlen, hws, rfl, hpanic⟩ := ih hfs
              refine ⟨w :: ws, rest', ?_, ?_, ?_, hpanic⟩
              · rw [List.length_cons]
                omega
              · exact List.forall_mem_cons.mpr ⟨hw, hws⟩
              · rw [List.flatten_cons, List.append_assoc]
          | _ => simp [hfs] at h
      | panic => exact ⟨[], data, Nat.succ_pos k, List.forall_mem_nil _, rfl, hf⟩
      | _ => simp [hf] at h

end Elements

/-- At every depth the parser reads complete frames. -/
theorem exact_parseDepth (n : Nat) : Exact (parseDepth n) := by
  induction n with
  | zero => exact fun _ _ _ h => nomatch h
  | succ n ih =>
      intro data f c h
      rcases header_or_modest n data with ⟨head, k, rest, hh, rfl⟩ | ⟨-, hmodest⟩
      · obtain ⟨build, hbuild⟩ := parseDepth_header hh
        rw [hbuild, aggregate] at h
        split at h
        · next hsize =>
            cases hfs : parseMany (parseDepth n) k rest with
            | done fs c' =>
                obtain ⟨ws, rest', rfl, hws, rfl, rfl⟩ := parseMany_done ih hfs
                rw [hfs, Parsed.bind_done] at h
                cases h
                refine ⟨head ++ ws.flatten, rest', .aggregate hh (of_decide_eq_true hsize) hws, ?_, ?_⟩
                · rw [List.append_assoc]
                · rw [List.length_append]
            | _ => simp [hfs] at h
        · cases h
      · obtain ⟨w, rest, hw, hdata, hc⟩ := hmodest f c h
        exact ⟨w, rest, .plain hw, hdata, hc⟩

/-- Where the parser panics the bytes are oversized. -/
theorem oversized_of_panic {n : Nat} {data : Bytes} (h : parseDepth n data = .panic) : Oversized data := by
  induction n generalizing data with
  | zero => cases h
  | succ n ih =>
      rcases header_or_modest n data with ⟨head, k, rest, hh, rfl⟩ | ⟨hne, -⟩
      · obtain ⟨build, hbuild⟩ := parseDepth_header hh
        rw [hbuild, aggregate] at h
        split at h
        · next hsize =>
            cases hfs : parseMany (parseDepth n) k rest with
            | panic =>
                obtain ⟨ws, rest', hlen, hws, rfl, hpanic⟩ := parseMany_panic (exact_parseDepth n) hfs
                exact .inside hh (of_decide_eq_true hsize) hlen hws (ih hpanic)
            | _ => simp [hfs] at h
        · next hsize =>
            refine .here rest hh (Nat.le_of_not_lt fun hlt => hsize ?_)
            exact decide_eq_true hlt
      · exact absurd h hne

/-! ## What is whole is read -/

/-- Bytes that are read as a frame at every sufficient depth, whatever follows. -/
def Read (w : Bytes) : Prop := ∃ f, ∀ n r, w.length ≤ n → parseDepth n (w ++ r) = .done f w.length

theorem read_of_kind {b : UInt8} {bs : Bytes} {f : RespFrame} (tag : Char) (htag : Char.ofNat b.toNat = tag)
    (h : ∀ n r, parseKind tag (parseDepth n) (b :: bs ++ r) = .done f (b :: bs).length) : Read (b :: bs) :=
  ⟨f, (ReadsBack.of_kind tag htag fun n r _ => h n r).2⟩

theorem Plain.read {w : Bytes} (h : Plain w) : Read w := by
  cases h with
  | simple hline =>
      exact read_of_kind '+' (by decide) fun n r => congrArg (Parsed.bind · _) (parseLine_line hline r)
  | error hline =>
      exact read_of_kind '-' (by decide) fun n r => congrArg (Parsed.bind · _) (parseLine_line hline r)
  | integer hnum =>
      exact read_of_kind ':' (by decide) fun n r => congrArg (Parsed.bind · _) (parseAs_of_numeral hnum _ _ 58 r)
  | double hnum =>
      exact read_of_kind ',' (by decide) fun n r => congrArg (Parsed.bind · _) (parseAs_of_numeral hnum _ _ 44 r)
  | nullBulk hnum =>
      refine read_of_kind (f := RespFrame.nullBulk) '$' (by decide) fun n r => ?_
      exact congrArg (Parsed.bind · _) (parseAs_of_numeral hnum _ _ 36 r)
  | nullArray hnum =>
      refine read_of_kind (f := RespFrame.nullArray) '*' (by decide) fun n r => ?_
      exact congrArg (Parsed.bind · _) (parseAs_of_numeral hnum _ _ 42 r)
  | null => exact read_of_kind '_' (by decide) fun n r => rfl
  | true => exact read_of_kind '#' (by decide) fun n r => rfl
  | false => exact read_of_kind '#' (by decide) fun n r => rfl
  | bulk hnum => exact read_of_kind '$' (by decide) fun n r =>
      parseBulkString_of_header (fun r => parseAs_of_numeral hnum _ _ 36 r) r

/-- Complete frames, one behind the other, are read as so many. -/
theorem parseMany_whole {ws : List Bytes} (h : ∀ w ∈ ws, Read w) :
    ∃ fs, ∀ n r, ws.flatten.length ≤ n →
      parseMany (parseDepth n) ws.length (ws.flatten ++ r) = .done fs ws.flatten.length := by
  induction ws with
  | nil => exact ⟨[], fun _ _ _ => rfl⟩
  | cons w ws ih =>
      obtain ⟨⟨f, hf⟩, hws⟩ := List.forall_mem_cons.mp h
      obtain ⟨fs, hfs⟩ := ih hws
      refine ⟨f :: fs, fun n r hn => ?_⟩
      rw [List.flatten_cons, List.length_append] at hn
      rw [List.flatten_cons, List.length_cons, parseMany, List.append_assoc, hf n _ (by omega), Parsed.bind_done,
        List.drop_left, hfs n r (by omega), Parsed.bind_done, List.length_append]

theorem Header.length_pos {h : Bytes} {k : Nat} (hh : Header h k) : 0 < h.length := by
  cases hh <;> exact Nat.succ_pos _

/-- Every complete frame is read. -/
theorem Whole.read {w : Bytes} (h : Whole w) : Read w := by
  induction h with
  | plain hplain => exact hplain.read
  | @aggregate head ws hh hsize _ ih =>
      obtain ⟨fs, hfs⟩ := parseMany_whole ih
      obtain ⟨build, hbuild⟩ := parseDepth_header hh
      refine ⟨build fs, fun n r hn => ?_⟩
      have hpos := hh.length_pos
      rw [List.length_append] at hn ⊢
      obtain ⟨n, rfl⟩ : ∃ m, n = m + 1 := ⟨n - 1, by omega⟩
      have hfits : allocatable frameSize ws.length = true := decide_eq_true hsize
      rw [List.append_assoc, hbuild, RespFrame.aggregate, if_pos hfits, hfs n r (by omega), Parsed.bind_done]

/-- Behind complete elements the panic of an element is the panic of all. -/
theorem parseMany_of_panic {n : Nat} {rest : Bytes} (hrest : parseDepth n rest = .panic) {ws : List Bytes}
    (h : ∀ w ∈ ws, Read w) (hn : ws.flatten.length ≤ n) {k : Nat} (hk : ws.length < k) :
    parseMany (parseDepth n) k (ws.flatten ++ rest) = .panic := by
  obtain ⟨k, rfl⟩ : ∃ m, k = m + 1 := ⟨k - 1, by omega⟩
  induction ws generalizing k with
  | nil =>
      rw [parseMany, List.flatten_nil, List.nil_append, hrest]
      rfl
  | cons w ws ih =>
      obtain ⟨⟨f, hf⟩, hws⟩ := List.forall_mem_cons.mp h
      rw [List.flatten_cons, List.length_append] at hn
      rw [List.length_cons] at hk
      obtain ⟨k, rfl⟩ : ∃ m, k = m + 1 := ⟨k - 1, by omega⟩
      rw [parseMany, List.flatten_cons, List.append_assoc, hf n _ (by omega), Parsed.bind_done, List.drop_left,
        ih hws (by omega) k (by omega)]
      rfl

/-- The parser panics on oversized bytes. -/
theorem panic_of_oversized {data : Bytes} (h : Oversized data) {n : Nat} (hn : data.length ≤ n) :
    parseDepth n data = .panic := by
  induction h generalizing n with
  | @here head k rest hh hsize =>
      have hpos := hh.length_pos
      rw [List.length_append] at hn
      obtain ⟨n, rfl⟩ : ∃ m, n = m + 1 := ⟨n - 1, by omega⟩
      obtain ⟨build, hbuild⟩ := parseDepth_header hh
      rw [hbuild, aggregate, if_neg]
      exact fun hfits => absurd (of_decide_eq_true hfits) (Nat.not_lt.mpr hsize)
  | @inside head rest k ws hh hsize hlen hws _ ih =>
      have hpos := hh.length_pos
      rw [List.length_append, List.length_append] at hn
      obtain ⟨n, rfl⟩ : ∃ m, n = m + 1 := ⟨n - 1, by omega⟩
      obtain ⟨build, hbuild⟩ := parseDepth_header hh
      have hfits : allocatable frameSize k = true := decide_eq_true hsize
      rw [hbuild, aggregate, if_pos hfits,
        parseMany_of_panic (ih (by omega)) (fun w hw => (hws w hw).read) (by omega) hlen]
      rfl

/-! ## Survival -/

/-- The bytes of a slice: fewer than `2^63`. -/
abbrev Slice := { data : Bytes // data.length < 2 ^ 63 }

/-- `parse_frame`, with all its checks, comes back; and a frame takes a byte at least and
none that is not there. -/
def Survives (data : Bytes) : Prop :=
  Checked.parseFrame data ≠ .panic ∧
    ∀ f c, Checked.parseFrame data = .done f c → 1 ≤ c ∧ c ≤ data.length

theorem bulkOverflow_iff (data : Bytes) :
    BulkOverflow data ↔ data.head? = some 36 ∧ ¬ Checked.BulkFits data := by
  constructor
  · rintro ⟨text, rest, len, rfl, hnum, hover⟩
    refine ⟨rfl, fun hfits => ?_⟩
    have hlt := hfits _ _ (parseAs_of_numeral hnum _ _ 36 rest) (by omega)
    rw [Int.toNat_natCast] at hlt
    omega
  · rintro ⟨hhead, hfits⟩
    unfold Checked.BulkFits at hfits
    simp only [not_forall, Nat.not_lt] at hfits
    obtain ⟨len, header, hp, hpos, hover⟩ := hfits
    cases data with
    | nil => cases hhead
    | cons b bs =>
        obtain rfl : b = 36 := Option.some.inj hhead
        obtain ⟨text, rest, hnum, rfl, hrest⟩ := parseAs_done hp
        obtain ⟨n, rfl⟩ := Int.eq_ofNat_of_zero_le hpos
        exact ⟨text, rest, n, hrest, hnum, hover⟩

/-- The parser survives the bytes of a slice exactly if no header that declares too many
elements stands where a frame is due, and they are not a bulk string too long to count. -/
theorem survives_iff (data : Slice) : Survives data.1 ↔ ¬ (Oversized data.1 ∨ BulkOverflow data.1) := by
  obtain ⟨data, hdata⟩ := data
  dsimp only
  by_cases hbulk : BulkOverflow data
  · obtain ⟨hhead, hfits⟩ := (bulkOverflow_iff data).mp hbulk
    exact iff_of_false (fun h => h.1 (Checked.checked_panic hdata hhead hfits)) fun h => h (.inr hbulk)
  · have hfits : data.head? = some 36 → Checked.BulkFits data := by
      intro hhead
      by_contra hno
      exact hbulk ((bulkOverflow_iff data).mpr ⟨hhead, hno⟩)
    unfold Survives
    rw [Checked.checked_eq hdata hfits]
    constructor
    · rintro ⟨hne, -⟩ (hover | hover)
      · exact hne (panic_of_oversized hover (Nat.le_refl _))
      · exact hbulk hover
    · intro hno
      refine ⟨fun hpanic => hno (.inl (oversized_of_panic hpanic)), fun f c h => ⟨parseFrame_pos h, ?_⟩⟩
      exact (settles_parseFrame.done data f c h).1

/-- An array of `2^58` frames of 32 bytes each. -/
theorem array_header_kills : ¬ Survives "*288230376151711744\r\n".toBytes := by
  have hnum : Numeral parseI64 "288230376151711744".toBytes ((288230376151711744 : Nat) : Int) :=
    ⟨.of_not_mem (by decide +kernel), by decide +kernel⟩
  have hbytes : "*288230376151711744\r\n".toBytes = 42 :: "288230376151711744".toBytes ++ crlf ++ [] := by
    decide +kernel
  rintro ⟨hne, -⟩
  refine hne ?_
  rw [Checked.checked_eq (by decide +kernel) (fun h => absurd h (by decide +kernel)), hbytes]
  exact panic_of_oversized (.here [] (.array hnum) (by decide)) (Nat.le_refl _)

end RespFrame

end Ferrous
