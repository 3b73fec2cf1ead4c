/-
# `Protocol.Parser` — reading RESP frames

`parse_frame` and its cases, on a slice of bytes: a frame with the number of
bytes it took, a request for more, or an error.  The vector of an aggregate is
allocated from the declared length, which panics beyond `isize::MAX` bytes.
What the serialiser writes is read back, whatever follows it.
-/
import Ferrous.Protocol.Resp
import Ferrous.Storage.Error

namespace Ferrous

open Lib

/-- `Result<Option<(T, usize)>>`, or a panic. -/
inductive Parsed (α : Type)
  | done (a : α) (consumed : Nat)
  | more
  | error (e : FerrousError)
  | panic

namespace Parsed

variable {α β : Type}

/-- Go on behind what was parsed. -/
def bind : Parsed α → (α → Nat → Parsed β) → Parsed β
  | done a consumed, f => f a consumed
  | more, _ => more
  | error e, _ => error e
  | panic, _ => panic

@[simp] theorem bind_done (a : α) (consumed : Nat) (f : α → Nat → Parsed β) :
    (done a consumed).bind f = f a consumed := rfl

@[simp] theorem bind_more (f : α → Nat → Parsed β) : (more : Parsed α).bind f = more := rfl

@[simp] theorem bind_error (e : FerrousError) (f : α → Nat → Parsed β) :
    (error e : Parsed α).bind f = error e := rfl

@[simp] theorem bind_panic (f : α → Nat → Parsed β) : (panic : Parsed α).bind f = panic := rfl

end Parsed

namespace RespFrame

/-- `FerrousError::Protocol`, as a result. -/
def bad {α : Type} (msg : String) : Parsed α := .error (.protocol msg)

/-- The number of bytes before the first line end. -/
def findCrlf : Bytes → Option Nat
  | [] => none
  | b :: bs => if b = 13 ∧ bs.head? = some 10 then some 0 else (findCrlf bs).map (· + 1)

/-- `parse_line`, behind the type byte. -/
def parseLine (data : Bytes) : Parsed Bytes :=
  match findCrlf (data.drop 1) with
  | some i => .done ((data.drop 1).take i) (1 + i + 2)
  | none => .more

/-- A line that is read as something. -/
def parseAs {α : Type} (read : String → Option α) (word complaint : String) (data : Bytes) :
    Parsed α :=
  (parseLine data).bind fun line consumed =>
    match fromUtf8 line with
    | none => bad ("Invalid UTF-8 in " ++ word)
    | some s =>
        match read s with
        | none => bad complaint
        | some a => .done a consumed

/-- `parse_bulk_string`. -/
def parseBulkString (data : Bytes) : Parsed RespFrame :=
  (parseAs parseI64 "bulk length" "Invalid bulk string length" data).bind fun len header =>
    if len = -1 then .done nullBulk header
    else if len < 0 then bad "Invalid negative bulk string length"
    else
      let len := len.toNat
      if data.length < header + len + 2 then .more
      else if (data.drop (header + len)).take 2 ≠ crlf then bad "Missing CRLF after bulk string"
      else .done (fromBytes ((data.drop header).take len)) (header + len + 2)

/-- `parse_null`. -/
def parseNull (data : Bytes) : Parsed RespFrame :=
  if data.length < 3 then .more
  else if (data.drop 1).take 2 = crlf then .done null 3
  else bad "Invalid null format"

/-- `parse_boolean`. -/
def parseBoolean (data : Bytes) : Parsed RespFrame :=
  if data.length < 4 then .more
  else if (data.drop 1).take 3 = "t\r\n".toBytes then .done (boolean true) 4
  else if (data.drop 1).take 3 = "f\r\n".toBytes then .done (boolean false) 4
  else bad "Invalid boolean format"

/-- `size_of::<RespFrame>()`: three words and a tag. -/
def frameSize : Nat := 32

/-- `Vec::with_capacity` succeeds. -/
def allocatable (size n : Nat) : Bool := decide (n * size < 2 ^ 63)

/-- `n` items, one behind the other. -/
def parseMany {α : Type} (item : Bytes → Parsed α) : Nat → Bytes → Parsed (List α)
  | 0, _ => .done [] 0
  | n + 1, data =>
      (item data).bind fun a consumed =>
        (parseMany item n (data.drop consumed)).bind fun as consumed' =>
          .done (a :: as) (consumed + consumed')

/-- A key and a value. -/
def parsePair {α : Type} (item : Bytes → Parsed α) (data : Bytes) : Parsed (α × α) :=
  (item data).bind fun key consumed =>
    (item (data.drop consumed)).bind fun value consumed' => .done (key, value) (consumed + consumed')

/-- The vector of an aggregate, behind its header. -/
def parseVec {α : Type} (size : Nat) (item : Bytes → Parsed α) (len header : Nat) (data : Bytes) :
    Parsed (List α) :=
  if allocatable size len then
    (parseMany item len (data.drop header)).bind fun as consumed => .done as (header + consumed)
  else .panic

/-- `parse_array`, given the parser of its elements. -/
def parseArray (item : Bytes → Parsed RespFrame) (data : Bytes) : Parsed RespFrame :=
  (parseAs parseI64 "array length" "Invalid array length" data).bind fun len header =>
    if len = -1 then .done nullArray header
    else if len < 0 then bad "Invalid negative array length"
    else (parseVec frameSize item len.toNat header data).bind fun fs consumed =>
      .done (array (some fs)) consumed

/-- `parse_map`. -/
def parseMap (item : Bytes → Parsed RespFrame) (data : Bytes) : Parsed RespFrame :=
  (parseAs parseU64 "map length" "Invalid map length" data).bind fun len header =>
    (parseVec (2 * frameSize) (parsePair item) len header data).bind fun ps consumed =>
      .done (map ps) consumed

/-- `parse_set`. -/
def parseSet (item : Bytes → Parsed RespFrame) (data : Bytes) : Parsed RespFrame :=
  (parseAs parseU64 "set length" "Invalid set length" data).bind fun len header =>
    (parseVec frameSize item len header data).bind fun fs consumed => .done (set fs) consumed

/-- The `match` of `parse_frame`, given the parser of elements. -/
def parseKind (tag : Char) (item : Bytes → Parsed RespFrame) (data : Bytes) : Parsed RespFrame :=
  match tag with
  | '+' => (parseLine data).bind fun line consumed => .done (simpleString line) consumed
  | '-' => (parseLine data).bind fun line consumed => .done (error line) consumed
  | ':' => (parseAs parseI64 "integer" "Invalid integer format" data).bind fun n consumed =>
      .done (integer n) consumed
  | '$' => parseBulkString data
  | '*' => parseArray item data
  | '_' => parseNull data
  | '#' => parseBoolean data
  | ',' => (parseAs Float64.parse "double" "Invalid double format" data).bind fun x consumed =>
      .done (double x) consumed
  | '%' => parseMap item data
  | '~' => parseSet item data
  | c => bad ("Invalid RESP type byte: " ++ String.singleton c)

/-- `parse_frame`, to a depth: an element starts behind the header of its
aggregate, so the number of bytes bounds the depth. -/
def parseDepth : Nat → Bytes → Parsed RespFrame
  | 0, _ => .more
  | _ + 1, [] => .more
  | n + 1, b :: bs => parseKind (Char.ofNat b.toNat) (parseDepth n) (b :: bs)

/-- `parse_frame`. -/
def parseFrame (data : Bytes) : Parsed RespFrame := parseDepth data.length data

/-! ## What is written is read back -/

mutual

/-- A frame that can be on the wire and in memory: no marker, no floating-point
number, no line end in a line, and machine-sized numbers. -/
def Wire : RespFrame → Prop
  | simpleString bytes => 13 ∉ bytes ∧ 10 ∉ bytes
  | error bytes => 13 ∉ bytes ∧ 10 ∉ bytes
  | integer n => -2 ^ 63 ≤ n ∧ n < 2 ^ 63
  | bulkString none => True
  | bulkString (some bytes) => allocatable 1 bytes.length
  | array none => True
  | array (some frames) => allocatable frameSize frames.length ∧ WireAll frames
  | noResponse => False
  | null => True
  | boolean _ => True
  | double _ => False
  | map pairs => allocatable (2 * frameSize) pairs.length ∧ WirePairs pairs
  | set elements => allocatable frameSize elements.length ∧ WireAll elements

@[inherit_doc Wire]
def WireAll : List RespFrame → Prop
  | [] => True
  | f :: fs => Wire f ∧ WireAll fs

@[inherit_doc Wire]
def WirePairs : List (RespFrame × RespFrame) → Prop
  | [] => True
  | (k, v) :: ps => Wire k ∧ Wire v ∧ WirePairs ps

end

/-- There is no line end in it. -/
def OneLine (body : Bytes) : Prop := ¬ crlf <:+: body

theorem OneLine.of_not_mem {body : Bytes} (h : 13 ∉ body) : OneLine body :=
  fun hin => h (hin.subset List.mem_cons_self)

theorem OneLine.tail {b : UInt8} {body : Bytes} (h : OneLine (b :: body)) : OneLine body :=
  fun hin => h (hin.trans (List.suffix_cons b body).isInfix)

/-- A line end that starts in the body ends behind it. -/
theorem OneLine.not_start {b : UInt8} {body : Bytes} (h : OneLine (b :: body)) (r : Bytes) :
    ¬ (b = 13 ∧ (body ++ (crlf ++ r)).head? = some 10) := by
  rintro ⟨rfl, hhead⟩
  cases body with
  | nil => cases hhead
  | cons c body =>
      obtain rfl : c = 10 := Option.some.inj hhead
      exact h (List.prefix_append crlf body).isInfix

theorem findCrlf_append {body : Bytes} (h : OneLine body) (r : Bytes) :
    findCrlf (body ++ (crlf ++ r)) = some body.length := by
  induction body with
  | nil => rfl
  | cons b body ih =>
      rw [List.cons_append, findCrlf, if_neg (h.not_start r), ih h.tail]
      rfl

theorem parseLine_line {b : UInt8} {body : Bytes} (h : OneLine body) (r : Bytes) :
    parseLine (b :: body ++ crlf ++ r) = .done body (b :: body ++ crlf).length := by
  have hdrop : (b :: body ++ crlf ++ r).drop 1 = body ++ (crlf ++ r) := by
    rw [List.append_assoc]
    rfl
  rw [parseLine, hdrop, findCrlf_append h]
  simp [crlf]
  omega

/-- A header of one line is read as what its line says. -/
theorem parseAs_of_line {α : Type} {read : String → Option α} {text : Bytes} {a : α} (hline : OneLine text)
    (hread : (fromUtf8 text).bind read = some a) (word complaint : String) (b : UInt8) (r : Bytes) :
    parseAs read word complaint (b :: text ++ crlf ++ r) = .done a (b :: text ++ crlf).length := by
  obtain ⟨s, hs, hread⟩ := Option.bind_eq_some_iff.mp hread
  simp only [parseAs, parseLine_line hline, Parsed.bind_done, hs, hread]

/-- A header with a number is read back. -/
theorem parseAs_numeral {α : Type} {read : String → Option α} {a : α} {n : Int} (word complaint : String)
    (hread : read (toString n) = some a) (b : UInt8) (r : Bytes) :
    parseAs read word complaint (b :: intBytes n ++ crlf ++ r) =
      .done a (b :: intBytes n ++ crlf).length := by
  refine parseAs_of_line (.of_not_mem (not_mem_intBytes n)) ?_ word complaint b r
  rw [fromUtf8_intBytes]
  exact hread

/-- Reading what was written gives it back, at every sufficient depth and
whatever follows. -/
def ReadsBack {α : Type} (item : Nat → Bytes → Parsed α) (w : Bytes × Bool) (a : α) : Prop :=
  w.2 = true ∧ ∀ n r, w.1.length ≤ n → item n (w.1 ++ r) = .done a w.1.length

section Combine

variable {α : Type} {item : Nat → Bytes → Parsed α}

theorem readsBack_nil : ReadsBack (fun n => parseMany (item n) 0) ([], true) [] :=
  ⟨rfl, fun _ _ _ => rfl⟩

theorem ReadsBack.cons {w ws : Bytes × Bool} {a : α} {as : List α} {k : Nat} (h : ReadsBack item w a)
    (hs : ReadsBack (fun n => parseMany (item n) k) ws as) :
    ReadsBack (fun n => parseMany (item n) (k + 1)) (andThen w fun _ => ws) (a :: as) := by
  have hw : andThen w (fun _ => ws) = (w.1 ++ ws.1, ws.2) := by rw [andThen, if_pos h.1]
  refine ⟨by rw [hw]; exact hs.1, fun n r hn => ?_⟩
  rw [hw] at hn ⊢
  rw [List.length_append] at hn
  simp only [List.append_assoc, parseMany, h.2 n _ (by omega : w.1.length ≤ n), Parsed.bind_done,
    List.drop_left, hs.2 n r (by omega), List.length_append]

theorem ReadsBack.pair {w v : Bytes × Bool} {a b : α} (h : ReadsBack item w a)
    (hv : ReadsBack item v b) :
    ReadsBack (fun n => parsePair (item n)) (andThen w fun _ => v) (a, b) := by
  have hw : andThen w (fun _ => v) = (w.1 ++ v.1, v.2) := by rw [andThen, if_pos h.1]
  refine ⟨by rw [hw]; exact hv.1, fun n r hn => ?_⟩
  rw [hw] at hn ⊢
  rw [List.length_append] at hn
  simp only [List.append_assoc, parsePair, h.2 n _ (by omega : w.1.length ≤ n), Parsed.bind_done,
    List.drop_left, hv.2 n r (by omega), List.length_append]

end Combine

/-- A line behind its type byte. -/
theorem line_eq {tag : Char} {b : UInt8} (hb : (String.singleton tag).toBytes = [b]) (body : Bytes) :
    line tag body = b :: body ++ crlf := by
  rw [line, hb]
  rfl

/-- A frame that starts with the byte of a type is read as that type. -/
theorem ReadsBack.of_kind (tag : Char) {b : UInt8} {bs : Bytes} {f : RespFrame}
    (htag : Char.ofNat b.toNat = tag)
    (h : ∀ n r, bs.length ≤ n →
      parseKind tag (parseDepth n) (b :: bs ++ r) = .done f (b :: bs).length) :
    ReadsBack parseDepth (b :: bs, true) f := by
  refine ⟨rfl, fun n r hn => ?_⟩
  obtain ⟨n, rfl⟩ : ∃ m, n = m + 1 := ⟨n - 1, by rw [List.length_cons] at hn; omega⟩
  rw [List.cons_append, parseDepth, htag]
  exact h n r (by rw [List.length_cons] at hn; omega)

/-- The vector of an aggregate is read back behind its header. -/
theorem parseVec_of_readsBack {α : Type} {item : Nat → Bytes → Parsed α} {w : Bytes × Bool} {as : List α}
    {size n : Nat} (h : ReadsBack (fun n => parseMany (item n) as.length) w as)
    (hsize : allocatable size as.length) (hn : w.1.length ≤ n) (head r : Bytes) :
    parseVec size (item n) as.length head.length (head ++ w.1 ++ r) =
      .done as (head ++ w.1).length := by
  have hread : parseMany (item n) as.length (w.1 ++ r) = .done as w.1.length := h.2 n r hn
  rw [parseVec, if_pos hsize, List.append_assoc, List.drop_left, hread, Parsed.bind_done,
    List.length_append]

/-- An aggregate: a header with the number of items, then the items. -/
theorem ReadsBack.of_header (tag : Char) {b : UInt8} {k : Nat} {w : Bytes × Bool} {f : RespFrame}
    (hb : (String.singleton tag).toBytes = [b]) (htag : Char.ofNat b.toNat = tag) (hw : w.2 = true)
    (h : ∀ n r, w.1.length ≤ n →
      parseKind tag (parseDepth n) (b :: intBytes k ++ crlf ++ w.1 ++ r) =
        .done f (b :: intBytes k ++ crlf ++ w.1).length) :
    ReadsBack parseDepth (andThen (lengthLine tag k, true) fun _ => w) f := by
  have hbytes : andThen (lengthLine tag k, true) (fun _ => w) =
      (b :: (intBytes k ++ crlf ++ w.1), true) := by
    rw [andThen, if_pos rfl, lengthLine, line_eq hb, hw]
    rfl
  rw [hbytes]
  refine .of_kind tag htag fun n r hn => h n r ?_
  rw [List.length_append] at hn
  omega

theorem parseI64_natCast {n : Nat} (h : n < 2 ^ 63) : parseI64 (toString (n : Int)) = some (n : Int) :=
  parseI64_toString (by omega) (by omega)

theorem lt_of_allocatable {size n : Nat} (hs : 0 < size) (h : allocatable size n) : n < 2 ^ 63 := by
  have hlt : n * size < 2 ^ 63 := of_decide_eq_true h
  exact Nat.lt_of_le_of_lt (Nat.le_mul_of_pos_right n hs) hlt

theorem andThen_assoc {u v : Bytes × Bool} (hu : u.2 = true) (w : Bytes × Bool) :
    andThen (andThen u fun _ => v) (fun _ => w) = andThen u fun _ => andThen v fun _ => w := by
  cases hv : v.2 with
  | true => simp [andThen, hu, hv]
  | false => simp [andThen, hu, hv]

/-- A bulk string behind a header that is read as its length. -/
theorem parseBulkString_of_header {head bytes : Bytes}
    (hhead : ∀ r, parseAs parseI64 "bulk length" "Invalid bulk string length" (head ++ r) =
      .done (bytes.length : Int) head.length) (r : Bytes) :
    parseBulkString (head ++ (bytes ++ crlf) ++ r) = .done (fromBytes bytes) (head ++ (bytes ++ crlf)).length := by
  have hneg : ¬ (bytes.length : Int) = -1 := by omega
  have hneg' : ¬ (bytes.length : Int) < 0 := by omega
  have hnum := hhead (bytes ++ crlf ++ r)
  rw [← List.append_assoc] at hnum
  have hcontent : ((head ++ (bytes ++ crlf) ++ r).drop head.length).take bytes.length = bytes := by
    simp
  have hend : ((head ++ (bytes ++ crlf) ++ r).drop (head.length + bytes.length)).take 2 = crlf := by
    rw [← List.drop_drop]
    simp [crlf]
  have hlen : ¬ (head ++ (bytes ++ crlf) ++ r).length < head.length + bytes.length + 2 := by
    simp [crlf]
    omega
  simp only [parseBulkString, hnum, Parsed.bind_done, if_neg hneg, if_neg hneg', Int.toNat_natCast,
    if_neg hlen, hend, ne_eq, not_true_eq_false, if_false, hcontent]
  simp [crlf]
  omega

theorem parseBulkString_bytes {bytes : Bytes} (h : bytes.length < 2 ^ 63) (r : Bytes) :
    parseBulkString (36 :: (intBytes bytes.length ++ crlf ++ bytes ++ crlf) ++ r) =
      .done (fromBytes bytes) (36 :: (intBytes bytes.length ++ crlf ++ bytes ++ crlf)).length := by
  have hdata : 36 :: (intBytes bytes.length ++ crlf ++ bytes ++ crlf) =
      36 :: intBytes bytes.length ++ crlf ++ (bytes ++ crlf) := by
    simp
  rw [hdata]
  exact parseBulkString_of_header (fun r => parseAs_numeral _ _ (parseI64_natCast h) 36 r) r

/-- What is read back: a line without line ends, a machine-sized number. -/
def Legible : RespFrame → Prop
  | simpleString bytes => OneLine bytes
  | error bytes => OneLine bytes
  | integer n => -2 ^ 63 ≤ n ∧ n < 2 ^ 63
  | bulkString (some bytes) => allocatable 1 bytes.length
  | array (some frames) => allocatable frameSize frames.length
  | noResponse => False
  | double _ => False
  | map pairs => allocatable (2 * frameSize) pairs.length
  | set elements => allocatable frameSize elements.length
  | _ => True

mutual

theorem Wire.legible : ∀ {f : RespFrame}, f.Wire → f.Everywhere Legible
  | simpleString _, h => .of_not_mem h.1
  | error _, h => .of_not_mem h.1
  | integer _, h => h
  | bulkString none, h => h
  | bulkString (some _), h => h
  | array none, h => h
  | array (some _), h => ⟨h.1, WireAll.legible h.2⟩
  | noResponse, h => h
  | null, h => h
  | boolean _, h => h
  | double _, h => h
  | map _, h => ⟨h.1, WirePairs.legible h.2⟩
  | set _, h => ⟨h.1, WireAll.legible h.2⟩

theorem WireAll.legible : ∀ {fs : List RespFrame}, WireAll fs → EverywhereAll Legible fs
  | [], _ => trivial
  | _ :: _, h => ⟨Wire.legible h.1, WireAll.legible h.2⟩

theorem WirePairs.legible : ∀ {ps : List (RespFrame × RespFrame)}, WirePairs ps → EverywherePairs Legible ps
  | [], _ => trivial
  | (_, _) :: _, h => ⟨Wire.legible h.1, Wire.legible h.2.1, WirePairs.legible h.2.2⟩

end

mutual

theorem readsBack_serialize : ∀ f : RespFrame, f.Everywhere Legible → ReadsBack parseDepth f.serialize f
  | simpleString bytes, h => by
      rw [serialize, line_eq (b := 43) (by decide)]
      refine .of_kind '+' (by decide) fun n r _ => ?_
      exact congrArg (Parsed.bind · _) (parseLine_line h r)
  | error bytes, h => by
      rw [serialize, line_eq (b := 45) (by decide)]
      refine .of_kind '-' (by decide) fun n r _ => ?_
      exact congrArg (Parsed.bind · _) (parseLine_line h r)
  | integer k, h => by
      rw [serialize, line_eq (b := 58) (by decide)]
      refine .of_kind ':' (by decide) fun n r _ => ?_
      exact congrArg (Parsed.bind · _) (parseAs_numeral _ _ (parseI64_toString h.1 h.2) 58 r)
  | bulkString none, _ => by
      have hminus : "-1".toBytes = intBytes (-1) := by decide
      rw [serialize, hminus, line_eq (b := 36) (by decide)]
      refine .of_kind '$' (by decide) fun n r _ => ?_
      change parseBulkString (36 :: intBytes (-1) ++ crlf ++ r) = _
      rw [parseBulkString, parseAs_numeral _ _ (parseI64_toString (by decide) (by decide)),
        Parsed.bind_done, if_pos rfl]
      rfl
  | bulkString (some bytes), h => by
      have hlt := lt_of_allocatable (by decide) h
      have hbytes : serialize (bulkString (some bytes)) =
          (36 :: (intBytes bytes.length ++ crlf ++ bytes ++ crlf), true) := by
        rw [serialize, lengthLine, line_eq (b := 36) (by decide)]
        rfl
      rw [hbytes]
      refine .of_kind '$' (by decide) fun n r _ => ?_
      exact parseBulkString_bytes hlt r
  | array none, _ => by
      have hminus : "-1".toBytes = intBytes (-1) := by decide
      rw [serialize, hminus, line_eq (b := 42) (by decide)]
      refine .of_kind '*' (by decide) fun n r _ => ?_
      change parseArray (parseDepth n) (42 :: intBytes (-1) ++ crlf ++ r) = _
      rw [parseArray, parseAs_numeral _ _ (parseI64_toString (by decide) (by decide)),
        Parsed.bind_done, if_pos rfl]
      rfl
  | array (some frames), h => by
      have hall := readsBack_serializeAll frames h.2
      have hlt := lt_of_allocatable (by decide) h.1
      rw [serialize]
      refine .of_header '*' (b := 42) (by decide) (by decide) hall.1 fun n r hn => ?_
      have hvec := parseVec_of_readsBack hall h.1 hn (42 :: intBytes frames.length ++ crlf) r
      have hhead := parseAs_numeral "array length" "Invalid array length"
        (parseI64_natCast hlt) 42 ((serializeAll frames).1 ++ r)
      rw [← List.append_assoc] at hhead
      have hneg : ¬ (frames.length : Int) = -1 := by omega
      have hneg' : ¬ (frames.length : Int) < 0 := by omega
      simp only [parseKind, parseArray, hhead, Parsed.bind_done, if_neg hneg, if_neg hneg',
        Int.toNat_natCast, hvec]
  | noResponse, h => h.elim
  | null, _ => by
      have hbytes : serialize null = (95 :: crlf, true) := by decide
      rw [hbytes]
      exact .of_kind '_' (by decide) fun n r _ => rfl
  | boolean true, _ => by
      have hbytes : serialize (boolean true) = (35 :: 116 :: crlf, true) := by decide
      rw [hbytes]
      exact .of_kind '#' (by decide) fun n r _ => rfl
  | boolean false, _ => by
      have hbytes : serialize (boolean false) = (35 :: 102 :: crlf, true) := by decide
      rw [hbytes]
      exact .of_kind '#' (by decide) fun n r _ => rfl
  | double x, h => h.elim
  | map pairs, h => by
      have hall := readsBack_serializePairs pairs h.2
      have hlt := lt_of_allocatable (by decide) h.1
      rw [serialize]
      refine .of_header '%' (b := 37) (by decide) (by decide) hall.1 fun n r hn => ?_
      have hvec := parseVec_of_readsBack hall h.1 hn (37 :: intBytes pairs.length ++ crlf) r
      have hhead := parseAs_numeral (n := pairs.length) "map length" "Invalid map length"
        (parseU64_toString (Nat.lt_trans hlt (by decide))) 37 ((serializePairs pairs).1 ++ r)
      rw [← List.append_assoc] at hhead
      simp only [parseKind, parseMap, hhead, Parsed.bind_done, hvec]
  | set elements, h => by
      have hall := readsBack_serializeAll elements h.2
      have hlt := lt_of_allocatable (by decide) h.1
      rw [serialize]
      refine .of_header '~' (b := 126) (by decide) (by decide) hall.1 fun n r hn => ?_
      have hvec := parseVec_of_readsBack hall h.1 hn (126 :: intBytes elements.length ++ crlf) r
      have hhead := parseAs_numeral (n := elements.length) "set length" "Invalid set length"
        (parseU64_toString (Nat.lt_trans hlt (by decide))) 126 ((serializeAll elements).1 ++ r)
      rw [← List.append_assoc] at hhead
      simp only [parseKind, parseSet, hhead, Parsed.bind_done, hvec]

theorem readsBack_serializeAll : ∀ fs : List RespFrame, EverywhereAll Legible fs →
    ReadsBack (fun n => parseMany (parseDepth n) fs.length) (serializeAll fs) fs
  | [], _ => readsBack_nil
  | f :: fs, h => (readsBack_serialize f h.1).cons (readsBack_serializeAll fs h.2)

theorem readsBack_serializePairs : ∀ ps : List (RespFrame × RespFrame), EverywherePairs Legible ps →
    ReadsBack (fun n => parseMany (parsePair (parseDepth n)) ps.length) (serializePairs ps) ps
  | [], _ => readsBack_nil
  | (k, v) :: ps, h => by
      have hk := readsBack_serialize k h.1
      have hv := readsBack_serialize v h.2.1
      have hall := (hk.pair hv).cons (readsBack_serializePairs ps h.2.2)
      rw [andThen_assoc hk.1] at hall
      exact hall

end

/-- Every frame without the marker and without floating-point numbers, whose
lines hold no line end, is serialised, and parsing the bytes gives the frame
back and takes exactly them, whatever follows. -/
theorem parseFrame_serialize (f : RespFrame) (h : f.Wire) (r : Bytes) :
    f.serialize.2 = true ∧ parseFrame (f.serialize.1 ++ r) = .done f f.serialize.1.length := by
  have hback := readsBack_serialize f h.legible
  refine ⟨hback.1, hback.2 _ r ?_⟩
  rw [List.length_append]
  omega

/-- A nested frame with a bulk string that ends a line in its middle. -/
def nestedFrame : RespFrame :=
  list [fromString "a\r\nb", map [(integer (-7), set [null, nullBulk])], nullArray]

/-- It is read back in front of the start of another frame. -/
theorem parseFrame_serialize_nested :
    nestedFrame.serialize.2 = true ∧
    parseFrame (nestedFrame.serialize.1 ++ "*1\r\n".toBytes) =
      .done nestedFrame nestedFrame.serialize.1.length := by
  have hmap : Wire (map [(integer (-7), set [null, nullBulk])]) :=
    ⟨by decide, by exact ⟨by decide, by decide⟩, ⟨by decide, trivial, trivial, trivial⟩, trivial⟩
  have hwire : nestedFrame.Wire := ⟨by decide, by exact (by decide : allocatable 1 4 = true), hmap,
    trivial, trivial⟩
  exact parseFrame_serialize nestedFrame hwire "*1\r\n".toBytes

end RespFrame

end Ferrous
