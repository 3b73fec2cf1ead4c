/-
# `Protocol.Checked` — the parser with its indices, sums and slices

`parse_frame` as the machine runs it: every index and slice is inside the bytes or
panics, and so does a sum past 64 bits, a vector past `isize::MAX` bytes, and a recursion
deeper than the bytes.  On a slice, which holds fewer than `2^63` bytes, this is the
parser of `Protocol.Parser`, but for a bulk string whose header alone fills the address
space (`checked_eq`).
-/
import Ferrous.Protocol.Feed

namespace Ferrous

open Lib

/-- Go on with the value of a machine operation, or panic where it has none. -/
def Parsed.checked {α β : Type} (o : Option β) (f : β → Parsed α) : Parsed α :=
  match o with
  | some b => f b
  | none => .panic

@[simp] theorem Parsed.checked_some {α β : Type} (b : β) (f : β → Parsed α) :
    Parsed.checked (some b) f = f b := rfl

namespace RespFrame

namespace Checked

open Parsed (checked)

/-! ## Machine operations -/

/-- `a + b` in a `usize`. -/
def addUsize (a b : Nat) : Option Nat := if a + b < 2 ^ 64 then some (a + b) else none

/-- `a - b` in a `usize`. -/
def subUsize (a b : Nat) : Option Nat := if b ≤ a then some (a - b) else none

/-- `&data[start..stop]`. -/
def slice (data : Bytes) (start stop : Nat) : Option Bytes :=
  if start ≤ stop ∧ stop ≤ data.length then some ((data.drop start).take (stop - start)) else none

/-! ## The parser -/

/-- The loop of `parse_line`, with the indices it has left. -/
def lineLoop (data : Bytes) (skip : Nat) : Nat → Nat → Parsed Bytes
  | 0, _ => .more
  | n + 1, i =>
      checked data[i]? fun b =>
        -- the second byte is only looked at behind a carriage return
        if b = 13 then
          checked (addUsize i 1) fun j =>
            checked data[j]? fun b' =>
              if b' = 10 then
                checked (slice data skip i) fun line => checked (addUsize i 2) fun consumed => .done line consumed
              else lineLoop data skip n (i + 1)
        else lineLoop data skip n (i + 1)

/-- `parse_line`. -/
def parseLine (data : Bytes) (skip : Nat) : Parsed Bytes :=
  checked (addUsize skip 2) fun least =>
    if data.length < least then .more
    else checked (subUsize data.length 1) fun stop => lineLoop data skip (stop - skip) skip

/-- A line that is read as something. -/
def parseAs {α : Type} (read : String → Option α) (word complaint : String) (data : Bytes) : Parsed α :=
  (parseLine data 1).bind fun line consumed =>
    match fromUtf8 line with
    | none => bad ("Invalid UTF-8 in " ++ word)
    | some s =>
        match read s with
        | none => bad complaint
        | some a => .done a consumed

/-- `parse_bulk_string`. -/
def parseBulkString (data : Bytes) : Parsed RespFrame :=
  (parseAs parseI64 "bulk length" "Invalid bulk string length" data).bind fun len header =>
    if len = -1 then .done nullBulk header
    else if len < 0 then bad "Invalid negative bulk string length"
    else
      checked (addUsize header len.toNat) fun stop =>
        checked (addUsize stop 2) fun total =>
          if data.length < total then .more
          else
            checked data[stop]? fun b =>
              if b ≠ 13 then bad "Missing CRLF after bulk string"
              else
                checked (addUsize stop 1) fun next =>
                  checked data[next]? fun b' =>
                    if b' ≠ 10 then bad "Missing CRLF after bulk string"
                    else checked (slice data header stop) fun content => .done (fromBytes content) total

/-- `parse_null`. -/
def parseNull (data : Bytes) : Parsed RespFrame :=
  if data.length < 3 then .more
  else
    checked data[1]? fun b =>
      if b ≠ 13 then bad "Invalid null format"
      else checked data[2]? fun b' => if b' = 10 then .done null 3 else bad "Invalid null format"

/-- `parse_boolean`. -/
def parseBoolean (data : Bytes) : Parsed RespFrame :=
  if data.length < 4 then .more
  else
    checked data[1]? fun x => checked data[2]? fun y => checked data[3]? fun z =>
      if x = 116 ∧ y = 13 ∧ z = 10 then .done (boolean true) 4
      else if x = 102 ∧ y = 13 ∧ z = 10 then .done (boolean false) 4
      else bad "Invalid boolean format"

/-- The next element, and the position behind it. -/
def frameAt (item : Bytes → Parsed RespFrame) (data : Bytes) (total : Nat) : Parsed RespFrame :=
  checked (slice data total data.length) fun rest =>
    (item rest).bind fun frame consumed => checked (addUsize total consumed) fun total => .done frame total

/-- The next key and value, and the position behind them. -/
def pairAt (item : Bytes → Parsed RespFrame) (data : Bytes) (total : Nat) : Parsed (RespFrame × RespFrame) :=
  (frameAt item data total).bind fun key total =>
    (frameAt item data total).bind fun value total => .done (key, value) total

/-- The loop over the elements of an aggregate. -/
def elements {α : Type} (read : Nat → Parsed α) : Nat → Nat → Parsed (List α)
  | 0, total => .done [] total
  | n + 1, total =>
      (read total).bind fun a total => (elements read n total).bind fun as total => .done (a :: as) total

/-- `Vec::with_capacity` of the declared length, then the loop. -/
def collect {α : Type} (size : Nat) (read : Nat → Parsed α) (len header : Nat) : Parsed (List α) :=
  if allocatable size len then elements read len header else .panic

/-- `parse_array`. -/
def parseArray (item : Bytes → Parsed RespFrame) (data : Bytes) : Parsed RespFrame :=
  (parseAs parseI64 "array length" "Invalid array length" data).bind fun len header =>
    if len = -1 then .done nullArray header
    else if len < 0 then bad "Invalid negative array length"
    else (collect frameSize (frameAt item data) len.toNat header).bind fun fs consumed =>
      .done (array (some fs)) consumed

/-- `parse_map`. -/
def parseMap (item : Bytes → Parsed RespFrame) (data : Bytes) : Parsed RespFrame :=
  (parseAs parseU64 "map length" "Invalid map length" data).bind fun len header =>
    (collect (2 * frameSize) (pairAt item data) len header).bind fun ps consumed => .done (map ps) consumed

/-- `parse_set`. -/
def parseSet (item : Bytes → Parsed RespFrame) (data : Bytes) : Parsed RespFrame :=
  (parseAs parseU64 "set length" "Invalid set length" data).bind fun len header =>
    (collect frameSize (frameAt item data) len header).bind fun fs consumed => .done (set fs) consumed

/-- The `match` of `parse_frame`, given the parser of elements. -/
def parseKind (tag : Char) (item : Bytes → Parsed RespFrame) (data : Bytes) : Parsed RespFrame :=
  match tag with
  | '+' => (parseLine data 1).bind fun line consumed => .done (simpleString line) consumed
  | '-' => (parseLine data 1).bind fun line consumed => .done (error line) consumed
  | ':' => (parseAs parseI64 "integer" "Invalid integer format" data).bind fun n consumed =>
      .done (integer n) consumed
  | '$' => parseBulkString data
  | '*' => parseArray item data
  | '_' => parseNull data
  | '#' => parseBoolean data
  | ',' => (parseAs Float64.parse "double" "Invalid double format" data).bind fun x consumed =>
      .done (double x) consumed
  | '%' => parseMap item data
  | '~' => parseSet item data
  | c => bad ("Invalid RESP type byte: " ++ String.singleton c)

/-- `parse_frame`, to a depth; going deeper counts as a panic. -/
def parseDepth : Nat → Bytes → Parsed RespFrame
  | _, [] => .more
  | 0, _ :: _ => .panic
  | n + 1, b :: bs => parseKind (Char.ofNat b.toNat) (parseDepth n) (b :: bs)

/-- `parse_frame`. -/
def parseFrame (data : Bytes) : Parsed RespFrame := parseDepth data.length data

/-! ## Where nothing is checked in vain -/

theorem addUsize_of_lt {a b : Nat} (h : a + b < 2 ^ 64) : addUsize a b = some (a + b) := if_pos h

theorem slice_of_le {data : Bytes} {start stop : Nat} (h : start ≤ stop) (hstop : stop ≤ data.length) :
    slice data start stop = some ((data.drop start).take (stop - start)) := if_pos ⟨h, hstop⟩

theorem slice_rest {data : Bytes} {start : Nat} (h : start ≤ data.length) :
    slice data start data.length = some (data.drop start) := by
  rw [slice_of_le h (Nat.le_refl _), ← List.length_drop, List.take_length]

/-- The loop looks for the line end that `findCrlf` finds. -/
theorem lineLoop_eq {data : Bytes} (hdata : data.length < 2 ^ 63) (n i : Nat) (hi : 1 ≤ i)
    (hn : i + n + 1 = data.length) :
    lineLoop data 1 n i =
      match findCrlf (data.drop i) with
      | some k => .done ((data.drop 1).take (i - 1 + k)) (i + k + 2)
      | none => .more := by
  induction n generalizing i with
  | zero =>
      obtain ⟨b, hb⟩ : ∃ b, data.drop i = [b] := by
        refine List.length_eq_one_iff.mp ?_
        rw [List.length_drop]
        omega
      rw [hb, lineLoop]
      simp [findCrlf]
  | succ n ih =>
      have hlt : i < data.length := by omega
      have hlt' : i + 1 < data.length := by omega
      have hdrop : data.drop i = data[i] :: data.drop (i + 1) := List.drop_eq_getElem_cons hlt
      have hdrop' : data.drop (i + 1) = data[i + 1] :: data.drop (i + 2) := List.drop_eq_getElem_cons hlt'
      have hnext := ih (i + 1) (by omega) (by omega)
      have hgo : lineLoop data 1 n (i + 1) =
          match (findCrlf (data.drop (i + 1))).map (· + 1) with
          | some k => .done ((data.drop 1).take (i - 1 + k)) (i + k + 2)
          | none => .more := by
        rw [hnext]
        cases findCrlf (data.drop (i + 1)) with
        | none => rfl
        | some k =>
            have hk : i + 1 - 1 + k = i - 1 + (k + 1) := by omega
            have hc : i + 1 + k + 2 = i + (k + 1) + 2 := by omega
            simp only [Option.map_some, hk, hc]
      rw [lineLoop, List.getElem?_eq_getElem hlt, Parsed.checked_some, addUsize_of_lt (by omega),
        Parsed.checked_some, List.getElem?_eq_getElem hlt', Parsed.checked_some, hdrop, findCrlf, hdrop',
        List.head?_cons, ← hdrop']
      by_cases h : data[i] = 13
      · rw [if_pos h]
        by_cases h' : data[i + 1] = 10
        · rw [if_pos h', if_pos ⟨h, by rw [h']⟩, slice_of_le hi (by omega), Parsed.checked_some,
            addUsize_of_lt (by omega), Parsed.checked_some]
          rfl
        · rw [if_neg h', if_neg fun hb => h' (Option.some.inj hb.2), hgo]
      · rw [if_neg h, if_neg fun hb => h hb.1, hgo]

theorem parseLine_eq {data : Bytes} (hdata : data.length < 2 ^ 63) : parseLine data 1 = RespFrame.parseLine data := by
  unfold parseLine RespFrame.parseLine
  rw [addUsize_of_lt (by decide), Parsed.checked_some]
  split
  · next h =>
      -- too short for a line end
      have hnone : findCrlf (data.drop 1) = none := by
        match data, h with
        | [], _ => rfl
        | [_], _ => rfl
        | [_, b], _ => simp [findCrlf]
      rw [hnone]
  · next h =>
      have hsub : subUsize data.length 1 = some (data.length - 1) := if_pos (by omega)
      rw [hsub, Parsed.checked_some, lineLoop_eq hdata _ 1 (Nat.le_refl 1) (by omega)]
      cases findCrlf (data.drop 1) with
      | none => rfl
      | some k =>
          have hk : 1 - 1 + k = k := by omega
          simp only [hk]

theorem parseAs_eq {α : Type} {data : Bytes} (hdata : data.length < 2 ^ 63) (read : String → Option α)
    (word complaint : String) : parseAs read word complaint data = RespFrame.parseAs read word complaint data := by
  unfold parseAs RespFrame.parseAs
  rewrite [parseLine_eq hdata]
  rfl

/-- The length of a bulk string, with its header and its line end, is within 64 bits. -/
def BulkFits (data : Bytes) : Prop :=
  ∀ len header, RespFrame.parseAs parseI64 "bulk length" "Invalid bulk string length" data = .done len header →
    0 ≤ len → header + len.toNat + 2 < 2 ^ 64

theorem parseBulkString_eq {data : Bytes} (hdata : data.length < 2 ^ 63) (h : BulkFits data) :
    parseBulkString data = RespFrame.parseBulkString data := by
  unfold parseBulkString RespFrame.parseBulkString
  rw [parseAs_eq hdata]
  cases hp : RespFrame.parseAs parseI64 "bulk length" "Invalid bulk string length" data with
  | done len header =>
      rw [Parsed.bind_done, Parsed.bind_done]
      by_cases hnull : len = -1
      · rw [if_pos hnull, if_pos hnull]
      · rw [if_neg hnull, if_neg hnull]
        by_cases hneg : len < 0
        · rw [if_pos hneg, if_pos hneg]
        · rw [if_neg hneg, if_neg hneg]
          have hfits := h len header hp (by omega)
          dsimp only
          generalize len.toNat = n at hfits
          rw [addUsize_of_lt (by omega), Parsed.checked_some, addUsize_of_lt hfits, Parsed.checked_some]
          by_cases hmore : data.length < header + n + 2
          · rw [if_pos hmore, if_pos hmore]
          · rw [if_neg hmore, if_neg hmore]
            have hlt : header + n < data.length := by omega
            have hlt' : header + n + 1 < data.length := by omega
            have htwo : (data.drop (header + n)).take 2 = [data[header + n], data[header + n + 1]] := by
              rw [List.drop_eq_getElem_cons hlt, List.drop_eq_getElem_cons hlt']
              rfl
            rw [htwo, List.getElem?_eq_getElem hlt, Parsed.checked_some]
            by_cases hb : data[header + n] = 13
            · rw [if_neg (not_not_intro hb), addUsize_of_lt (by omega), Parsed.checked_some,
                List.getElem?_eq_getElem hlt', Parsed.checked_some, hb]
              by_cases hb' : data[header + n + 1] = 10
              · have hend : ¬ [(13 : UInt8), 10] ≠ crlf := not_not_intro rfl
                rw [if_neg (not_not_intro hb'), hb', if_neg hend, slice_of_le (by omega) (by omega),
                  Parsed.checked_some, Nat.add_sub_cancel_left]
              · rw [if_pos hb', if_pos]
                intro heq
                exact hb' (by simpa [crlf] using heq)
            · rw [if_pos hb, if_pos]
              intro heq
              exact hb (List.cons.inj heq).1
  | _ => rfl

theorem parseBulkString_panic {data : Bytes} (hdata : data.length < 2 ^ 63) (h : ¬ BulkFits data) :
    parseBulkString data = .panic := by
  unfold BulkFits at h
  push Not at h
  obtain ⟨len, header, hp, hpos, hover⟩ := h
  unfold parseBulkString
  rw [parseAs_eq hdata, hp, Parsed.bind_done, if_neg (by omega), if_neg (by omega)]
  by_cases hfirst : header + len.toNat < 2 ^ 64
  · have hsecond : addUsize (header + len.toNat) 2 = none := if_neg (by omega)
    rw [addUsize_of_lt hfirst, Parsed.checked_some, hsecond]
    rfl
  · have hnone : addUsize header len.toNat = none := if_neg hfirst
    rw [hnone]
    rfl

theorem parseNull_eq (data : Bytes) : parseNull data = RespFrame.parseNull data := by
  unfold parseNull RespFrame.parseNull
  match data with
  | [] => rfl
  | [_] => rfl
  | [_, _] => rfl
  | _ :: b :: b' :: rest =>
      by_cases hb : b = 13
      · by_cases hb' : b' = 10 <;> simp [hb, hb', crlf]
      · simp [hb, crlf]

theorem parseBoolean_eq (data : Bytes) : parseBoolean data = RespFrame.parseBoolean data := by
  have htrue : "t\r\n".toBytes = [116, 13, 10] := by decide
  have hfalse : "f\r\n".toBytes = [102, 13, 10] := by decide
  unfold parseBoolean RespFrame.parseBoolean
  rw [htrue, hfalse]
  match data with
  | [] => rfl
  | [_] => rfl
  | [_, _] => rfl
  | [_, _, _] => rfl
  | _ :: x :: y :: z :: rest => simp

/-! ### Aggregates -/

section Aggregates

variable {data : Bytes}

/-- Reading at a position is reading the bytes from there on. -/
def ReadsAt {α : Type} (data : Bytes) (header : Nat) (read : Nat → Parsed α) (g : Bytes → Parsed α) : Prop :=
  ∀ total, header ≤ total → total ≤ data.length →
    read total = (g (data.drop total)).bind fun a consumed => .done a (total + consumed)

/-- What is parsed lies in the bytes. -/
def Within {α : Type} (g : Bytes → Parsed α) : Prop :=
  ∀ rest a consumed, g rest = .done a consumed → consumed ≤ rest.length

theorem readsAt_frameAt (hdata : data.length < 2 ^ 63) {item g : Bytes → Parsed RespFrame} (hg : Within g)
    {header : Nat} (heq : ∀ total, header ≤ total → item (data.drop total) = g (data.drop total)) :
    ReadsAt data header (frameAt item data) g := by
  intro total hlo hhi
  unfold frameAt
  rw [slice_rest hhi, Parsed.checked_some, heq total hlo]
  cases hr : g (data.drop total) with
  | done f consumed =>
      have hle := hg _ _ _ hr
      rw [List.length_drop] at hle
      rw [Parsed.bind_done, Parsed.bind_done, addUsize_of_lt (by omega)]
      rfl
  | _ => rfl

theorem readsAt_pairAt {item g : Bytes → Parsed RespFrame} {header : Nat} (hg : Within g)
    (h : ReadsAt data header (frameAt item data) g) : ReadsAt data header (pairAt item data) (parsePair g) := by
  intro total hlo hhi
  unfold pairAt parsePair
  rw [h total hlo hhi]
  cases hk : g (data.drop total) with
  | done key consumed =>
      have hle := hg _ _ _ hk
      rw [List.length_drop] at hle
      simp only [Parsed.bind_done]
      rw [h (total + consumed) (by omega) (by omega), List.drop_drop]
      cases g (data.drop (total + consumed)) with
      | done value consumed' => simp only [Parsed.bind_done, Nat.add_assoc]
      | _ => rfl
  | _ => rfl

theorem readsAt_elements {α : Type} {read : Nat → Parsed α} {g : Bytes → Parsed α} {header : Nat}
    (h : ReadsAt data header read g) (hg : Within g) (n : Nat) :
    ReadsAt data header (elements read n) (parseMany g n) := by
  induction n with
  | zero =>
      intro total _ _
      rfl
  | succ n ih =>
      intro total hlo hhi
      rw [elements, parseMany, h total hlo hhi]
      cases hr : g (data.drop total) with
      | done a consumed =>
          have hle := hg _ _ _ hr
          rw [List.length_drop] at hle
          simp only [Parsed.bind_done]
          rw [ih (total + consumed) (by omega) (by omega), List.drop_drop]
          cases parseMany g n (data.drop (total + consumed)) with
          | done as consumed' => simp only [Parsed.bind_done, Nat.add_assoc]
          | _ => rfl
      | _ => rfl

theorem collect_eq {α : Type} {read : Nat → Parsed α} {g : Bytes → Parsed α} {header : Nat}
    (h : ReadsAt data header read g) (hg : Within g) (hheader : header ≤ data.length) (size len : Nat) :
    collect size read len header = parseVec size g len header data := by
  unfold collect parseVec
  rw [readsAt_elements h hg len header (Nat.le_refl _) hheader]

/-- The header of an aggregate takes a byte at least, and lies in the bytes. -/
theorem header_le {α : Type} {read : String → Option α} {word complaint : String} {a : α} {header : Nat}
    (h : RespFrame.parseAs read word complaint data = .done a header) : 1 ≤ header ∧ header ≤ data.length :=
  ⟨parseAs_pos h, ((settles_parseAs read word complaint).done data a header h).1⟩

theorem within_parseDepth (n : Nat) : Within (RespFrame.parseDepth n) := fun rest f consumed h =>
  ((settles_parseDepth (Nat.le_refl n)).done rest f consumed h).1

theorem within_parsePair (n : Nat) : Within (parsePair (RespFrame.parseDepth n)) := fun rest p consumed h =>
  ((settles_parsePair (settles_parseDepth (Nat.le_refl n))).done rest p consumed h).1

variable {item : Bytes → Parsed RespFrame} {n : Nat}

/-- The parser of elements, behind any header. -/
theorem readsAt_item (hdata : data.length < 2 ^ 63) (hne : data.length ≤ n + 1)
    (hitem : ∀ rest : Bytes, rest.length ≤ n → rest.length + 1 < 2 ^ 63 → item rest = RespFrame.parseDepth n rest)
    {header : Nat} (hheader : 1 ≤ header) : ReadsAt data header (frameAt item data) (RespFrame.parseDepth n) := by
  refine readsAt_frameAt hdata (within_parseDepth n) fun total htotal => hitem _ ?_ ?_
  · rw [List.length_drop]
    omega
  · rw [List.length_drop]
    omega

theorem parseKind_eq (tag : Char) (hdata : data.length < 2 ^ 63) (hne : data.length ≤ n + 1)
    (hitem : ∀ rest : Bytes, rest.length ≤ n → rest.length + 1 < 2 ^ 63 → item rest = RespFrame.parseDepth n rest)
    (hbulk : tag = '$' → BulkFits data) :
    parseKind tag item data = RespFrame.parseKind tag (RespFrame.parseDepth n) data := by
  unfold parseKind
  split
  · exact congrArg (Parsed.bind · _) (parseLine_eq hdata)
  · exact congrArg (Parsed.bind · _) (parseLine_eq hdata)
  · exact congrArg (Parsed.bind · _) (parseAs_eq hdata _ _ _)
  · exact parseBulkString_eq hdata (hbulk rfl)
  · change parseArray item data = RespFrame.parseArray (RespFrame.parseDepth n) data
    unfold parseArray RespFrame.parseArray
    rw [parseAs_eq hdata]
    cases hp : RespFrame.parseAs parseI64 "array length" "Invalid array length" data with
    | done len header =>
        have hheader := header_le hp
        rw [Parsed.bind_done, Parsed.bind_done,
          collect_eq (readsAt_item hdata hne hitem hheader.1) (within_parseDepth n) hheader.2]
    | _ => rfl
  · exact parseNull_eq data
  · exact parseBoolean_eq data
  · exact congrArg (Parsed.bind · _) (parseAs_eq hdata _ _ _)
  · change parseMap item data = RespFrame.parseMap (RespFrame.parseDepth n) data
    unfold parseMap RespFrame.parseMap
    rw [parseAs_eq hdata]
    cases hp : RespFrame.parseAs parseU64 "map length" "Invalid map length" data with
    | done len header =>
        have hheader := header_le hp
        rw [Parsed.bind_done, Parsed.bind_done,
          collect_eq (readsAt_pairAt (within_parseDepth n) (readsAt_item hdata hne hitem hheader.1))
            (within_parsePair n) hheader.2]
    | _ => rfl
  · change parseSet item data = RespFrame.parseSet (RespFrame.parseDepth n) data
    unfold parseSet RespFrame.parseSet
    rw [parseAs_eq hdata]
    cases hp : RespFrame.parseAs parseU64 "set length" "Invalid set length" data with
    | done len header =>
        have hheader := header_le hp
        rw [Parsed.bind_done, Parsed.bind_done,
          collect_eq (readsAt_item hdata hne hitem hheader.1) (within_parseDepth n) hheader.2]
    | _ => rfl
  · unfold RespFrame.parseKind
    split
    all_goals first | rfl | contradiction

end Aggregates

/-! ## The whole parser -/

/-- A slice that is not of the greatest length leaves room for every bulk string. -/
theorem bulkFits_of_lt {data : Bytes} (h : data.length + 1 < 2 ^ 63) : BulkFits data := by
  intro len header hp hpos
  have hheader := (header_le hp).2
  have hlen : len < 2 ^ 63 := by
    unfold RespFrame.parseAs at hp
    cases hl : RespFrame.parseLine data with
    | done line consumed =>
        rw [hl, Parsed.bind_done] at hp
        split at hp
        · cases hp
        · split at hp
          · cases hp
          · next hread =>
              cases hp
              exact (parseI64_range hread).2
    | _ => simp [hl] at hp
  omega

theorem parseDepth_eq (n : Nat) {data : Bytes} (hn : data.length ≤ n) (hdata : data.length + 1 < 2 ^ 63) :
    parseDepth n data = RespFrame.parseDepth n data := by
  induction n generalizing data with
  | zero =>
      obtain rfl := List.length_eq_zero_iff.mp (Nat.le_zero.mp hn)
      rfl
  | succ n ih =>
      cases data with
      | nil => rfl
      | cons b bs =>
          exact parseKind_eq _ (by omega) hn (fun rest hle hlt => ih hle hlt) fun _ => bulkFits_of_lt hdata

/-- A byte is known by its character. -/
theorem eq_of_charOfNat {b : UInt8} {c : Char} (h : Char.ofNat b.toNat = c) : b = UInt8.ofNat c.toNat := by
  have hvalid : b.toNat.isValidChar := .inl (Nat.lt_trans b.toNat_lt (by decide))
  rw [← h, Char.ofNat, dif_pos hvalid]
  exact (UInt8.ofNat_toNat).symm

/-- On a slice the machine runs the parser, but for a bulk string that does not fit. -/
theorem checked_eq {data : Bytes} (hdata : data.length < 2 ^ 63) (h : data.head? = some 36 → BulkFits data) :
    parseFrame data = RespFrame.parseFrame data := by
  unfold parseFrame RespFrame.parseFrame
  cases data with
  | nil => rfl
  | cons b bs =>
      rw [List.length_cons]
      refine parseKind_eq _ hdata (Nat.le_refl _) (fun rest hle hlt => parseDepth_eq _ hle hlt) fun htag => h ?_
      rw [List.head?_cons, eq_of_charOfNat htag]
      rfl

theorem checked_panic {data : Bytes} (hdata : data.length < 2 ^ 63) (hhead : data.head? = some 36)
    (h : ¬ BulkFits data) : parseFrame data = .panic := by
  cases data with
  | nil => cases hhead
  | cons b bs =>
      obtain rfl : b = 36 := Option.some.inj hhead
      exact parseBulkString_panic hdata h

end Checked

end RespFrame

end Ferrous
