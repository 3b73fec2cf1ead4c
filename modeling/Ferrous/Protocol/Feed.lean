/-
# `Protocol.Feed` — the parser of a connection

`RespParser` keeps the bytes that came and a position in them.  A parse skips
blanks, takes a bare `PING` or a frame, skips line ends, and drops the bytes in
front of the position once they are more than half.  What it delivers over a
connection depends on the bytes alone, not on the pieces they came in.
-/
import Ferrous.Lib.Incremental
import Ferrous.Protocol.Parser

namespace Ferrous

open Lib

/-! ## The parser -/

/-- `RespParser`. -/
structure RespParser where
  buffer : Bytes
  position : Nat

namespace RespParser

/-- `RespParser::new`. -/
def new : RespParser := ⟨[], 0⟩

/-- The bytes from the position on. -/
def unread (p : RespParser) : Bytes := p.buffer.drop p.position

/-- `feed`. -/
def feed (p : RespParser) (data : Bytes) : RespParser := { p with buffer := p.buffer ++ data }

/-- Move over the bytes that satisfy a test. -/
def skip (p : RespParser) (test : UInt8 → Bool) : RespParser :=
  { p with position := p.position + (p.unread.takeWhile test).length }

/-- What may stand in front of a frame. -/
def isBlank (b : UInt8) : Bool := b == 32 || b == 13 || b == 10 || b == 9

/-- What may stand behind a bare `PING`. -/
def isTrailing (b : UInt8) : Bool := b == 32 || b == 13 || b == 10

/-- What may stand behind a frame. -/
def isLineEnd (b : UInt8) : Bool := b == 13 || b == 10

/-- Drop what was read, once it is more than half. -/
def compact (p : RespParser) : RespParser :=
  if p.buffer.length / 2 < p.position then ⟨p.buffer.drop p.position, 0⟩ else p

/-- The frame a bare `PING` stands for. -/
def pingFrame : RespFrame := .list [.fromString "PING"]

/-- `parse`. -/
def parse (p : RespParser) : Outcome (Option RespFrame) × RespParser :=
  if p.buffer.length ≤ p.position then (.ok none, p)
  else
    let p := p.skip isBlank
    if p.buffer.length ≤ p.position then (.ok none, p)
    else if p.unread.take 4 = "PING".toBytes then
      (.ok (some pingFrame), { p with position := p.position + 4 }.skip isTrailing)
    else
      match RespFrame.parseFrame p.unread with
      | .done f consumed =>
          (.ok (some f), ({ p with position := p.position + consumed }.skip isLineEnd).compact)
      | .more => (.ok none, p)
      | .error e => (.err e, p)
      | .panic => (.panic, p)

/-- The loop of `process_connection`: parse until there is no frame or an error.
A frame takes a byte at least, so the number of rounds is bounded. -/
def parseAll : Nat → RespParser → List RespFrame × Bool × RespParser
  | 0, p => ([], false, p)
  | n + 1, p =>
      match p.parse with
      | (.ok (some f), p') => (f :: (parseAll n p').1, (parseAll n p').2)
      | (.ok none, p') => ([], false, p')
      | (.err _, p') => ([], false, p')
      | (.panic, p') => ([], true, p')

/-- The frames delivered over the pieces a connection reads, and whether the
parser panicked. -/
def deliver : RespParser → List Bytes → List RespFrame × Bool
  | _, [] => ([], false)
  | p, piece :: pieces =>
      let p := p.feed piece
      let (frames, panicked, p) := p.parseAll (p.buffer.length + 1)
      if panicked then (frames, true)
      else (frames ++ (deliver p pieces).1, (deliver p pieces).2)

end RespParser

/-! ## What is decided stays decided -/

namespace RespFrame

/-- What the first parser decides, the second decides in the same way when more
bytes follow. -/
structure Settles {α : Type} (p q : Bytes → Parsed α) : Prop where
  done : ∀ data a consumed, p data = .done a consumed →
    consumed ≤ data.length ∧ ∀ rest, q (data ++ rest) = .done a consumed
  panic : ∀ data, p data = .panic → ∀ rest, q (data ++ rest) = .panic

namespace Settles

variable {α β : Type} {p q : Bytes → Parsed α}

/-- Sequencing: what goes on behind a result must settle too. -/
theorem bind {f g : Bytes → α → Nat → Parsed β} (h : Settles p q)
    (hdone : ∀ data a c b c', c ≤ data.length → f data a c = .done b c' →
      c' ≤ data.length ∧ ∀ rest, g (data ++ rest) a c = .done b c')
    (hpanic : ∀ data a c, c ≤ data.length → f data a c = .panic →
      ∀ rest, g (data ++ rest) a c = .panic) :
    Settles (fun data => (p data).bind (f data)) (fun data => (q data).bind (g data)) where
  done data b c' hf := by
    cases hp : p data with
    | done a c =>
        obtain ⟨hle, hq⟩ := h.done data a c hp
        rw [hp, Parsed.bind_done] at hf
        obtain ⟨hle', hg⟩ := hdone data a c b c' hle hf
        exact ⟨hle', fun rest => by rw [hq rest, Parsed.bind_done, hg rest]⟩
    | more => simp [hp] at hf
    | error e => simp [hp] at hf
    | panic => simp [hp] at hf
  panic data hf rest := by
    cases hp : p data with
    | done a c =>
        obtain ⟨hle, hq⟩ := h.done data a c hp
        rw [hp, Parsed.bind_done] at hf
        rw [hq rest, Parsed.bind_done, hpanic data a c hle hf rest]
    | more => simp [hp] at hf
    | error e => simp [hp] at hf
    | panic => rw [h.panic data hp rest, Parsed.bind_panic]

/-- A result that is only renamed. -/
theorem map (h : Settles p q) (f : α → β) :
    Settles (fun data => (p data).bind fun a c => .done (f a) c)
      (fun data => (q data).bind fun a c => .done (f a) c) := by
  refine h.bind (f := fun _ a c => .done (f a) c) (g := fun _ a c => .done (f a) c) ?_ ?_
  · rintro data a c b c' hle ⟨⟩
    exact ⟨hle, fun _ => rfl⟩
  · exact nofun

/-- A complaint decides nothing. -/
theorem error (e : FerrousError) : Settles (fun _ => (.error e : Parsed α)) (fun _ => .error e) where
  done := by rintro _ _ _ ⟨⟩
  panic := by rintro _ ⟨⟩

/-- Behind a result, with the bytes it has left. -/
theorem andThen {r s : Bytes → Parsed β} (h : Settles r s) {data : Bytes} {c : Nat}
    (hle : c ≤ data.length) {b : β} {c' : Nat} (hr : r (data.drop c) = .done b c') :
    c + c' ≤ data.length ∧ ∀ rest, s ((data ++ rest).drop c) = .done b c' := by
  obtain ⟨hle', hs⟩ := h.done _ b c' hr
  rw [List.length_drop] at hle'
  refine ⟨by omega, fun rest => ?_⟩
  rw [List.drop_append_of_le_length hle, hs rest]

theorem panic_andThen {r s : Bytes → Parsed β} (h : Settles r s) {data : Bytes} {c : Nat}
    (hle : c ≤ data.length) (hr : r (data.drop c) = .panic) (rest : Bytes) :
    s ((data ++ rest).drop c) = .panic := by
  rw [List.drop_append_of_le_length hle, h.panic _ hr rest]

end Settles

theorem findCrlf_lt {data : Bytes} {i : Nat} (h : findCrlf data = some i) :
    i + 2 ≤ data.length ∧ ∀ rest, findCrlf (data ++ rest) = some i := by
  induction data generalizing i with
  | nil => simp [findCrlf] at h
  | cons b bs ih =>
      rw [findCrlf] at h
      split at h
      · next hb =>
          obtain ⟨c, cs, rfl⟩ : ∃ c cs, bs = c :: cs := by
            cases bs with
            | nil => simp at hb
            | cons c cs => exact ⟨c, cs, rfl⟩
          cases h
          refine ⟨by simp, fun rest => ?_⟩
          rw [List.cons_append, findCrlf, if_pos ⟨hb.1, hb.2⟩]
      · next hb =>
          obtain ⟨j, hj, rfl⟩ := Option.map_eq_some_iff.mp h
          obtain ⟨hle, hrest⟩ := ih hj
          refine ⟨by rw [List.length_cons]; omega, fun rest => ?_⟩
          have hne : ¬ (b = 13 ∧ (bs ++ rest).head? = some 10) := by
            cases bs with
            | nil => simp [findCrlf] at hj
            | cons c cs => exact hb
          rw [List.cons_append, findCrlf, if_neg hne, hrest rest]
          rfl

theorem settles_parseLine : Settles parseLine parseLine where
  done data line consumed h := by
    unfold parseLine at h
    split at h
    · next i hi =>
        obtain ⟨hle, hrest⟩ := findCrlf_lt hi
        cases h
        rw [List.length_drop] at hle
        have hone : 1 ≤ data.length := by omega
        refine ⟨by omega, fun rest => ?_⟩
        rw [parseLine, List.drop_append_of_le_length hone, hrest rest]
        simp only [Parsed.done.injEq, and_true]
        rw [List.take_append_of_le_length (by rw [List.length_drop]; omega)]
    · cases h
  panic data h := by
    unfold parseLine at h
    split at h <;> cases h

theorem settles_parseAs {α : Type} (read : String → Option α) (word complaint : String) :
    Settles (parseAs read word complaint) (parseAs read word complaint) := by
  refine settles_parseLine.bind ?_ ?_
  · intro data line c a c' hle h
    cases hs : fromUtf8 line with
    | none => simp [hs, bad] at h
    | some s =>
        cases ha : read s with
        | none => simp [hs, ha, bad] at h
        | some a' =>
            simp only [hs, ha, Parsed.done.injEq] at h
            obtain ⟨rfl, rfl⟩ := h
            exact ⟨hle, fun rest => by simp only [ha]⟩
  · intro data line c _ h
    cases hs : fromUtf8 line with
    | none => simp [hs, bad] at h
    | some s =>
        cases ha : read s with
        | none => simp [hs, ha, bad] at h
        | some a' => simp [hs, ha] at h

section Aggregates

variable {α : Type} {p q : Bytes → Parsed α}

theorem settles_parseMany (h : Settles p q) (n : Nat) : Settles (parseMany p n) (parseMany q n) := by
  induction n with
  | zero =>
      refine ⟨?_, nofun⟩
      rintro data a c ⟨⟩
      exact ⟨Nat.zero_le _, fun _ => rfl⟩
  | succ n ih =>
      refine h.bind (f := fun data a c => (parseMany p n (data.drop c)).bind fun as c' =>
        .done (a :: as) (c + c')) (g := fun data a c => (parseMany q n (data.drop c)).bind
          fun as c' => .done (a :: as) (c + c')) ?_ ?_
      · intro data a c as c' hle hf
        cases hm : parseMany p n (data.drop c) with
        | done as' k =>
            obtain ⟨hle', hq⟩ := ih.andThen hle hm
            simp only [hm, Parsed.bind_done, Parsed.done.injEq] at hf
            obtain ⟨rfl, rfl⟩ := hf
            exact ⟨hle', fun rest => by rw [hq rest, Parsed.bind_done]⟩
        | _ => simp [hm] at hf
      · intro data a c hle hf rest
        cases hm : parseMany p n (data.drop c) with
        | panic => rw [ih.panic_andThen hle hm rest, Parsed.bind_panic]
        | _ => simp [hm] at hf

theorem settles_parsePair (h : Settles p q) : Settles (parsePair p) (parsePair q) := by
  refine h.bind (f := fun data a c => (p (data.drop c)).bind fun b c' => .done (a, b) (c + c'))
    (g := fun data a c => (q (data.drop c)).bind fun b c' => .done (a, b) (c + c')) ?_ ?_
  · intro data a c ab c' hle hf
    cases hm : p (data.drop c) with
    | done b k =>
        obtain ⟨hle', hq⟩ := h.andThen hle hm
        simp only [hm, Parsed.bind_done, Parsed.done.injEq] at hf
        obtain ⟨rfl, rfl⟩ := hf
        exact ⟨hle', fun rest => by rw [hq rest, Parsed.bind_done]⟩
    | _ => simp [hm] at hf
  · intro data a c hle hf rest
    cases hm : p (data.drop c) with
    | panic => rw [h.panic_andThen hle hm rest, Parsed.bind_panic]
    | _ => simp [hm] at hf

/-- The vector behind a header that has been read. -/
theorem parseVec_settles {β : Type} (h : Settles p q) (f : List α → β) {size len header : Nat}
    {data : Bytes} (hle : header ≤ data.length) :
    (∀ b c, ((parseVec size p len header data).bind fun as c => .done (f as) c) = .done b c →
      c ≤ data.length ∧ ∀ rest,
        ((parseVec size q len header (data ++ rest)).bind fun as c => .done (f as) c) = .done b c) ∧
    (((parseVec size p len header data).bind fun as c => .done (f as) c) = .panic → ∀ rest,
      ((parseVec size q len header (data ++ rest)).bind fun as c => .done (f as) c) = .panic) := by
  unfold parseVec
  split
  · cases hm : parseMany p len (data.drop header) with
    | done as' k =>
        obtain ⟨hle', hq⟩ := (settles_parseMany h len).andThen hle hm
        refine ⟨?_, nofun⟩
        rintro as c ⟨⟩
        exact ⟨hle', fun rest => by simp only [hq rest, Parsed.bind_done]⟩
    | more => exact ⟨nofun, nofun⟩
    | error e => exact ⟨nofun, nofun⟩
    | panic =>
        refine ⟨nofun, fun _ rest => ?_⟩
        simp only [(settles_parseMany h len).panic_andThen hle hm rest, Parsed.bind_panic]
  · exact ⟨nofun, fun _ _ => rfl⟩

end Aggregates

theorem settles_parseBulkString : Settles parseBulkString parseBulkString := by
  refine (settles_parseAs _ _ _).bind ?_ ?_
  · intro data len header f c hle h
    split at h
    · next hnull =>
        cases h
        exact ⟨hle, fun rest => by rw [if_pos hnull]⟩
    · next hnull =>
        split at h
        · cases h
        · next hneg =>
            dsimp only at h ⊢
            split at h
            · cases h
            · next hlen =>
                have henough : header + len.toNat + 2 ≤ data.length := Nat.le_of_not_lt hlen
                split at h
                · cases h
                · next hend =>
                    cases h
                    refine ⟨henough, fun rest => ?_⟩
                    have hlen' : ¬ (data ++ rest).length < header + len.toNat + 2 := by
                      rw [List.length_append]
                      omega
                    have htwo : 2 ≤ (data.drop (header + len.toNat)).length := by
                      rw [List.length_drop]
                      omega
                    have hbody : len.toNat ≤ (data.drop header).length := by
                      rw [List.length_drop]
                      omega
                    rw [if_neg hnull, if_neg hneg, if_neg hlen',
                      List.drop_append_of_le_length (by omega),
                      List.take_append_of_le_length htwo, if_neg hend,
                      List.drop_append_of_le_length (by omega),
                      List.take_append_of_le_length hbody]
  · intro data len header _ h
    dsimp only at h
    repeat' split at h
    all_goals cases h

/-- A frame of a fixed form needs only its first bytes. -/
theorem settles_prefix {p : Bytes → Parsed RespFrame} (n : Nat)
    (hmore : ∀ data, data.length < n → p data = .more)
    (hpre : ∀ data rest, n ≤ data.length → p (data ++ rest) = p data)
    (hdone : ∀ data f c, p data = .done f c → c = n) : Settles p p where
  done data f c h := by
    by_cases hlt : data.length < n
    · rw [hmore data hlt] at h
      cases h
    · have hc := hdone data f c h
      exact ⟨by omega, fun rest => by rw [hpre data rest (by omega), h]⟩
  panic data h rest := by
    by_cases hlt : data.length < n
    · rw [hmore data hlt] at h
      cases h
    · rw [hpre data rest (by omega), h]

theorem take_drop_append {data : Bytes} {i n : Nat} (h : i + n ≤ data.length) (rest : Bytes) :
    ((data ++ rest).drop i).take n = (data.drop i).take n := by
  rw [List.drop_append_of_le_length (by omega),
    List.take_append_of_le_length (by rw [List.length_drop]; omega)]

/-- Three bytes decide. -/
theorem parseNull_append {data : Bytes} (h : 3 ≤ data.length) (rest : Bytes) :
    parseNull (data ++ rest) = parseNull data := by
  have hlt : ¬ data.length < 3 := by omega
  have hlt' : ¬ (data ++ rest).length < 3 := by
    rw [List.length_append]
    omega
  rw [parseNull, parseNull, if_neg hlt, if_neg hlt', take_drop_append (by omega)]

theorem settles_parseNull : Settles parseNull parseNull := by
  refine settles_prefix 3 ?_ ?_ ?_
  · intro data h
    rw [parseNull, if_pos h]
  · exact fun data rest h => parseNull_append h rest
  · intro data f c h
    unfold parseNull at h
    repeat' split at h
    all_goals cases h
    rfl

/-- Four bytes decide. -/
theorem parseBoolean_append {data : Bytes} (h : 4 ≤ data.length) (rest : Bytes) :
    parseBoolean (data ++ rest) = parseBoolean data := by
  have hlt : ¬ data.length < 4 := by omega
  have hlt' : ¬ (data ++ rest).length < 4 := by
    rw [List.length_append]
    omega
  rw [parseBoolean, parseBoolean, if_neg hlt, if_neg hlt', take_drop_append (by omega)]

theorem settles_parseBoolean : Settles parseBoolean parseBoolean := by
  refine settles_prefix 4 ?_ ?_ ?_
  · intro data h
    rw [parseBoolean, if_pos h]
  · exact fun data rest h => parseBoolean_append h rest
  · intro data f c h
    unfold parseBoolean at h
    repeat' split at h
    all_goals cases h
    all_goals rfl

section Frames

variable {p q : Bytes → Parsed RespFrame}

theorem settles_parseArray (h : Settles p q) : Settles (parseArray p) (parseArray q) := by
  refine (settles_parseAs _ _ _).bind ?_ ?_
  · intro data len header f c hle hf
    split at hf
    · next hnull =>
        cases hf
        exact ⟨hle, fun rest => by rw [if_pos hnull]⟩
    · next hnull =>
        split at hf
        · cases hf
        · next hneg =>
            obtain ⟨hle', hq⟩ := (parseVec_settles h _ hle).1 f c hf
            exact ⟨hle', fun rest => by rw [if_neg hnull, if_neg hneg, hq rest]⟩
  · intro data len header hle hf rest
    split at hf
    · cases hf
    · next hnull =>
        split at hf
        · cases hf
        · next hneg => rw [if_neg hnull, if_neg hneg, (parseVec_settles h _ hle).2 hf rest]

/-- A map or a set, behind its header. -/
theorem settles_aggregate {α : Type} {r s : Bytes → Parsed α} (h : Settles r s) (size : Nat)
    (word complaint : String) (f : List α → RespFrame) :
    Settles (fun data => (parseAs parseU64 word complaint data).bind fun len header =>
        (parseVec size r len header data).bind fun as c => .done (f as) c)
      (fun data => (parseAs parseU64 word complaint data).bind fun len header =>
        (parseVec size s len header data).bind fun as c => .done (f as) c) := by
  refine (settles_parseAs _ _ _).bind
    (f := fun data len header => (parseVec size r len header data).bind fun as c => .done (f as) c)
    (g := fun data len header => (parseVec size s len header data).bind fun as c => .done (f as) c)
    ?_ ?_
  · intro data len header b c hle hf
    exact (parseVec_settles h f hle).1 b c hf
  · intro data len header hle hf
    exact (parseVec_settles h f hle).2 hf

theorem settles_parseMap (h : Settles p q) : Settles (parseMap p) (parseMap q) :=
  settles_aggregate (settles_parsePair h) _ _ _ _

theorem settles_parseSet (h : Settles p q) : Settles (parseSet p) (parseSet q) :=
  settles_aggregate h _ _ _ _

theorem settles_parseKind (tag : Char) (h : Settles p q) :
    Settles (parseKind tag p) (parseKind tag q) := by
  unfold parseKind
  split
  · exact settles_parseLine.map simpleString
  · exact settles_parseLine.map error
  · exact (settles_parseAs _ _ _).map integer
  · exact settles_parseBulkString
  · exact settles_parseArray h
  · exact settles_parseNull
  · exact settles_parseBoolean
  · exact (settles_parseAs _ _ _).map double
  · exact settles_parseMap h
  · exact settles_parseSet h
  · exact .error _

end Frames

/-- What is decided at a depth is decided at every greater one. -/
theorem settles_parseDepth {n m : Nat} (h : n ≤ m) : Settles (parseDepth n) (parseDepth m) := by
  induction n generalizing m with
  | zero => exact ⟨nofun, nofun⟩
  | succ n ih =>
      obtain ⟨m, rfl⟩ : ∃ k, m = k + 1 := ⟨m - 1, by omega⟩
      have hitem : Settles (parseDepth n) (parseDepth m) := ih (by omega)
      constructor
      · intro data f c hf
        cases data with
        | nil => cases hf
        | cons b bs => exact (settles_parseKind _ hitem).done _ f c hf
      · intro data hf rest
        cases data with
        | nil => cases hf
        | cons b bs => exact (settles_parseKind _ hitem).panic _ hf rest

theorem settles_parseFrame : Settles parseFrame parseFrame := by
  constructor
  · intro data f c h
    obtain ⟨hle, -⟩ := (settles_parseDepth (Nat.le_refl data.length)).done data f c h
    refine ⟨hle, fun rest => ?_⟩
    have hdepth : data.length ≤ (data ++ rest).length := by
      rw [List.length_append]
      omega
    exact ((settles_parseDepth hdepth).done data f c h).2 rest
  · intro data h rest
    have hdepth : data.length ≤ (data ++ rest).length := by
      rw [List.length_append]
      omega
    exact (settles_parseDepth hdepth).panic data h rest

/-! ### A frame takes bytes -/

theorem parseLine_pos {data line : Bytes} {c : Nat} (h : parseLine data = .done line c) : 0 < c := by
  unfold parseLine at h
  split at h
  · cases h
    omega
  · cases h

theorem bind_pos {α β : Type} {r : Parsed α} {f : α → Nat → Parsed β}
    (hr : ∀ a c, r = .done a c → 0 < c) (hf : ∀ a c b c', f a c = .done b c' → c ≤ c') {b : β} {c : Nat}
    (h : r.bind f = .done b c) : 0 < c := by
  cases hp : r with
  | done a k =>
      rw [hp, Parsed.bind_done] at h
      exact Nat.lt_of_lt_of_le (hr a k hp) (hf a k b c h)
  | _ => simp [hp] at h

theorem parseAs_pos {α : Type} {read : String → Option α} {word complaint : String} {data : Bytes} {a : α}
    {c : Nat} (h : parseAs read word complaint data = .done a c) : 0 < c := by
  refine bind_pos (fun _ _ => parseLine_pos) ?_ h
  intro line k a' k' hk
  split at hk
  · cases hk
  · split at hk
    · cases hk
    · cases hk
      exact Nat.le_refl _

theorem parseVec_le {α β : Type} {item : Bytes → Parsed α} {size len header : Nat} {data : Bytes}
    {f : List α → β} {b : β} {c : Nat}
    (h : ((parseVec size item len header data).bind fun as c => .done (f as) c) = .done b c) :
    header ≤ c := by
  unfold parseVec at h
  split at h
  · cases hm : parseMany item len (data.drop header) with
    | done as k =>
        simp only [hm, Parsed.bind_done, Parsed.done.injEq] at h
        omega
    | _ => simp [hm] at h
  · simp at h

theorem parseFrame_pos {data : Bytes} {f : RespFrame} {c : Nat} (h : parseFrame data = .done f c) :
    0 < c := by
  have hsame : ∀ {α : Type} (g : α → RespFrame) (a : α) (k : Nat) (b : RespFrame) (k' : Nat),
      Parsed.done (g a) k = .done b k' → k ≤ k' := by
    rintro α g a k b k' ⟨⟩
    exact Nat.le_refl _
  unfold parseFrame at h
  cases data with
  | nil => cases h
  | cons b bs =>
      rw [List.length_cons, parseDepth] at h
      unfold parseKind at h
      split at h
      · exact bind_pos (fun _ _ => parseLine_pos) (hsame simpleString) h
      · exact bind_pos (fun _ _ => parseLine_pos) (hsame error) h
      · exact bind_pos (fun _ _ => parseAs_pos) (hsame integer) h
      · refine bind_pos (fun _ _ => parseAs_pos) ?_ h
        intro len header b' c' hc
        dsimp only at hc
        repeat' split at hc
        all_goals cases hc
        · exact Nat.le_refl _
        · omega
      · refine bind_pos (fun _ _ => parseAs_pos) ?_ h
        intro len header b' c' hc
        split at hc
        · cases hc
          exact Nat.le_refl _
        · split at hc
          · cases hc
          · exact parseVec_le hc
      · unfold parseNull at h
        repeat' split at h
        all_goals cases h
        decide
      · unfold parseBoolean at h
        repeat' split at h
        all_goals cases h
        all_goals decide
      · exact bind_pos (fun _ _ => parseAs_pos) (hsame double) h
      · exact bind_pos (fun _ _ => parseAs_pos) (fun _ _ _ _ => parseVec_le) h
      · exact bind_pos (fun _ _ => parseAs_pos) (fun _ _ _ _ => parseVec_le) h
      · cases h

/-- `P` starts no frame. -/
theorem parseFrame_P (bs : Bytes) : ∃ e, parseFrame (80 :: bs) = .error e := ⟨_, rfl⟩

end RespFrame

/-! ## Pieces do not matter -/

namespace RespParser

/-- What the unread bytes amount to: blanks, then a bare `PING` or a frame. -/
def decode (data : Bytes) : Decoded RespFrame UInt8 :=
  if (data.dropWhile isBlank).take 4 = "PING".toBytes then
    .item pingFrame ((data.dropWhile isBlank).drop 4)
  else
    match RespFrame.parseFrame (data.dropWhile isBlank) with
    | .done f consumed => .item f ((data.dropWhile isBlank).drop consumed)
    | .panic => .crash
    | _ => .wait

theorem take_ping {l : Bytes} (h : l.take 4 = "PING".toBytes) : ∃ r, l = 80 :: 73 :: 78 :: 71 :: r := by
  have hbytes : "PING".toBytes = [80, 73, 78, 71] := by decide
  refine ⟨l.drop 4, ?_⟩
  calc l = l.take 4 ++ l.drop 4 := (List.take_append_drop 4 l).symm
    _ = 80 :: 73 :: 78 :: 71 :: l.drop 4 := by rw [h, hbytes]; rfl

/-- Bytes that start a frame are no start of a bare `PING`. -/
theorem take_ne_ping {l : Bytes} (hl : ∀ e, RespFrame.parseFrame l ≠ .error e) (hne : l ≠ [])
    (more : Bytes) : (l ++ more).take 4 ≠ "PING".toBytes := by
  intro h
  obtain ⟨r, hr⟩ := take_ping h
  cases l with
  | nil => exact hne rfl
  | cons b bs =>
      obtain rfl : b = 80 := (List.cons.inj hr).1
      obtain ⟨e, he⟩ := RespFrame.parseFrame_P bs
      exact hl e he

theorem dropWhile_append_of_ne {l : Bytes} (h : l.dropWhile isBlank ≠ []) (more : Bytes) :
    (l ++ more).dropWhile isBlank = l.dropWhile isBlank ++ more := by
  rw [List.dropWhile_append]
  simp [h]

theorem steady_decode : Steady decode where
  shrinks l f rest h := by
    have hle : (l.dropWhile isBlank).length ≤ l.length := (List.dropWhile_sublist isBlank).length_le
    unfold decode at h
    split at h
    · next hping =>
        obtain ⟨r, hr⟩ := take_ping hping
        cases h
        rw [hr] at hle ⊢
        simp only [List.length_cons, List.drop_succ_cons, List.drop_zero] at hle ⊢
        omega
    · split at h
      · next c hf =>
          have hpos := RespFrame.parseFrame_pos hf
          have hc := (RespFrame.settles_parseFrame.done _ _ _ hf).1
          cases h
          rw [List.length_drop]
          omega
      · cases h
      · cases h
  item l f rest more h := by
    unfold decode at h
    split at h
    · next hping =>
        obtain ⟨r, hr⟩ := take_ping hping
        cases h
        rw [decode, dropWhile_append_of_ne (by rw [hr]; exact nofun), hr]
        have hbytes : "PING".toBytes = [80, 73, 78, 71] := by decide
        exact if_pos (hbytes ▸ rfl)
    · next hping =>
        split at h
        · next c hf =>
            obtain ⟨hc, hmore⟩ := RespFrame.settles_parseFrame.done _ _ _ hf
            have hne : l.dropWhile isBlank ≠ [] := by
              intro hnil
              rw [hnil] at hf
              cases hf
            have hping' := take_ne_ping (fun e he => by rw [he] at hf; cases hf) hne more
            cases h
            rw [decode, dropWhile_append_of_ne hne, if_neg hping', hmore more]
            simp only [List.drop_append_of_le_length hc]
        · cases h
        · cases h
  crash l more h := by
    unfold decode at h
    split at h
    · cases h
    · split at h
      · cases h
      · next hf =>
          have hne : l.dropWhile isBlank ≠ [] := by
            intro hnil
            rw [hnil] at hf
            cases hf
          have hping' := take_ne_ping (fun e he => by rw [he] at hf; cases hf) hne more
          rw [decode, dropWhile_append_of_ne hne, if_neg hping',
            RespFrame.settles_parseFrame.panic _ hf more]
      · cases h

/-! ### The buffer -/

/-- The position is inside the buffer. -/
def Inside (p : RespParser) : Prop := p.position ≤ p.buffer.length

/-- The same unread bytes, blanks in front of them aside. -/
def Same (a b : Bytes) : Prop := a.dropWhile isBlank = b.dropWhile isBlank

theorem drop_takeWhile_length (test : UInt8 → Bool) (l : Bytes) :
    l.drop (l.takeWhile test).length = l.dropWhile test := by
  have hsplit : l.takeWhile test ++ l.dropWhile test = l := List.takeWhile_append_dropWhile
  calc l.drop (l.takeWhile test).length
      = (l.takeWhile test ++ l.dropWhile test).drop (l.takeWhile test).length := by rw [hsplit]
    _ = l.dropWhile test := List.drop_left

theorem unread_skip (p : RespParser) (test : UInt8 → Bool) :
    (p.skip test).unread = p.unread.dropWhile test := by
  rw [← drop_takeWhile_length test p.unread, unread, unread, List.drop_drop]
  rfl

theorem inside_skip {p : RespParser} (h : p.Inside) (test : UInt8 → Bool) :
    (p.skip test).Inside := by
  have hle : (p.unread.takeWhile test).length ≤ p.unread.length :=
    (List.takeWhile_sublist test).length_le
  have hlen : p.unread.length = p.buffer.length - p.position := List.length_drop
  have hin : p.position ≤ p.buffer.length := h
  change p.position + (p.unread.takeWhile test).length ≤ p.buffer.length
  omega

theorem unread_compact (p : RespParser) : p.compact.unread = p.unread := by
  unfold compact
  split
  · rfl
  · rfl

theorem inside_compact {p : RespParser} (h : p.Inside) : p.compact.Inside := by
  unfold compact
  split
  · exact Nat.zero_le _
  · exact h

theorem unread_feed {p : RespParser} (h : p.Inside) (data : Bytes) :
    (p.feed data).unread = p.unread ++ data :=
  List.drop_append_of_le_length h

/-- Moving on inside the unread bytes. -/
theorem advance {p : RespParser} (h : p.Inside) {n : Nat} (hn : n ≤ p.unread.length) :
    ({ p with position := p.position + n } : RespParser).Inside ∧
    ({ p with position := p.position + n } : RespParser).unread = p.unread.drop n := by
  have hlen : p.unread.length = p.buffer.length - p.position := List.length_drop
  have hin : p.position ≤ p.buffer.length := h
  refine ⟨?_, ?_⟩
  · change p.position + n ≤ p.buffer.length
    omega
  · rw [unread, unread, List.drop_drop]

theorem same_append {a b : Bytes} (h : Same a b) (more : Bytes) : Same (a ++ more) (b ++ more) := by
  have h' : a.dropWhile isBlank = b.dropWhile isBlank := h
  rw [Same, List.dropWhile_append, List.dropWhile_append, h']

theorem decode_congr {a b : Bytes} (h : Same a b) : decode a = decode b := by
  have h' : a.dropWhile isBlank = b.dropWhile isBlank := h
  rw [decode, decode, h']

/-- Blanks of a smaller kind are blanks. -/
theorem same_dropWhile {test : UInt8 → Bool} (h : ∀ b, test b → isBlank b) (l : Bytes) :
    Same (l.dropWhile test) l := by
  unfold Same
  induction l with
  | nil => rfl
  | cons b bs ih =>
      by_cases hb : test b
      · rw [List.dropWhile_cons_of_pos hb, List.dropWhile_cons_of_pos (h b hb), ih]
      · rw [List.dropWhile_cons_of_neg hb]

/-- What a parse should do with what `decode` says of the unread bytes. -/
def Agrees (p : RespParser) (r : Outcome (Option RespFrame) × RespParser) :
    Decoded RespFrame UInt8 → Prop
  | .item f rest => r.1 = .ok (some f) ∧ Same r.2.unread rest
  | .wait => (r.1 = .ok none ∨ ∃ e, r.1 = .err e) ∧ Same r.2.unread p.unread
  | .crash => r.1 = .panic

theorem decode_nil_of {data : Bytes} (h : data.dropWhile isBlank = []) : decode data = .wait := by
  rw [decode, h]
  exact if_neg (by decide)

/-- One parse is one step of `decode`. -/
theorem parse_spec {p : RespParser} (h : p.Inside) :
    p.parse.2.Inside ∧ p.Agrees p.parse (decode p.unread) := by
  unfold parse
  split
  · next hend =>
      have hnil : p.unread = [] := List.drop_eq_nil_of_le hend
      rw [hnil, decode_nil_of rfl]
      exact ⟨h, .inl rfl, rfl⟩
  · have hin := inside_skip h isBlank
    have hun := unread_skip p isBlank
    have hsame : Same (p.skip isBlank).unread p.unread := by
      rw [hun]
      exact same_dropWhile (fun _ hb => hb) p.unread
    dsimp only
    split
    · next hend =>
        have hnil : (p.skip isBlank).unread = [] := List.drop_eq_nil_of_le hend
        rw [decode_nil_of (by rw [← hun, hnil])]
        exact ⟨hin, .inl rfl, hsame⟩
    · unfold decode
      rw [← hun]
      split
      · next hping =>
          obtain ⟨r, hr⟩ := take_ping hping
          obtain ⟨hin', hun'⟩ := advance hin (n := 4) (by rw [hr]; simp)
          refine ⟨inside_skip hin' _, rfl, ?_⟩
          rw [unread_skip, hun']
          refine same_dropWhile (fun b hb => ?_) _
          simp only [isTrailing, isBlank, Bool.or_eq_true] at hb ⊢
          exact .inl hb
      · cases hf : RespFrame.parseFrame (p.skip isBlank).unread with
        | done f c =>
            obtain ⟨hin', hun'⟩ := advance hin (RespFrame.settles_parseFrame.done _ _ _ hf).1
            refine ⟨inside_compact (inside_skip hin' _), rfl, ?_⟩
            rw [unread_compact, unread_skip, hun']
            refine same_dropWhile (fun b hb => ?_) _
            simp only [isLineEnd, isBlank, Bool.or_eq_true] at hb ⊢
            exact .inl (hb.elim (fun h13 => .inl (.inr h13)) .inr)
        | more => exact ⟨hin, .inl rfl, hsame⟩
        | error e => exact ⟨hin, .inr ⟨e, rfl⟩, hsame⟩
        | panic => exact ⟨hin, rfl⟩

/-- The rounds of the loop are the rounds of `exhaust`. -/
theorem parseAll_spec {n : Nat} {p : RespParser} {l : Bytes} (h : p.Inside) (hl : Same p.unread l) :
    (p.parseAll n).1 = (exhaust decode n l).items ∧
    (p.parseAll n).2.1 = (exhaust decode n l).crashed ∧
    (p.parseAll n).2.2.Inside ∧
    ((exhaust decode n l).crashed = false →
      Same (p.parseAll n).2.2.unread (exhaust decode n l).rest) := by
  induction n generalizing p l with
  | zero => exact ⟨rfl, rfl, h, fun _ => hl⟩
  | succ n ih =>
      obtain ⟨hin, hag⟩ := parse_spec h
      rw [decode_congr hl] at hag
      rw [parseAll, exhaust]
      revert hin hag
      generalize p.parse = r
      obtain ⟨r, p'⟩ := r
      intro hin hag
      cases hd : decode l with
      | item f rest =>
          rw [hd] at hag
          obtain ⟨rfl, hrest⟩ : r = .ok (some f) ∧ Same p'.unread rest := hag
          obtain ⟨hitems, hcrash, hin', hsame⟩ := ih hin hrest
          exact ⟨congrArg (f :: ·) hitems, hcrash, hin', hsame⟩
      | wait =>
          rw [hd] at hag
          obtain ⟨hr, hrest⟩ : (r = .ok none ∨ ∃ e, r = .err e) ∧ Same p'.unread p.unread := hag
          have hrest' : Same p'.unread l := Eq.trans hrest hl
          rcases hr with rfl | ⟨e, rfl⟩
          · exact ⟨rfl, rfl, hin, fun _ => hrest'⟩
          · exact ⟨rfl, rfl, hin, fun _ => hrest'⟩
      | crash =>
          rw [hd] at hag
          obtain rfl : r = .panic := hag
          exact ⟨rfl, rfl, hin, by rintro ⟨⟩⟩

/-- Blanks in front make no difference to what comes out. -/
theorem exhaustAll_congr {a b : Bytes} (h : Same a b) :
    (exhaustAll decode a).items = (exhaustAll decode b).items ∧
    (exhaustAll decode a).crashed = (exhaustAll decode b).crashed ∧
    ((exhaustAll decode b).crashed = false →
      Same (exhaustAll decode a).rest (exhaustAll decode b).rest) := by
  cases hd : decode b with
  | item f rest =>
      have ha := steady_decode.exhaustAll_item ((decode_congr h).trans hd)
      have hb := steady_decode.exhaustAll_item hd
      rw [ha, hb]
      exact ⟨rfl, rfl, fun _ => rfl⟩
  | wait =>
      rw [exhaustAll_wait ((decode_congr h).trans hd), exhaustAll_wait hd]
      exact ⟨rfl, rfl, fun _ => h⟩
  | crash =>
      rw [exhaustAll_crash ((decode_congr h).trans hd), exhaustAll_crash hd]
      exact ⟨rfl, rfl, nofun⟩

/-- The rounds of the loop suffice for the unread bytes, which are some of the
buffer. -/
theorem exhaust_buffer (p : RespParser) :
    exhaust decode (p.buffer.length + 1) p.unread = exhaustAll decode p.unread := by
  refine steady_decode.exhaust_eq ?_ (Nat.lt_succ_self _)
  rw [unread, List.length_drop]
  omega

/-- The loop ends where a parse gives no frame. -/
theorem parseAll_ends {p : RespParser} (h : p.Inside)
    (hc : (p.parseAll (p.buffer.length + 1)).2.1 = false) :
    (p.parseAll (p.buffer.length + 1)).2.2.parse.1 = .ok none ∨
      ∃ e, (p.parseAll (p.buffer.length + 1)).2.2.parse.1 = .err e := by
  have hall : exhaust decode (p.buffer.length + 1) p.unread = exhaustAll decode p.unread :=
    exhaust_buffer p
  obtain ⟨-, hcrash, hin, hrest⟩ := parseAll_spec (n := p.buffer.length + 1) h (l := p.unread) rfl
  rw [hall] at hcrash hrest
  rw [hcrash] at hc
  obtain ⟨-, hag⟩ := parse_spec hin
  rw [decode_congr (hrest hc), steady_decode.wait_rest _ hc] at hag
  exact hag.1

/-- Delivery over pieces is `inPieces` of `decode`. -/
theorem deliver_eq {p : RespParser} {held : Bytes} (h : p.Inside) (hl : Same p.unread held)
    (pieces : List Bytes) :
    p.deliver pieces = ((inPieces decode held pieces).items, (inPieces decode held pieces).crashed) := by
  induction pieces generalizing p held with
  | nil => rfl
  | cons piece pieces ih =>
      have hin : (p.feed piece).Inside :=
        Nat.le_trans h (by rw [feed, List.length_append]; exact Nat.le_add_right _ _)
      have hsame : Same (p.feed piece).unread (held ++ piece) := by
        rw [unread_feed h]
        exact same_append hl piece
      obtain ⟨hitems, hcrash, hin', hrest⟩ := parseAll_spec
        (n := (p.feed piece).buffer.length + 1) hin (l := (p.feed piece).unread) rfl
      obtain ⟨hitems', hcrash', hrest'⟩ := exhaustAll_congr hsame
      rw [exhaust_buffer] at hitems hcrash hrest
      rw [hitems'] at hitems
      rw [hcrash'] at hcrash hrest
      simp only [deliver, inPieces, hitems, hcrash]
      cases hc : (exhaustAll decode (held ++ piece)).crashed with
      | true => rfl
      | false =>
          have hnext := ih hin' (Eq.trans (hrest hc) (hrest' hc))
          simp only [Bool.false_eq_true, if_false, hnext]

/-- The frames a connection delivers, and whether its parser panics, do not
depend on how the bytes are cut into pieces; compaction keeps every unread
byte. -/
theorem deliver_flatten (pieces : List Bytes) :
    new.deliver pieces = new.deliver [pieces.flatten] ∧
      ∀ p : RespParser, p.compact.unread = p.unread := by
  have hin : new.Inside := Nat.le_refl _
  have hstart : Same new.unread [] := rfl
  have hwait : decode [] = .wait := decode_nil_of rfl
  have hwhole : ∀ ps : List Bytes, new.deliver ps =
      ((exhaustAll decode ps.flatten).items, (exhaustAll decode ps.flatten).crashed) := by
    intro ps
    rw [deliver_eq hin hstart, steady_decode.inPieces_eq _ _ hwait, List.nil_append]
  refine ⟨?_, unread_compact⟩
  rw [hwhole, hwhole, List.flatten_singleton]

end RespParser

end Ferrous
