/-
# `Commands.AgreedStreams` — the commands a script writes down again

The executor makes frames of a parsed command on streams, of a consumer group command and of
a SCAN, and hands them to the handler of the network.  Where no option is lost on the way, the
handler reads from these frames what it reads from the arguments of the script.
-/
import Ferrous.Commands.AgreedArguments
import Ferrous.Commands.AgreedCommands

namespace Ferrous

open Lib Args Unified

namespace Agree

open CommandParser (map_ok extractUsize_ok)

variable {checks : Bool} {db : Nat}

/-! ## Streams -/

theorem xadd : Agree checks db (fun ps => (CommandParser.parseXadd ps).map .stream) (handleXadd db) := by
  intro args command hparse _
  obtain ⟨c, hc, rfl⟩ := map_ok hparse
  unfold CommandParser.parseXadd at hc
  split at hc
  · cases hc
  · next hlen =>
      rcases args with _ | ⟨a, _ | ⟨k, _ | ⟨i, rest⟩⟩⟩
      case cons.cons.cons =>
        simp only [texts, List.map_cons, CommandParser.extractBytes_text, CommandParser.extractString_text] at hc
        have hpairs := CommandParser.extractPairs_texts rest
        simp only [texts] at hpairs
        rw [hpairs] at hc
        cases hc
        have heven : rest.length % 2 = 0 := by
          simp only [texts, List.map_cons, List.length_cons, List.length_map] at hlen
          omega
        have hid : ((if i = "*" then none else some i : Option String).getD "*") = i := by
          split
          · next h => exact h.symm
          · rfl
        refine lockstep_of_eq ?_
        show handleXadd db (.fromString "XADD" :: .fromBytes k.toBytes ::
          .fromString ((if i = "*" then none else some i : Option String).getD "*") ::
          Executor.pairFrames (CommandParser.pairsOf rest)) = _
        rw [hid, pairFrames_pairsOf rest heven]
        rfl
      all_goals cases hc

theorem xlen : Agree checks db (fun ps => (CommandParser.parseXlen ps).map .stream) (handleXlen db) :=
  of_keyOnly fun _ _ _ => lockstep_of_eq rfl

/-- The count of a range in frames written down again. -/
theorem rangeCount_again {a b c d : RespFrame} {n : Option Nat} (hn : ∀ m, n = some m → m < 2 ^ 64) :
    rangeCount ([a, b, c, d] ++ Executor.countFrames n) = .ok n := by
  cases n with
  | none => rfl
  | some m =>
      have hword : word? (.fromString "COUNT") = some "COUNT" := (word?_text _).trans (congrArg some toUppercase_count)
      have hnat : Args.nat [a, b, c, d, .fromString "COUNT", .fromString (toString m)] 5 "count" = .ok m :=
        nat_text _ _ rfl (parseU64_toString (hn m rfl)) _
      unfold rangeCount
      rw [if_pos ⟨Nat.le_refl 6, hword⟩]
      show (Args.nat [a, b, c, d, .fromString "COUNT", .fromString (toString m)] 5 "count").map some = _
      rw [hnat]
      rfl

/-- The count of a range in the arguments, where there are not more of them than a count takes. -/
theorem rangeCount_texts {a k s t : String} {options : List String} {n : Option Nat}
    (h : CommandParser.extractRangeCount (texts options) = .ok n)
    (hlen : options.length ≤ 2) :
    rangeCount (texts (a :: k :: s :: t :: options)) = .ok n ∧ ∀ m, n = some m → m < 2 ^ 64 := by
  rcases options with _ | ⟨w, _ | ⟨v, _ | ⟨x, options⟩⟩⟩
  · cases h
    exact ⟨rfl, fun m hm => by cases hm⟩
  · cases h
    exact ⟨rfl, fun m hm => by cases hm⟩
  · simp only [texts, List.map_cons, List.map_nil, CommandParser.extractRangeCount,
      CommandParser.extractWord_text] at h
    have hword : ((texts [a, k, s, t, w, v])[4]?).bind word? = some (toUppercase w) := word?_text w
    unfold rangeCount
    by_cases hw : toUppercase w = "COUNT"
    · change (if toUppercase w = "COUNT" then _ else _) = _ at h
      rw [if_pos hw] at h
      obtain ⟨m, hm, h⟩ := bind_ok h
      cases h
      have hnat : Args.nat (texts [a, k, s, t, w, v]) 5 "count" = .ok m := nat_text _ _ rfl (extractUsize_ok hm) _
      rw [if_pos ⟨Nat.le_refl 6, hword.trans (congrArg some hw)⟩, hnat]
      refine ⟨rfl, fun m' hm' => ?_⟩
      cases hm'
      exact parseU64_lt (extractUsize_ok hm)
    · rw [if_neg fun h' => hw (Option.some.inj (hword.symm.trans h'.2))]
      change (if toUppercase w = "COUNT" then _ else _) = _ at h
      rw [if_neg hw] at h
      cases h
      exact ⟨rfl, fun m hm => by cases hm⟩
  · exact absurd hlen (by simp)

/-- The key and the two ends of a range, and its count. -/
theorem streamRange_ok {name : String} {make : Key → String → String → Option Nat → StreamCommand}
    {a k s t : String} {options : List String} {c : StreamCommand}
    (h : CommandParser.streamRange name make (texts (a :: k :: s :: t :: options)) = .ok c) :
    ∃ n, CommandParser.extractRangeCount (texts options) = .ok n ∧ make k.toBytes s t n = c := by
  simp only [texts, List.map_cons, CommandParser.streamRange, CommandParser.extractBytes_text,
    CommandParser.extractString_text, bind, Except.bind] at h
  obtain ⟨n, hn, h⟩ := bind_ok h
  cases h
  exact ⟨n, hn, rfl⟩

theorem xrange : Agree checks db (fun ps => (CommandParser.parseXrange ps).map .stream) (handleXrange db) := by
  intro args command hparse hdeparts
  obtain ⟨c, hc, rfl⟩ := map_ok hparse
  rcases args with _ | ⟨a, _ | ⟨k, _ | ⟨s, _ | ⟨t, options⟩⟩⟩⟩
  case cons.cons.cons.cons =>
    obtain ⟨n, hn, rfl⟩ := streamRange_ok hc
    have hlen : options.length ≤ 2 := by
      have hall : ¬ 6 < (a :: k :: s :: t :: options).length := hdeparts
      simp only [List.length_cons] at hall
      omega
    obtain ⟨hcount, hlt⟩ := rangeCount_texts (a := a) (k := k) (s := s) (t := t) hn hlen
    refine lockstep_of_eq ?_
    show handleXrange db ([.fromString "XRANGE", .fromBytes k.toBytes, .fromString s, .fromString t] ++
      Executor.countFrames n) = handleXrange db (texts (a :: k :: s :: t :: options))
    unfold handleXrange
    rw [rangeCount_again hlt, hcount, arity_le (by simp), arity_le (by simp [texts])]
    rfl
  all_goals cases hc

/-- The last argument of XREVRANGE, taken for a count. -/
def revCount (parts : Parts) : Args (Option Nat) :=
  if parts.length = 5 then .ok (((parts[4]?).bind RespFrame.bulk?).bind fun bytes => parseU64 (fromUtf8Lossy bytes))
  else rangeCount parts

theorem handleXrevrange_eq (parts : Parts) :
    handleXrevrange db parts =
      reading (do
        arity "xrevrange" (4 ≤ parts.length)
        let key ← bulk parts 1 "key"
        let stop ← endArg parts 2
        let start ← startArg parts 3
        let n ← revCount parts
        return (key, start, stop, n))
        fun (key, start, stop, n) => onKey .raise db key (.xrange start stop n true) entriesFrame := by
  unfold handleXrevrange revCount
  by_cases h : parts.length = 5
  · simp only [if_pos h]
  · simp only [if_neg h]

theorem revCount_again {a b c d : RespFrame} {n : Option Nat} (hn : ∀ m, n = some m → m < 2 ^ 64) :
    revCount ([a, b, c, d] ++ Executor.countFrames n) = .ok n := by
  have hlen : ([a, b, c, d] ++ Executor.countFrames n).length ≠ 5 := by
    cases n <;> simp [Executor.countFrames]
  unfold revCount
  rw [if_neg hlen]
  exact rangeCount_again hn

theorem revCount_texts {a k s t : String} {options : List String} {n : Option Nat}
    (h : CommandParser.extractRangeCount (texts options) = .ok n) (hlen : options.length ≤ 2)
    (hbare : ¬ (options.length = 1 ∧ ((options[0]?).bind parseU64).isSome)) :
    revCount (texts (a :: k :: s :: t :: options)) = .ok n := by
  unfold revCount
  split
  · next h5 =>
      obtain ⟨w, rfl⟩ : ∃ w, options = [w] := List.length_eq_one_iff.mp (by
        simp only [texts, List.map_cons, List.length_cons, List.length_map] at h5
        omega)
      cases h
      have hnone : parseU64 w = none := by
        cases hw : parseU64 w with
        | none => rfl
        | some m => exact absurd ⟨rfl, by simp [hw]⟩ hbare
      show Except.ok (parseU64 (fromUtf8Lossy w.toBytes)) = _
      rw [fromUtf8Lossy_toBytes, hnone]
  · exact (rangeCount_texts h hlen).1

theorem xrevrange :
    Agree checks db (fun ps => (CommandParser.parseXrevrange ps).map .stream) (handleXrevrange db) := by
  intro args command hparse hdeparts
  obtain ⟨c, hc, rfl⟩ := map_ok hparse
  rcases args with _ | ⟨a, _ | ⟨k, _ | ⟨s, _ | ⟨t, options⟩⟩⟩⟩
  case cons.cons.cons.cons =>
    obtain ⟨n, hn, rfl⟩ := streamRange_ok hc
    obtain ⟨hbare, hall⟩ := not_or.mp hdeparts
    have hlen : options.length ≤ 2 := by
      simp only [List.length_cons] at hall
      omega
    have hbare' : ¬ (options.length = 1 ∧ ((options[0]?).bind parseU64).isSome) :=
      fun h => hbare ⟨by simp [h.1], h.2⟩
    have hcount := revCount_texts (a := a) (k := k) (s := s) (t := t) hn hlen hbare'
    have hlt := (rangeCount_texts (a := a) (k := k) (s := s) (t := t) hn hlen).2
    have hagain := revCount_again (a := .fromString "XREVRANGE") (b := .fromBytes k.toBytes) (c := .fromString s)
      (d := .fromString t) hlt
    refine lockstep_of_eq ?_
    show handleXrevrange db ([.fromString "XREVRANGE", .fromBytes k.toBytes, .fromString s, .fromString t] ++
      Executor.countFrames n) = handleXrevrange db (texts (a :: k :: s :: t :: options))
    rw [handleXrevrange_eq, handleXrevrange_eq, hagain, hcount, arity_le (by simp), arity_le (by simp [texts])]
    rfl
  all_goals cases hc

/-! ## XREAD and XREADGROUP -/

/-- The two halves of what is behind STREAMS, typed and written down again. -/
theorem keysAndIds_texts {rest : List String} {pairs : List (Key × String)}
    (h : CommandParser.extractKeysAndIds (texts rest) = .ok pairs) :
    rest.length % 2 = 0 ∧ pairs.length = rest.length / 2 ∧
      pairs = ((rest.take (rest.length / 2)).zip (rest.drop (rest.length / 2))).map fun p => (p.1.toBytes, p.2) := by
  have hzip : ∀ l : List (String × String),
      (l.map fun p => (RespFrame.fromString p.1, RespFrame.fromString p.2)).mapM
      (fun p => do
        let key ← CommandParser.extractBytes p.1
        let id ← CommandParser.extractString p.2
        return (key, id)) = Except.ok (l.map fun p => (p.1.toBytes, p.2)) := by
    intro l
    induction l with
    | nil => rfl
    | cons p l ih =>
        rw [List.map_cons, List.mapM_cons, ih]
        simp only [CommandParser.extractBytes_text, CommandParser.extractString_text]
        rfl
  unfold CommandParser.extractKeysAndIds at h
  split at h
  · cases h
  · next hlen =>
      have hlen' : (texts rest).length = rest.length := List.length_map ..
      rw [hlen'] at h hlen
      rw [texts, ← List.map_take, ← List.map_drop, List.zip_map] at h
      change
        (List.map (fun p : String × String => (RespFrame.fromString p.1, RespFrame.fromString p.2)) _).mapM _ = _ at h
      rw [hzip] at h
      cases h
      refine ⟨not_not.mp hlen, ?_, rfl⟩
      rw [List.length_map, List.length_zip, List.length_take, List.length_drop]
      omega

/-- Keys, then IDs: the frames of what was behind STREAMS. -/
theorem streams_again {rest : List String} {pairs : List (Key × String)}
    (h : CommandParser.extractKeysAndIds (texts rest) = .ok pairs) :
    (pairs.map fun p => RespFrame.fromBytes p.1) ++ (pairs.map fun p => RespFrame.fromString p.2) = texts rest := by
  obtain ⟨heven, -, rfl⟩ := keysAndIds_texts h
  have hlen : (rest.take (rest.length / 2)).length = (rest.drop (rest.length / 2)).length := by
    rw [List.length_take, List.length_drop]
    omega
  have hkeys : ((rest.take (rest.length / 2)).zip (rest.drop (rest.length / 2))).map Prod.fst =
      rest.take (rest.length / 2) := List.map_fst_zip (by rw [hlen])
  have hids : ((rest.take (rest.length / 2)).zip (rest.drop (rest.length / 2))).map Prod.snd =
      rest.drop (rest.length / 2) := List.map_snd_zip (by rw [hlen])
  rw [List.map_map, List.map_map]
  calc
    _ = texts (((rest.take (rest.length / 2)).zip (rest.drop (rest.length / 2))).map Prod.fst) ++
        texts (((rest.take (rest.length / 2)).zip (rest.drop (rest.length / 2))).map Prod.snd) := by
      unfold texts
      rw [List.map_map, List.map_map]
      rfl
    _ = texts (rest.take (rest.length / 2)) ++ texts (rest.drop (rest.length / 2)) := by rw [hkeys, hids]
    _ = texts rest := by
      unfold texts
      rw [← List.map_append, List.take_append_drop]

/-- What is behind STREAMS, to the handler of XREAD. -/
def readStreams (db : Nat) (n : Option Nat) (rest : Parts) : StoreProg RespFrame :=
  reading (keysAndIds ("ERR Unbalanced XREAD list of streams: for each stream key an ID " ++
    "or '$' must be specified.") rest) fun pairs => xreadLoop db n pairs []

theorem handleXread_of (parts : Parts) {rest : Parts} {n : Option Nat} (hlen : 4 ≤ parts.length)
    (hopts : xreadOptions (parts.drop 1) none = .ok (n, rest)) : handleXread db parts = readStreams db n rest := by
  unfold handleXread readStreams
  rw [arity_le hlen, hopts]
  show reading (keysAndIds _ rest >>= fun pairs => .ok (n, pairs)) _ = _
  cases keysAndIds ("ERR Unbalanced XREAD list of streams: for each stream key an ID " ++
    "or '$' must be specified.") rest <;> rfl

/-- Without a stream there is no XREAD. -/
theorem handleXread_none (db : Nat) (parts : Parts) {n : Option Nat}
    (hopts : xreadOptions (parts.drop 1) none = .ok (n, [])) :
    ∃ m, handleXread db parts = .ret (.err m) := by
  by_cases hlen : 4 ≤ parts.length
  · exact ⟨_, (handleXread_of _ hlen hopts).trans rfl⟩
  · unfold handleXread arity
    rw [if_neg (by simpa using hlen)]
    exact ⟨_, rfl⟩

theorem xread : Agree checks db (fun ps => (CommandParser.parseXread ps).map .stream) (handleXread db) := by
  intro args command hparse hdeparts
  obtain ⟨c, hc, rfl⟩ := map_ok hparse
  unfold CommandParser.parseXread at hc
  split at hc
  · cases hc
  · next hlen =>
      obtain ⟨⟨o, rest⟩, hloop, hc⟩ := bind_ok hc
      obtain ⟨pairs, hpairs, hc⟩ := bind_ok hc
      cases hc
      rcases args with _ | ⟨a, args⟩
      · exact absurd (by decide) hlen
      · have hreach : Departure.reachesStreams false args = true := (Bool.not_eq_false _).mp hdeparts
        obtain ⟨rest', rfl, hopts⟩ := xreadOptions_texts args hloop hreach
        have hcount := readLoop_count args hloop fun m hm => by cases hm
        have hagain := xreadOptions_again hcount (texts rest')
        have hframes : [RespFrame.fromString "XREAD"] ++ Executor.countFrames o.count ++ [.fromString "STREAMS"] ++
            (pairs.map fun p => RespFrame.fromBytes p.1) ++ (pairs.map fun p => RespFrame.fromString p.2) =
              .fromString "XREAD" :: (Executor.countFrames o.count ++ .fromString "STREAMS" :: texts rest') := by
          rw [← streams_again hpairs]
          simp
        show Prog.Lockstep Alike
          (handleXread db ([.fromString "XREAD"] ++ Executor.countFrames o.count ++ [.fromString "STREAMS"] ++
            (pairs.map fun p => .fromBytes p.1) ++ pairs.map fun p => .fromString p.2)) _
        rw [hframes]
        by_cases hnone : rest' = []
        · subst hnone
          obtain ⟨m, hm⟩ := handleXread_none db
            (.fromString "XREAD" :: (Executor.countFrames o.count ++ .fromString "STREAMS" :: texts [])) hagain
          obtain ⟨m', hm'⟩ := handleXread_none db (texts (a :: args)) hopts
          rw [hm, hm']
          exact .ret rfl
        · have heven := (keysAndIds_texts hpairs).1
          have hpos : 0 < rest'.length := List.length_pos_iff.mpr hnone
          refine lockstep_of_eq ?_
          rw [handleXread_of _ (not_lt.mp hlen) hopts,
            handleXread_of
              (.fromString "XREAD" :: (Executor.countFrames o.count ++ .fromString "STREAMS" :: texts rest'))
              ?_ hagain]
          simp only [texts, List.length_cons, List.length_append, List.length_map]
          omega

/-! ## XTRIM and XDEL -/

/-- The length behind MAXLEN is a number, so that it is no modifier. -/
theorem maxLenArg_texts (a k s : String) {t : String} (rest : List String) {n : Nat} (hn : parseU64 t = some n)
    (hlen : rest.length ≤ 1) : maxLenArg (texts (a :: k :: s :: t :: rest)) = .ok n := by
  have htilde : t ≠ "~" := by
    rintro rfl
    rw [show parseU64 "~" = none from rfl] at hn
    cases hn
  have hequals : t ≠ "=" := by
    rintro rfl
    rw [show parseU64 "=" = none from rfl] at hn
    cases hn
  have htext : (((texts (a :: k :: s :: t :: rest))[3]?).bind RespFrame.bulk?).map fromUtf8Lossy = some t :=
    congrArg some (fromUtf8Lossy_toBytes t)
  have hnumber : (((texts (a :: k :: s :: t :: rest))[3]?).bind RespFrame.bulk?).bind
      (fun bytes => parseU64 (fromUtf8Lossy bytes)) = some n :=
    (congrArg parseU64 (fromUtf8Lossy_toBytes t)).trans hn
  have hmodifier : (some t == some "~" || some t == some "=") = false := by simp [htilde, hequals]
  unfold maxLenArg
  simp only [htext, hnumber, hmodifier, Option.bind_some, hn]
  rcases rest with _ | ⟨x, _ | ⟨y, rest⟩⟩
  · rfl
  · rfl
  · exact absurd hlen (by simp)

theorem xtrim : Agree checks db (fun ps => (CommandParser.parseXtrim ps).map .stream) (handleXtrim db) := by
  intro args command hparse hdeparts
  obtain ⟨c, hc, rfl⟩ := map_ok hparse
  rcases args with _ | ⟨a, _ | ⟨k, _ | ⟨s, _ | ⟨t, rest⟩⟩⟩⟩
  case cons.cons.cons.cons =>
    simp only [texts, List.map_cons, CommandParser.parseXtrim, CommandParser.extractBytes_text,
      CommandParser.extractString_text, bind, Except.bind] at hc
    obtain ⟨n, hn, hc⟩ := bind_ok hc
    cases hc
    have hlen : rest.length ≤ 1 := by
      have hall : ¬ 5 < (a :: k :: s :: t :: rest).length := hdeparts
      simp only [List.length_cons] at hall
      omega
    have hmaxLen := maxLenArg_texts a k s rest (extractUsize_ok hn) hlen
    have hagain := maxLenArg_texts "XTRIM" k s [] (parseU64_again (extractUsize_ok hn))
      (Nat.zero_le 1)
    refine lockstep_of_eq ?_
    show handleXtrim db (texts ["XTRIM", k, s, toString n]) = _
    unfold handleXtrim
    rw [hmaxLen, hagain, arity_le (by simp [texts]), arity_le (by simp [texts])]
    rfl
  all_goals cases hc

theorem xdel : Agree checks db (fun ps => (CommandParser.parseXdel ps).map .stream) (handleXdel db) := by
  intro args command hparse _
  obtain ⟨c, hc, rfl⟩ := map_ok hparse
  rcases args with _ | ⟨a, _ | ⟨k, _ | ⟨i, rest⟩⟩⟩
  case cons.cons.cons =>
    have hall := CommandParser.mapM_extractString (i :: rest)
    simp only [texts, List.map_cons] at hc hall
    simp only [CommandParser.parseXdel, CommandParser.extractBytes_text, hall, bind, Except.bind] at hc
    cases hc
    exact lockstep_of_eq rfl
  all_goals cases hc

/-! ## The SCAN family -/

/-- A cursor, and one that is written down again. -/
theorem cursor_text {parts : Parts} {i : Nat} {s : String} {n : Nat} (hpart : parts[i]? = some (.fromString s))
    (h : parseU64 s = some n) : cursor parts i = .ok n :=
  numeral_of_text _ "cursor" hpart ((congrArg parseU64 (fromUtf8Lossy_toBytes s)).trans h)

theorem scan : Agree checks db (fun ps => (CommandParser.parseScanCmd ps).map .scan) (handleScan db) := by
  intro args command hparse hdeparts
  obtain ⟨c, hc, rfl⟩ := map_ok hparse
  rcases args with _ | ⟨a, _ | ⟨i, options⟩⟩
  case cons.cons =>
    obtain ⟨n, hn, hc⟩ := bind_ok hc
    obtain ⟨o, ho, hc⟩ := bind_ok hc
    cases hc
    have hall : Departure.scansAll true options = true := (Bool.not_eq_false _).mp hdeparts
    have hopts : scanOptions true false (texts options) {} =
        .ok ⟨o.pattern, o.typeFilter, o.count.getD 10, false⟩ :=
      scanOptions_texts options false false ho hall
    have hfits := (scanLoop_fits options ho fun m hm => by cases hm).1
    have hcursor : cursor (texts (a :: i :: options)) 1 = .ok n := cursor_text rfl (extractUsize_ok hn)
    have hagain : cursor (.fromString "SCAN" :: .fromString (toString n) ::
        (Executor.matchFrames o.pattern ++ (Executor.countFrames o.count ++ Executor.typeFrames o.typeFilter))) 1 =
          .ok n := cursor_text rfl (parseU64_again (extractUsize_ok hn))
    have hoptsAgain : scanOptions true false
        (Executor.matchFrames o.pattern ++ (Executor.countFrames o.count ++ Executor.typeFrames o.typeFilter)) {} =
          .ok ⟨o.pattern, o.typeFilter, o.count.getD 10, false⟩ := by
      rw [scanOptions_match o.pattern rfl, scanOptions_count hfits rfl, scanOptions_type o.typeFilter rfl]
    refine lockstep_of_eq ?_
    show handleScan db ([.fromString "SCAN", .fromString (toString n)] ++ Executor.matchFrames o.pattern ++
      Executor.countFrames o.count ++ Executor.typeFrames o.typeFilter) = _
    rw [List.append_assoc, List.append_assoc]
    show handleScan db (.fromString "SCAN" :: .fromString (toString n) ::
      (Executor.matchFrames o.pattern ++ (Executor.countFrames o.count ++ Executor.typeFrames o.typeFilter))) = _
    unfold handleScan
    rw [hcursor, hagain, show (texts (a :: i :: options)).drop 2 = texts options from rfl, List.drop_succ_cons,
      List.drop_succ_cons, List.drop_zero, hopts, hoptsAgain, arity_le (by simp), arity_le (by simp [texts])]
  all_goals cases hc

/-- HSCAN, SSCAN and ZSCAN. -/
theorem scanningKey {α : Type} {name cmd : String} {make : Key → Nat → Option Bytes → Option Nat → ScanCommand}
    {knowsNoValues : Bool} {c : Nat → ScanOptions → KeyCmd (Nat × α)} {render : α → RespFrame}
    (hexec : ∀ key cur pattern n, Executor.executeScan db (make key cur pattern n) =
      Ferrous.scanningKey cmd knowsNoValues c render db
        ([.fromString name, .fromBytes key, .fromString (toString cur)] ++
        Executor.matchFrames pattern ++ Executor.countFrames n))
    (hdep : ∀ args key cur pattern n, Departure.ofScan args (make key cur pattern n) =
      (Departure.scansAll false (args.drop 3) = false)) :
    Agree checks db (fun ps => (CommandParser.scanKey name make ps).map .scan)
      (Ferrous.scanningKey cmd knowsNoValues c render db) := by
  intro args command hparse hdeparts
  obtain ⟨c', hc, rfl⟩ := map_ok hparse
  rcases args with _ | ⟨a, _ | ⟨k, _ | ⟨i, options⟩⟩⟩
  case cons.cons.cons =>
    obtain ⟨key, hkey, hc⟩ := bind_ok hc
    obtain ⟨n, hn, hc⟩ := bind_ok hc
    obtain ⟨o, ho, hc⟩ := bind_ok hc
    cases hkey
    cases hc
    have hall : Departure.scansAll false options = true := by
      have hnot : ¬ Departure.ofScan (a :: k :: i :: options) (make k.toBytes n o.pattern o.count) := hdeparts
      rw [hdep] at hnot
      exact (Bool.not_eq_false _).mp hnot
    obtain ⟨hcount, htype⟩ := scanLoop_fits options ho fun m hm => by cases hm
    have hopts : scanOptions false knowsNoValues (texts options) {} =
        .ok ⟨o.pattern, none, o.count.getD 10, false⟩ :=
      (scanOptions_texts options knowsNoValues false ho hall).trans (by rw [htype rfl rfl])
    have hcursor : cursor (texts (a :: k :: i :: options)) 2 = .ok n := cursor_text rfl (extractUsize_ok hn)
    have hagain : cursor (.fromString name :: .fromBytes k.toBytes :: .fromString (toString n) ::
        (Executor.matchFrames o.pattern ++ Executor.countFrames o.count)) 2 = .ok n :=
      cursor_text rfl (parseU64_again (extractUsize_ok hn))
    have hoptsAgain : scanOptions false knowsNoValues
        (Executor.matchFrames o.pattern ++ Executor.countFrames o.count) {} =
          .ok ⟨o.pattern, none, o.count.getD 10, false⟩ := by
      rw [scanOptions_match o.pattern rfl, ← List.append_nil (Executor.countFrames o.count),
        scanOptions_count hcount rfl]
      rfl
    refine lockstep_of_eq ?_
    show Executor.executeScan db (make k.toBytes n o.pattern o.count) = _
    rw [hexec, List.append_assoc]
    show Ferrous.scanningKey cmd knowsNoValues c render db (.fromString name :: .fromBytes k.toBytes ::
      .fromString (toString n) :: (Executor.matchFrames o.pattern ++ Executor.countFrames o.count)) = _
    unfold Ferrous.scanningKey
    rw [hcursor, hagain, show (texts (a :: k :: i :: options)).drop 3 = texts options from rfl, List.drop_succ_cons,
      List.drop_succ_cons, List.drop_succ_cons, List.drop_zero, hopts, hoptsAgain, arity_le (by simp),
      arity_le (by simp [texts])]
    rfl
  all_goals cases hc

theorem hscan : Agree checks db (fun ps => (CommandParser.parseHscanCmd ps).map .scan) (handleHscan db) :=
  scanningKey (fun _ _ _ _ => rfl) fun _ _ _ _ _ => rfl

theorem sscan : Agree checks db (fun ps => (CommandParser.parseSscanCmd ps).map .scan) (handleSscan db) :=
  scanningKey (fun _ _ _ _ => rfl) fun _ _ _ _ _ => rfl

theorem zscan : Agree checks db (fun ps => (CommandParser.parseZscanCmd ps).map .scan) (handleZscan db) :=
  scanningKey (fun _ _ _ _ => rfl) fun _ _ _ _ _ => rfl

/-! ## Consumer groups -/

theorem xgroup : Agree checks db (fun ps => (CommandParser.parseXgroup ps).map .consumerGroup) (handleXgroup db) := by
  intro args command hparse _
  obtain ⟨c, hc, rfl⟩ := map_ok hparse
  rcases args with _ | ⟨a, _ | ⟨s, _ | ⟨k, _ | ⟨g, rest⟩⟩⟩⟩
  case cons.cons.cons.cons =>
    have hall := CommandParser.mapM_extractString rest
    simp only [texts, List.map_cons] at hc hall
    simp only [CommandParser.parseXgroup, CommandParser.extractBytes_text, CommandParser.extractString_text, hall,
      bind, Except.bind] at hc
    cases hc
    exact lockstep_of_eq rfl
  all_goals cases hc

theorem xack : Agree checks db (fun ps => (CommandParser.parseXack ps).map .consumerGroup) (handleXack db) := by
  intro args command hparse _
  obtain ⟨c, hc, rfl⟩ := map_ok hparse
  rcases args with _ | ⟨a, _ | ⟨k, _ | ⟨g, _ | ⟨i, rest⟩⟩⟩⟩
  case cons.cons.cons.cons =>
    have hall := CommandParser.mapM_extractString (i :: rest)
    simp only [texts, List.map_cons] at hc hall
    simp only [CommandParser.parseXack, CommandParser.extractBytes_text, CommandParser.extractString_text, hall,
      bind, Except.bind] at hc
    cases hc
    exact lockstep_of_eq rfl
  all_goals cases hc

theorem xinfo : Agree checks db (fun ps => (CommandParser.parseXinfo ps).map .consumerGroup) (handleXinfo db) := by
  intro args command hparse hdeparts
  obtain ⟨c, hc, rfl⟩ := map_ok hparse
  rcases args with _ | ⟨a, _ | ⟨s, _ | ⟨k, _ | ⟨g, _ | ⟨x, rest⟩⟩⟩⟩⟩
  case cons.cons.cons.nil =>
    simp only [texts, List.map_cons, List.map_nil, CommandParser.parseXinfo, CommandParser.extractBytes_text,
      CommandParser.extractString_text, bind, Except.bind] at hc
    cases hc
    exact lockstep_of_eq rfl
  case cons.cons.cons.cons.nil =>
    simp only [texts, List.map_cons, List.map_nil, CommandParser.parseXinfo, CommandParser.extractBytes_text,
      CommandParser.extractString_text, bind, Except.bind] at hc
    cases hc
    exact lockstep_of_eq rfl
  case cons.cons.cons.cons.cons =>
    simp only [texts, List.map_cons, CommandParser.parseXinfo, CommandParser.extractBytes_text,
      CommandParser.extractString_text, bind, Except.bind] at hc
    cases hc
    exact absurd (show 4 < (a :: s :: k :: g :: x :: rest).length by simp) hdeparts
  all_goals cases hc

/-- The group and the consumer, behind the word GROUP, and what is behind STREAMS. -/
theorem handleXreadgroup_of (parts : Parts) {rest : Parts} {g c : String} {o : ReadGroupOptions}
    (hlen : 6 ≤ parts.length)
    (hword : (parts[1]?).bind word? = some "GROUP") (hgroup : parts[2]? = some (.fromString g))
    (hconsumer : parts[3]? = some (.fromString c)) (hopts : readGroupOptions (parts.drop 4) {} = .ok (o, rest)) :
    handleXreadgroup db parts = reading (keysAndIds "ERR Unbalanced XREADGROUP list of streams" rest) fun pairs =>
      readGroupLoop db g c o pairs [] := by
  have hg : textOr "ERR invalid group name" parts 2 = .ok g := by
    rw [textOr, hgroup]
    exact congrArg Except.ok (fromUtf8Lossy_toBytes g)
  have hc : textOr "ERR invalid consumer name" parts 3 = .ok c := by
    rw [textOr, hconsumer]
    exact congrArg Except.ok (fromUtf8Lossy_toBytes c)
  unfold handleXreadgroup
  rw [arity_le hlen, hg, hc, hopts, if_neg (fun h => h hword)]
  show reading (keysAndIds _ rest >>= fun pairs => .ok (g, c, o, pairs)) _ = _
  cases keysAndIds "ERR Unbalanced XREADGROUP list of streams" rest <;> rfl

/-- Without a stream there is no XREADGROUP. -/
theorem handleXreadgroup_none (db : Nat) (parts : Parts) {g c : String} {o : ReadGroupOptions}
    (hword : (parts[1]?).bind word? = some "GROUP") (hgroup : parts[2]? = some (.fromString g))
    (hconsumer : parts[3]? = some (.fromString c)) (hopts : readGroupOptions (parts.drop 4) {} = .ok (o, [])) :
    ∃ m, handleXreadgroup db parts = .ret (.err m) := by
  by_cases hlen : 6 ≤ parts.length
  · exact ⟨_, (handleXreadgroup_of _ hlen hword hgroup hconsumer hopts).trans rfl⟩
  · unfold handleXreadgroup arity
    rw [if_neg (by simpa using hlen)]
    exact ⟨_, rfl⟩

/-- One key and its ID are the two halves. -/
theorem flatMap_streams {rest : List String} {pairs : List (Key × String)}
    (h : CommandParser.extractKeysAndIds (texts rest) = .ok pairs) (hfew : ¬ 2 ≤ pairs.length) :
    (pairs.flatMap fun p => [RespFrame.fromBytes p.1, .fromString p.2]) = texts rest := by
  obtain ⟨heven, hlen, hpairs⟩ := keysAndIds_texts h
  rcases rest with _ | ⟨k, _ | ⟨i, _ | ⟨x, rest⟩⟩⟩
  · rw [hpairs]
    rfl
  · exact absurd heven (by simp)
  · obtain rfl : pairs = [(k.toBytes, i)] := hpairs.trans (by simp)
    rfl
  · simp only [List.length_cons] at heven hlen
    omega

theorem word?_group {parts : Parts} (h : parts[1]? = some (.fromString "GROUP") := by rfl) :
    (parts[1]?).bind word? = some "GROUP" := by
  rw [h]
  exact (word?_text _).trans (congrArg some rfl)

theorem xreadgroup :
    Agree checks db (fun ps => (CommandParser.parseXreadgroup ps).map .consumerGroup) (handleXreadgroup db) := by
  intro args command hparse hdeparts
  obtain ⟨c, hc, rfl⟩ := map_ok hparse
  unfold CommandParser.parseXreadgroup at hc
  split at hc
  · cases hc
  · next hlen =>
      rcases args with _ | ⟨a, _ | ⟨w, _ | ⟨g, _ | ⟨n, args⟩⟩⟩⟩
      case cons.cons.cons.cons =>
        simp only [texts, List.map_cons, CommandParser.extractWord_text, CommandParser.extractString_text, bind,
          Except.bind] at hc
        split at hc
        · cases hc
        · next hw =>
            obtain ⟨⟨o, rest⟩, hloop, hc⟩ := bind_ok hc
            obtain ⟨pairs, hpairs, hc⟩ := bind_ok hc
            cases hc
            obtain ⟨hfew, hblock, hnoack, hreach⟩ : ¬ 2 ≤ pairs.length ∧ o.block = none ∧ o.noack = false ∧
                Departure.reachesStreams true args = true := by
              obtain ⟨hfew, hrest⟩ := not_or.mp hdeparts
              obtain ⟨hblock, hrest⟩ := not_or.mp hrest
              obtain ⟨hnoack, hreach⟩ := not_or.mp hrest
              exact ⟨hfew, Option.not_isSome_iff_eq_none.mp hblock, Bool.eq_false_iff.mpr hnoack,
                (Bool.not_eq_false _).mp hreach⟩
            obtain ⟨rest', rfl, hopts⟩ := readGroupOptions_texts args hloop hreach
            have hcount := readLoop_count args hloop fun m hm => by cases hm
            have hword : ((texts (a :: w :: g :: n :: args))[1]?).bind word? = some "GROUP" :=
              (word?_text w).trans (congrArg some (not_not.mp hw))
            have hopts' : readGroupOptions (texts args) {} = .ok (⟨o.count, none, false⟩, texts rest') := by
              rw [hblock, hnoack] at hopts
              exact hopts
            have hagain := readGroupOptions_again hcount (texts rest')
            have hframes : [RespFrame.fromString "XREADGROUP", .fromString "GROUP", .fromString g, .fromString n] ++
                Executor.countFrames o.count ++ [.fromString "STREAMS"] ++
                  (pairs.flatMap fun p => [RespFrame.fromBytes p.1, .fromString p.2]) =
                .fromString "XREADGROUP" :: .fromString "GROUP" :: .fromString g :: .fromString n ::
                  (Executor.countFrames o.count ++ .fromString "STREAMS" :: texts rest') := by
              rw [flatMap_streams hpairs hfew]
              simp
            show Prog.Lockstep Alike (handleXreadgroup db
              ([.fromString "XREADGROUP", .fromString "GROUP", .fromString g, .fromString n] ++
                Executor.countFrames o.count ++ [.fromString "STREAMS"] ++
                  pairs.flatMap fun p => [.fromBytes p.1, .fromString p.2])) _
            rw [hframes]
            by_cases hnone : rest' = []
            · subst hnone
              obtain ⟨m, hm⟩ := handleXreadgroup_none db
                (.fromString "XREADGROUP" :: .fromString "GROUP" :: .fromString g :: .fromString n ::
                  (Executor.countFrames o.count ++ .fromString "STREAMS" :: texts [])) word?_group rfl rfl hagain
              obtain ⟨m', hm'⟩ := handleXreadgroup_none db (texts (a :: w :: g :: n :: args))
                hword rfl rfl hopts'
              rw [hm, hm']
              exact .ret rfl
            · have heven := (keysAndIds_texts hpairs).1
              have hpos : 0 < rest'.length := List.length_pos_iff.mpr hnone
              refine lockstep_of_eq ?_
              rw [handleXreadgroup_of (texts (a :: w :: g :: n :: args)) (not_lt.mp hlen) hword rfl rfl hopts',
                handleXreadgroup_of (.fromString "XREADGROUP" :: .fromString "GROUP" :: .fromString g ::
                  .fromString n :: (Executor.countFrames o.count ++ .fromString "STREAMS" :: texts rest')) ?_
                  word?_group rfl rfl hagain]
              simp only [texts, List.length_cons, List.length_append, List.length_map]
              omega
      all_goals cases hc

/-! ## XPENDING and XCLAIM -/

/-- The range of XPENDING, of texts. -/
theorem pendingRangeArgs_texts {a k g s t c : String} {n : Nat} (hn : parseU64 c = some n) :
    pendingRangeArgs (texts [a, k, g, s, t, c]) =
      .ok (if s = "-" then none else StreamId.fromString s, if t = "+" then none else StreamId.fromString t, n,
        none) := by
  have hs : textOr "ERR invalid start ID" (texts [a, k, g, s, t, c]) 3 = .ok s :=
    congrArg Except.ok (fromUtf8Lossy_toBytes s)
  have ht : textOr "ERR invalid end ID" (texts [a, k, g, s, t, c]) 4 = .ok t :=
    congrArg Except.ok (fromUtf8Lossy_toBytes t)
  have hc : textOr "ERR invalid count" (texts [a, k, g, s, t, c]) 5 = .ok c :=
    congrArg Except.ok (fromUtf8Lossy_toBytes c)
  unfold pendingRangeArgs
  rw [hs, ht, hc]
  simp only [bind, Except.bind, hn]
  rfl

theorem xpending :
    Agree checks db (fun ps => (CommandParser.parseXpending ps).map .consumerGroup) (handleXpending db) := by
  intro args command hparse hdeparts
  obtain ⟨c, hc, rfl⟩ := map_ok hparse
  rcases args with _ | ⟨a, _ | ⟨k, _ | ⟨g, rest⟩⟩⟩
  case cons.cons.cons =>
    simp only [texts, List.map_cons, CommandParser.parseXpending, CommandParser.extractBytes_text,
      CommandParser.extractString_text, bind, Except.bind] at hc
    obtain ⟨range, hrange, hc⟩ := bind_ok hc
    obtain ⟨consumer, rfl⟩ : ∃ consumer, c = .xPending k.toBytes g range consumer := by
      split at hc
      · obtain ⟨consumer, -, hc⟩ := bind_ok hc
        cases hc
        exact ⟨consumer, rfl⟩
      · cases hc
        exact ⟨none, rfl⟩
    have hlen : rest.length = 0 ∨ rest.length = 3 := by
      by_contra h
      refine hdeparts (show (a :: k :: g :: rest).length ≠ 3 ∧ (a :: k :: g :: rest).length ≠ 6 from ?_)
      simp only [List.length_cons]
      omega
    rcases rest with _ | ⟨s, _ | ⟨t, _ | ⟨n, _ | ⟨x, rest⟩⟩⟩⟩
    case nil =>
      cases hrange
      exact lockstep_of_eq rfl
    case cons.cons.cons.nil =>
      simp only [List.map_cons, List.map_nil, CommandParser.extractPendingRange, CommandParser.extractString_text,
        bind, Except.bind] at hrange
      obtain ⟨m, hm, hrange⟩ := bind_ok hrange
      cases hrange
      refine lockstep_of_eq ?_
      show handleXpending db (texts ["XPENDING", k, g, s, t, toString m]) = _
      unfold handleXpending
      rw [pendingRangeArgs_texts (parseU64_again (extractUsize_ok hm)), pendingRangeArgs_texts (extractUsize_ok hm)]
      rfl
    all_goals simp at hlen
  all_goals cases hc

theorem xclaim : Agree checks db (fun ps => (CommandParser.parseXclaim ps).map .consumerGroup) (handleXclaim db) := by
  intro args command hparse hdeparts
  obtain ⟨c, hc, rfl⟩ := map_ok hparse
  rcases args with _ | ⟨a, _ | ⟨k, _ | ⟨g, _ | ⟨n, _ | ⟨i, _ | ⟨p, rest⟩⟩⟩⟩⟩⟩
  case cons.cons.cons.cons.cons.cons =>
    simp only [texts, List.map_cons, CommandParser.parseXclaim, CommandParser.extractBytes_text,
      CommandParser.extractString_text, bind, Except.bind] at hc
    obtain ⟨idle, hidle, hc⟩ := bind_ok hc
    obtain ⟨⟨ids, force, justid⟩, hloop, hc⟩ := bind_ok hc
    cases hc
    obtain ⟨hforce, hjustid⟩ := not_or.mp hdeparts
    obtain ⟨-, -, hids⟩ := claimLoop_texts (p :: rest) hloop (Bool.eq_false_iff.mpr hforce)
      (Bool.eq_false_iff.mpr hjustid)
    have htext : ∀ s : String, textOr "ERR invalid min-idle-time"
        (texts ("XCLAIM" :: k :: g :: n :: s :: p :: rest)) 4 = .ok s := fun s =>
      congrArg Except.ok (fromUtf8Lossy_toBytes s)
    have htext' : textOr "ERR invalid min-idle-time" (texts (a :: k :: g :: n :: i :: p :: rest)) 4 = .ok i :=
      congrArg Except.ok (fromUtf8Lossy_toBytes i)
    rw [List.nil_append] at hids
    subst hids
    refine lockstep_of_eq ?_
    show handleXclaim db (texts ("XCLAIM" :: k :: g :: n :: toString idle :: p :: rest)) = _
    unfold handleXclaim
    rw [htext, htext', arity_le (by simp [texts]), arity_le (by simp [texts])]
    simp only [bind, Except.bind, parseU64_again (extractUsize_ok hidle), extractUsize_ok hidle]
    rfl
  all_goals cases hc

end Agree

end Ferrous
