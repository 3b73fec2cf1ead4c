/-
# `Commands.AgreedArguments` — options and numbers that are read twice

The command parser reads the options of a script's command, and where the executor writes them
down again a handler of the network reads them once more.  What both know they read alike.
-/
import Ferrous.Commands.Agreement

namespace Ferrous

open Lib Args Unified

/-! ## Numbers written down again -/

theorem parseU64_lt {s : String} {n : Nat} (h : parseU64 s = some n) : n < 2 ^ 64 :=
  of_decide_eq_true (Option.filter_eq_some_iff.mp h).2

theorem parseU64_again {s : String} {n : Nat} (h : parseU64 s = some n) : parseU64 (toString n) = some n :=
  parseU64_toString (parseU64_lt h)

theorem toUppercase_count : toUppercase "COUNT" = "COUNT" := rfl

theorem toUppercase_streams : toUppercase "STREAMS" = "STREAMS" := rfl

theorem toUppercase_match : toUppercase "MATCH" = "MATCH" := rfl

theorem toUppercase_type : toUppercase "TYPE" = "TYPE" := rfl

namespace Agree

open CommandParser (extractUsize_ok)

/-! ## The options of a script -/

/-- The options before the streams, as the handler of XREAD reads them. -/
theorem xreadOptions_texts : ∀ (args : List String) {o o' : CommandParser.ReadOptions} {rest : Parts},
    CommandParser.readLoop false (texts args) o = .ok (o', rest) →
      Departure.reachesStreams false args = true →
        ∃ rest', rest = texts rest' ∧ xreadOptions (texts args) o.count = .ok (o'.count, texts rest')
  | [], o, o', rest, _, hreach => by cases hreach
  | w :: args, o, o', rest, h, hreach => by
      rw [texts, List.map_cons, CommandParser.readLoop.eq_def] at h
      simp only [CommandParser.extractWord_text, bind, Except.bind] at h
      rw [Departure.reachesStreams.eq_def] at hreach
      rw [texts, List.map_cons, xreadOptions.eq_def]
      simp only [word?_text]
      split at h
      · next hw =>
          simp only [hw, true_or, if_true] at hreach ⊢
          rcases args with _ | ⟨v, args⟩
          · cases h
          · obtain ⟨n, hn, h⟩ := bind_ok h
            have hv : parseU64 (fromUtf8Lossy v.toBytes) = some n := by
              rw [fromUtf8Lossy_toBytes]
              exact extractUsize_ok hn
            obtain ⟨rest', hrest, hopts⟩ := xreadOptions_texts args h hreach
            refine ⟨rest', hrest, ?_⟩
            simp only [List.map_cons, RespFrame.fromString, RespFrame.bulk?, hv]
            exact hopts
      · next hw =>
          simp only [hw, or_true, if_true, String.reduceEq, if_false] at hreach ⊢
          rcases args with _ | ⟨v, args⟩
          · cases h
          · obtain ⟨n, hn, h⟩ := bind_ok h
            have hv : parseU64 (fromUtf8Lossy v.toBytes) = some n := by
              rw [fromUtf8Lossy_toBytes]
              exact extractUsize_ok hn
            obtain ⟨rest', hrest, hopts⟩ := xreadOptions_texts args h hreach
            refine ⟨rest', hrest, ?_⟩
            simp only [List.map_cons, RespFrame.fromString, RespFrame.bulk?, hv]
            exact hopts
      · next hw =>
          simp [hw] at hreach
      · next hw =>
          cases h
          refine ⟨args, rfl, ?_⟩
          simp [hw, texts]
      · next hcount hblock hnoack hstreams =>
          dsimp only at hreach
          rw [if_neg (not_or.mpr ⟨hcount, hblock⟩), if_neg fun h => hnoack h.1, decide_eq_true_eq] at hreach
          exact absurd hreach hstreams

/-- The options of a SCAN as the handler reads them, where none is unknown. -/
theorem scanOptions_texts : ∀ (args : List String) {knowsType : Bool} (knowsNoValues : Bool)
    {o o' : CommandParser.ScanArguments} (noValues : Bool),
    CommandParser.scanLoop knowsType (texts args) o = .ok o' → Departure.scansAll knowsType args = true →
      scanOptions knowsType knowsNoValues (texts args) ⟨o.pattern, o.typeFilter, o.count.getD 10, noValues⟩ =
        .ok ⟨o'.pattern, o'.typeFilter, o'.count.getD 10, noValues⟩
  | [], knowsType, knowsNoValues, o, o', noValues, h, _ => by
      cases h
      rfl
  | w :: args, knowsType, knowsNoValues, o, o', noValues, h, hall => by
      rw [texts, List.map_cons, CommandParser.scanLoop.eq_def] at h
      simp only [CommandParser.extractWord_text, bind, Except.bind] at h
      rw [Departure.scansAll.eq_def] at hall
      rw [texts, List.map_cons, scanOptions.eq_def]
      simp only [word?_text]
      split at h
      · next hw =>
          simp only [hw, true_or, if_true] at hall ⊢
          rcases args with _ | ⟨v, args⟩
          · cases h
          · simp only [List.map_cons, CommandParser.extractBytes_text] at h
            exact scanOptions_texts args knowsNoValues noValues h hall
      · next hw =>
          simp only [hw, true_or, or_true, if_true, String.reduceEq, if_false] at hall ⊢
          rcases args with _ | ⟨v, args⟩
          · cases h
          · obtain ⟨n, hn, h⟩ := bind_ok h
            have hv : parseU64 (fromUtf8Lossy v.toBytes) = some n := by
              rw [fromUtf8Lossy_toBytes]
              exact extractUsize_ok hn
            simp only [List.map_cons, RespFrame.fromString, RespFrame.bulk?, hv]
            exact scanOptions_texts args knowsNoValues noValues h hall
      · next hw =>
          split at h
          · next hknows =>
              subst hknows
              simp only [hw, and_self, or_true, if_true, String.reduceEq, if_false] at hall ⊢
              rcases args with _ | ⟨v, args⟩
              · cases h
              · simp only [List.map_cons, CommandParser.extractString_text] at h
                have hv : fromUtf8Lossy v.toBytes = v := fromUtf8Lossy_toBytes v
                simp only [List.map_cons, RespFrame.fromString, RespFrame.bulk?, hv]
                exact scanOptions_texts args knowsNoValues noValues h hall
          · next hknows =>
              simp [hw, hknows] at hall
      · next hmatch hcount htype =>
          dsimp only at hall
          rw [if_neg fun h => h.elim hmatch fun h => h.elim hcount fun h => htype h.1] at hall
          cases hall

/-- The options before the streams, as the handler of XREADGROUP reads them. -/
theorem readGroupOptions_texts : ∀ (args : List String) {o o' : CommandParser.ReadOptions} {rest : Parts},
    CommandParser.readLoop true (texts args) o = .ok (o', rest) →
      Departure.reachesStreams true args = true →
        ∃ rest', rest = texts rest' ∧
          readGroupOptions (texts args) ⟨o.count, o.block, o.noack⟩ =
            .ok (⟨o'.count, o'.block, o'.noack⟩, texts rest')
  | [], o, o', rest, _, hreach => by cases hreach
  | w :: args, o, o', rest, h, hreach => by
      rw [texts, List.map_cons, CommandParser.readLoop.eq_def] at h
      simp only [CommandParser.extractWord_text, bind, Except.bind] at h
      rw [Departure.reachesStreams.eq_def] at hreach
      rw [texts, List.map_cons, readGroupOptions.eq_def]
      simp only [word?_text]
      split at h
      · next hw =>
          simp only [hw, true_or, if_true] at hreach ⊢
          rcases args with _ | ⟨v, args⟩
          · cases h
          · obtain ⟨n, hn, h⟩ := bind_ok h
            have hv : optionValue (.fromString v) = some n :=
              (congrArg parseU64 (fromUtf8Lossy_toBytes v)).trans (extractUsize_ok hn)
            obtain ⟨rest', hrest, hopts⟩ := readGroupOptions_texts args h hreach
            refine ⟨rest', hrest, ?_⟩
            simp only [List.map_cons, hv]
            exact hopts
      · next hw =>
          simp only [hw, or_true, if_true, String.reduceEq, if_false] at hreach ⊢
          rcases args with _ | ⟨v, args⟩
          · cases h
          · obtain ⟨n, hn, h⟩ := bind_ok h
            have hv : optionValue (.fromString v) = some n :=
              (congrArg parseU64 (fromUtf8Lossy_toBytes v)).trans (extractUsize_ok hn)
            obtain ⟨rest', hrest, hopts⟩ := readGroupOptions_texts args h hreach
            refine ⟨rest', hrest, ?_⟩
            simp only [List.map_cons, hv]
            exact hopts
      · next hw =>
          simp only [hw, or_self, and_self, if_true, String.reduceEq, if_false] at hreach ⊢
          exact readGroupOptions_texts args h hreach
      · next hw =>
          cases h
          refine ⟨args, rfl, ?_⟩
          simp [hw, texts]
      · next hcount hblock hnoack hstreams =>
          dsimp only at hreach
          rw [if_neg (not_or.mpr ⟨hcount, hblock⟩), if_neg fun h => hnoack h.1, decide_eq_true_eq] at hreach
          exact absurd hreach hstreams

/-- FORCE and JUSTID stay, and everything else is an ID. -/
theorem claimLoop_texts : ∀ (args : List String) {ids ids' : List String} {force justid force' justid' : Bool},
    CommandParser.claimLoop (texts args) (ids, force, justid) = .ok (ids', force', justid') →
      force' = false → justid' = false → force = false ∧ justid = false ∧ ids' = ids ++ args
  | [], ids, ids', force, justid, force', justid', h, hforce, hjustid => by
      cases h
      exact ⟨hforce, hjustid, (List.append_nil ids).symm⟩
  | w :: args, ids, ids', force, justid, force', justid', h, hforce, hjustid => by
      rw [texts, List.map_cons, CommandParser.claimLoop.eq_def] at h
      simp only [CommandParser.extractString_text, bind, Except.bind] at h
      split at h
      · exact absurd (claimLoop_texts args h hforce hjustid).1 (by simp)
      · exact absurd (claimLoop_texts args h hforce hjustid).2.1 (by simp)
      · obtain ⟨hf, hj, hids⟩ := claimLoop_texts args h hforce hjustid
        exact ⟨hf, hj, by rw [hids, List.append_assoc, List.singleton_append]⟩

/-! ## What fits its type -/

/-- The count before the streams fits its type. -/
theorem readLoop_count : ∀ (args : List String) {knowsNoack : Bool} {o o' : CommandParser.ReadOptions} {rest : Parts},
    CommandParser.readLoop knowsNoack (texts args) o = .ok (o', rest) →
      (∀ m, o.count = some m → m < 2 ^ 64) → ∀ m, o'.count = some m → m < 2 ^ 64
  | [], _, o, o', rest, h, ho => by
      cases h
      exact ho
  | w :: args, knowsNoack, o, o', rest, h, ho => by
      rw [texts, List.map_cons, CommandParser.readLoop.eq_def] at h
      simp only [CommandParser.extractWord_text, bind, Except.bind] at h
      split at h
      · rcases args with _ | ⟨v, args⟩
        · cases h
        · obtain ⟨n, hn, h⟩ := bind_ok h
          exact readLoop_count args h fun m hm => by
            cases hm
            exact parseU64_lt (extractUsize_ok hn)
      · rcases args with _ | ⟨v, args⟩
        · cases h
        · obtain ⟨n, hn, h⟩ := bind_ok h
          exact readLoop_count args h ho
      · split at h
        · exact readLoop_count args h ho
        · cases h
          exact ho
      · cases h
        exact ho
      · cases h
        exact ho

/-- The count of a SCAN fits its type, and only SCAN has a type. -/
theorem scanLoop_fits : ∀ (args : List String) {knowsType : Bool} {o o' : CommandParser.ScanArguments},
    CommandParser.scanLoop knowsType (texts args) o = .ok o' → (∀ m, o.count = some m → m < 2 ^ 64) →
      (∀ m, o'.count = some m → m < 2 ^ 64) ∧ (knowsType = false → o.typeFilter = none → o'.typeFilter = none)
  | [], knowsType, o, o', h, ho => by
      cases h
      exact ⟨ho, fun _ => id⟩
  | w :: args, knowsType, o, o', h, ho => by
      rw [texts, List.map_cons, CommandParser.scanLoop.eq_def] at h
      simp only [CommandParser.extractWord_text, bind, Except.bind] at h
      split at h
      · rcases args with _ | ⟨v, args⟩
        · cases h
        · simp only [List.map_cons, CommandParser.extractBytes_text] at h
          exact ⟨(scanLoop_fits args h ho).1, (scanLoop_fits args h ho).2⟩
      · rcases args with _ | ⟨v, args⟩
        · cases h
        · obtain ⟨n, hn, h⟩ := bind_ok h
          have hlt : ∀ m, some n = some m → m < 2 ^ 64 := fun m hm => by
            cases hm
            exact parseU64_lt (extractUsize_ok hn)
          exact ⟨(scanLoop_fits args h hlt).1, (scanLoop_fits args h hlt).2⟩
      · split at h
        · next hknows =>
            rcases args with _ | ⟨v, args⟩
            · cases h
            · simp only [List.map_cons, CommandParser.extractString_text] at h
              exact ⟨(scanLoop_fits args h ho).1, fun hno => by rw [hknows] at hno; cases hno⟩
        · cases h
          exact ⟨ho, fun _ => id⟩
      · cases h
        exact ⟨ho, fun _ => id⟩

/-! ## Options written down again -/

/-- COUNT and STREAMS, written down again, are read again. -/
theorem xreadOptions_again {n : Option Nat} (hn : ∀ m, n = some m → m < 2 ^ 64) (rest : Parts) :
    xreadOptions (Executor.countFrames n ++ .fromString "STREAMS" :: rest) none = .ok (n, rest) := by
  have hstreams : ∀ n : Option Nat, xreadOptions (.fromString "STREAMS" :: rest) n = .ok (n, rest) := by
    intro n
    rw [xreadOptions.eq_def]
    simp only [word?_text, toUppercase_streams, String.reduceEq, if_false, if_true]
  cases n with
  | none => exact hstreams none
  | some m =>
      have hm : parseU64 (fromUtf8Lossy (toString m).toBytes) = some m := by
        rw [fromUtf8Lossy_toBytes]
        exact parseU64_toString (hn m rfl)
      show xreadOptions (.fromString "COUNT" :: .fromString (toString m) :: .fromString "STREAMS" :: rest) none = _
      rw [xreadOptions.eq_def]
      simp only [word?_text, toUppercase_count, if_true]
      simp only [RespFrame.bulk?, RespFrame.fromString, hm]
      exact hstreams (some m)

/-- COUNT and STREAMS, written down again, are read again. -/
theorem readGroupOptions_again {n : Option Nat} (hn : ∀ m, n = some m → m < 2 ^ 64) (rest : Parts) :
    readGroupOptions (Executor.countFrames n ++ .fromString "STREAMS" :: rest) {} =
      .ok (⟨n, none, false⟩, rest) := by
  have hstreams : ∀ o : ReadGroupOptions, readGroupOptions (.fromString "STREAMS" :: rest) o = .ok (o, rest) := by
    intro o
    rw [readGroupOptions.eq_def]
    simp only [word?_text, toUppercase_streams, String.reduceEq, if_false, if_true]
  cases n with
  | none => exact hstreams {}
  | some m =>
      have hm : optionValue (.fromString (toString m)) = some m := by
        show parseU64 (fromUtf8Lossy (toString m).toBytes) = some m
        rw [fromUtf8Lossy_toBytes]
        exact parseU64_toString (hn m rfl)
      show readGroupOptions (.fromString "COUNT" :: .fromString (toString m) :: .fromString "STREAMS" :: rest) {} = _
      rw [readGroupOptions.eq_def]
      simp only [word?_text, toUppercase_count, if_true, hm]
      exact hstreams _

section Again

variable {knowsType knowsNoValues : Bool} {o : ScanOptions} {rest : Parts}

theorem scanOptions_match (pattern : Option Bytes) (ho : o.pattern = none) :
    scanOptions knowsType knowsNoValues (Executor.matchFrames pattern ++ rest) o =
      scanOptions knowsType knowsNoValues rest { o with pattern := pattern } := by
  cases pattern with
  | none =>
      obtain ⟨p, t, c, v⟩ := o
      cases ho
      rfl
  | some p =>
      show scanOptions _ _ (.fromString "MATCH" :: .fromBytes p :: rest) o = _
      rw [scanOptions.eq_def]
      simp only [word?_text, toUppercase_match, if_true]
      rfl

theorem scanOptions_count {n : Option Nat} (hn : ∀ m, n = some m → m < 2 ^ 64) (ho : o.count = 10) :
    scanOptions knowsType knowsNoValues (Executor.countFrames n ++ rest) o =
      scanOptions knowsType knowsNoValues rest { o with count := n.getD 10 } := by
  cases n with
  | none =>
      obtain ⟨p, t, c, v⟩ := o
      cases ho
      rfl
  | some m =>
      have hm : parseU64 (fromUtf8Lossy (toString m).toBytes) = some m := by
        rw [fromUtf8Lossy_toBytes]
        exact parseU64_toString (hn m rfl)
      show scanOptions _ _ (.fromString "COUNT" :: .fromString (toString m) :: rest) o = _
      rw [scanOptions.eq_def]
      simp only [word?_text, toUppercase_count, String.reduceEq, if_false, if_true]
      simp only [RespFrame.bulk?, RespFrame.fromString, hm]
      rfl

theorem scanOptions_type (typeFilter : Option String) (ho : o.typeFilter = none) :
    scanOptions true knowsNoValues (Executor.typeFrames typeFilter) o = .ok { o with typeFilter := typeFilter } := by
  cases typeFilter with
  | none =>
      obtain ⟨p, t, c, v⟩ := o
      cases ho
      rfl
  | some name =>
      show scanOptions _ _ [.fromString "TYPE", .fromString name] o = _
      rw [scanOptions.eq_def]
      simp only [word?_text, toUppercase_type, String.reduceEq, if_false, and_self, if_true]
      simp only [RespFrame.bulk?, RespFrame.fromString, fromUtf8Lossy_toBytes]
      rfl

end Again

end Agree

end Ferrous
