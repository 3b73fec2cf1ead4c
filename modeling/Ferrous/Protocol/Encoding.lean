/-
# `Protocol.Encoding` — what is put into a write buffer

The serialiser writes into the live buffer, the header of an aggregate before
its elements, so a failure inside leaves what came before it.  `encoding` is
the complete encoding; a frame is sent all or nothing when it is the marker
itself or has no marker in it.  No frame that the parser reads has one.
-/
import Ferrous.Protocol.Feed

namespace Ferrous

open Lib

namespace RespFrame

/-! ## The complete encoding -/

/-- No frame inside is the marker. -/
def Complete (f : RespFrame) : Prop := f.Everywhere (· ≠ noResponse)

mutual

/-- The bytes of a frame on the wire; a marker has none. -/
def encoding : RespFrame → Bytes
  | simpleString bytes => line '+' bytes
  | error bytes => line '-' bytes
  | integer n => line ':' (intBytes n)
  | bulkString none => line '$' "-1".toBytes
  | bulkString (some bytes) => lengthLine '$' bytes.length ++ bytes ++ crlf
  | array none => line '*' "-1".toBytes
  | array (some frames) => lengthLine '*' frames.length ++ encodingAll frames
  | noResponse => []
  | null => line '_' []
  | boolean b => line '#' (if b then "t" else "f").toBytes
  | double x => line ',' x.toText.toBytes
  | map pairs => lengthLine '%' pairs.length ++ encodingPairs pairs
  | set elements => lengthLine '~' elements.length ++ encodingAll elements

@[inherit_doc encoding]
def encodingAll : List RespFrame → Bytes
  | [] => []
  | f :: fs => encoding f ++ encodingAll fs

@[inherit_doc encoding]
def encodingPairs : List (RespFrame × RespFrame) → Bytes
  | [] => []
  | (k, v) :: ps => encoding k ++ encoding v ++ encodingPairs ps

end

theorem andThen_of_ok {r : Bytes × Bool} (h : r.2 = true) (s : Unit → Bytes × Bool) :
    andThen r s = (r.1 ++ (s ()).1, (s ()).2) := if_pos h

theorem andThen_ok {r : Bytes × Bool} {s : Unit → Bytes × Bool} :
    (andThen r s).2 = true ↔ r.2 = true ∧ (s ()).2 = true := by
  unfold andThen
  cases hr : r.2 with
  | true => simp
  | false => simp [hr]

mutual

/-- A frame is written to its end exactly when there is no marker in it. -/
theorem serialize_ok : ∀ f : RespFrame, f.serialize.2 = true ↔ f.Complete
  | simpleString _ => by simp [serialize, Complete, Everywhere]
  | error _ => by simp [serialize, Complete, Everywhere]
  | integer _ => by simp [serialize, Complete, Everywhere]
  | bulkString none => by simp [serialize, Complete, Everywhere]
  | bulkString (some _) => by simp [serialize, Complete, Everywhere]
  | array none => by simp [serialize, Complete, Everywhere]
  | array (some frames) => by
      simp only [serialize, andThen_ok, Complete, Everywhere, serializeAll_ok frames, true_and, ne_eq,
        reduceCtorEq, not_false_eq_true]
  | noResponse => by simp [serialize, Complete, Everywhere]
  | null => by simp [serialize, Complete, Everywhere]
  | boolean _ => by simp [serialize, Complete, Everywhere]
  | double _ => by simp [serialize, Complete, Everywhere]
  | map pairs => by
      simp only [serialize, andThen_ok, Complete, Everywhere, serializePairs_ok pairs, true_and, ne_eq,
        reduceCtorEq, not_false_eq_true]
  | set elements => by
      simp only [serialize, andThen_ok, Complete, Everywhere, serializeAll_ok elements, true_and, ne_eq,
        reduceCtorEq, not_false_eq_true]

theorem serializeAll_ok : ∀ fs : List RespFrame,
    (serializeAll fs).2 = true ↔ EverywhereAll (· ≠ noResponse) fs
  | [] => by simp [serializeAll, EverywhereAll]
  | f :: fs => by
      simp only [serializeAll, andThen_ok, EverywhereAll, serialize_ok f, serializeAll_ok fs, Complete]

theorem serializePairs_ok : ∀ ps : List (RespFrame × RespFrame),
    (serializePairs ps).2 = true ↔ EverywherePairs (· ≠ noResponse) ps
  | [] => by simp [serializePairs, EverywherePairs]
  | (k, v) :: ps => by
      simp only [serializePairs, andThen_ok, EverywherePairs, serialize_ok k, serialize_ok v,
        serializePairs_ok ps, Complete]

end

mutual

/-- What is written to the end is the complete encoding. -/
theorem serialize_bytes : ∀ f : RespFrame, f.serialize.2 = true → f.serialize.1 = f.encoding
  | simpleString _, _ => by simp [serialize, encoding]
  | error _, _ => by simp [serialize, encoding]
  | integer _, _ => by simp [serialize, encoding]
  | bulkString none, _ => by simp [serialize, encoding]
  | bulkString (some _), _ => by simp [serialize, encoding]
  | array none, _ => by simp [serialize, encoding]
  | array (some frames), h => by
      rw [serialize, andThen_ok] at h
      rw [serialize, encoding, andThen_of_ok h.1, serializeAll_bytes frames h.2]
  | noResponse, h => by simp [serialize] at h
  | null, _ => by simp [serialize, encoding]
  | boolean _, _ => by simp [serialize, encoding]
  | double _, _ => by simp [serialize, encoding]
  | map pairs, h => by
      rw [serialize, andThen_ok] at h
      rw [serialize, encoding, andThen_of_ok h.1, serializePairs_bytes pairs h.2]
  | set elements, h => by
      rw [serialize, andThen_ok] at h
      rw [serialize, encoding, andThen_of_ok h.1, serializeAll_bytes elements h.2]

theorem serializeAll_bytes : ∀ fs : List RespFrame,
    (serializeAll fs).2 = true → (serializeAll fs).1 = encodingAll fs
  | [], _ => by simp [serializeAll, encodingAll]
  | f :: fs, h => by
      rw [serializeAll, andThen_ok] at h
      rw [serializeAll, encodingAll, andThen_of_ok h.1, serialize_bytes f h.1, serializeAll_bytes fs h.2]

theorem serializePairs_bytes : ∀ ps : List (RespFrame × RespFrame),
    (serializePairs ps).2 = true → (serializePairs ps).1 = encodingPairs ps
  | [], _ => by simp [serializePairs, encodingPairs]
  | (k, v) :: ps, h => by
      rw [serializePairs, andThen_ok, andThen_ok] at h
      obtain ⟨hk, hv, hps⟩ := h
      rw [serializePairs, encodingPairs, andThen_of_ok hk, andThen_of_ok hv, serialize_bytes k hk,
        serialize_bytes v hv, serializePairs_bytes ps hps, List.append_assoc]

end

/-- A line is not empty. -/
theorem line_ne_nil (tag : Char) (body : Bytes) : line tag body ≠ [] := by
  simp [line, crlf]

/-- The marker alone is refused before anything is written. -/
theorem serialize_eq_nil {f : RespFrame} (h : f.serialize.1 = []) : f = noResponse := by
  have hhead (tag : Char) (n : Nat) (s : Unit → Bytes × Bool) :
      (andThen (lengthLine tag n, true) s).1 ≠ [] := by
    simp [andThen, lengthLine, line_ne_nil]
  cases f with
  | noResponse => rfl
  | bulkString bytes =>
      cases bytes with
      | none => exact absurd h (line_ne_nil _ _)
      | some bytes => simp [serialize, lengthLine, line_ne_nil] at h
  | array frames =>
      cases frames with
      | none => exact absurd h (line_ne_nil _ _)
      | some frames => exact absurd h (hhead _ _ _)
  | map pairs => exact absurd h (hhead _ _ _)
  | set elements => exact absurd h (hhead _ _ _)
  | simpleString _ => exact absurd h (line_ne_nil _ _)
  | error _ => exact absurd h (line_ne_nil _ _)
  | integer _ => exact absurd h (line_ne_nil _ _)
  | null => exact absurd h (line_ne_nil _ _)
  | boolean _ => exact absurd h (line_ne_nil _ _)
  | double _ => exact absurd h (line_ne_nil _ _)

/-! ## Sending -/

/-- `Connection::send_frame`: the write buffer after it, and whether it succeeded. -/
def sendFrame (f : RespFrame) (buffer : Bytes) : Bytes × Bool := (buffer ++ f.serialize.1, f.serialize.2)

/-- On success the buffer has grown by the complete encoding, on failure it is
what it was. -/
def AllOrNothing (f : RespFrame) (buffer : Bytes) : Prop :=
  ((f.sendFrame buffer).2 = true → (f.sendFrame buffer).1 = buffer ++ f.encoding) ∧
    ((f.sendFrame buffer).2 = false → (f.sendFrame buffer).1 = buffer)

/-- All or nothing is written of the marker and of frames without one. -/
theorem allOrNothing_iff (f : RespFrame) (buffer : Bytes) :
    f.AllOrNothing buffer ↔ f = noResponse ∨ f.Complete := by
  have hok : (f.sendFrame buffer).2 = true ↔ f.Complete := serialize_ok f
  constructor
  · intro h
    cases hr : (f.sendFrame buffer).2 with
    | true => exact .inr (hok.mp hr)
    | false =>
        have hsame : buffer ++ f.serialize.1 = buffer := h.2 hr
        exact .inl (serialize_eq_nil (List.append_right_eq_self.mp hsame))
  · rintro (rfl | h)
    · exact ⟨nofun, fun _ => List.append_nil buffer⟩
    · have hr : f.serialize.2 = true := (serialize_ok f).mpr h
      refine ⟨fun _ => congrArg (buffer ++ ·) (serialize_bytes f hr), fun hf => ?_⟩
      rw [hok.mpr h] at hf
      cases hf

/-! ## What the parser reads -/

/-- Every frame that is read has the property. -/
def Yields {α : Type} (P : α → Prop) (r : Parsed α) : Prop := ∀ a consumed, r = .done a consumed → P a

namespace Yields

variable {α β : Type} {P : α → Prop} {P' : β → Prop}

theorem bind {r : Parsed α} {f : α → Nat → Parsed β} (h : Yields P r)
    (hf : ∀ a consumed, P a → Yields P' (f a consumed)) : Yields P' (r.bind f) := by
  cases r with
  | done a consumed => exact hf a consumed (h a consumed rfl)
  | _ => exact nofun

theorem done {a : α} {consumed : Nat} (h : P a) : Yields P (.done a consumed) := by
  rintro _ _ ⟨⟩
  exact h

theorem more : Yields P .more := by rintro _ _ ⟨⟩

theorem panic : Yields P .panic := by rintro _ _ ⟨⟩

theorem bad (complaint : String) : Yields P (RespFrame.bad complaint) := by rintro _ _ ⟨⟩

/-- Nothing is asked of what comes before. -/
theorem after {r : Parsed α} {f : α → Nat → Parsed β} (hf : ∀ a consumed, Yields P' (f a consumed)) :
    Yields P' (r.bind f) :=
  bind (P := fun _ => True) (fun _ _ _ => trivial) fun a consumed _ => hf a consumed

theorem parseMany {item : Bytes → Parsed α} (h : ∀ data, Yields P (item data)) (n : Nat) (data : Bytes) :
    Yields (fun as => ∀ a ∈ as, P a) (RespFrame.parseMany item n data) := by
  induction n generalizing data with
  | zero => exact done nofun
  | succ n ih =>
      refine (h data).bind fun a consumed ha => (ih _).bind fun as _ has => done fun x hx => ?_
      rcases List.mem_cons.mp hx with rfl | hx
      · exact ha
      · exact has x hx

theorem parsePair {item : Bytes → Parsed α} (h : ∀ data, Yields P (item data)) (data : Bytes) :
    Yields (fun p => P p.1 ∧ P p.2) (RespFrame.parsePair item data) :=
  (h data).bind fun _ _ hk => (h _).bind fun _ _ hv => done ⟨hk, hv⟩

theorem parseVec {size len header : Nat} {item : Bytes → Parsed α} (h : ∀ data, Yields P (item data))
    (data : Bytes) : Yields (fun as => ∀ a ∈ as, P a) (RespFrame.parseVec size item len header data) := by
  unfold RespFrame.parseVec
  split
  · exact (parseMany h _ _).bind fun _ _ has => done has
  · exact nofun

end Yields

theorem everywherePairs_iff {Q : RespFrame → Prop} {ps : List (RespFrame × RespFrame)} :
    EverywherePairs Q ps ↔ ∀ p ∈ ps, p.1.Everywhere Q ∧ p.2.Everywhere Q := by
  induction ps with
  | nil => simp [EverywherePairs]
  | cons p ps ih => simp [EverywherePairs, ih, and_assoc]

/-- A line is read up to the first line end. -/
theorem oneLine_of_findCrlf {xs : Bytes} {i : Nat} (h : findCrlf xs = some i) : OneLine (xs.take i) := by
  induction xs generalizing i with
  | nil => cases h
  | cons b bs ih =>
      rw [findCrlf] at h
      split at h
      · cases h
        intro hin
        cases List.infix_nil.mp hin
      · next hstart =>
          obtain ⟨j, hj, rfl⟩ := Option.map_eq_some_iff.mp h
          intro hin
          rw [List.take_succ_cons, List.infix_cons_iff] at hin
          rcases hin with hpre | hin
          · obtain ⟨rest, hrest⟩ := hpre
            obtain ⟨rfl, htail⟩ := List.cons.inj hrest
            refine hstart ⟨rfl, ?_⟩
            cases bs with
            | nil => cases htail.trans List.take_nil
            | cons c bs =>
                cases j with
                | zero => cases htail
                | succ j => exact congrArg some (List.cons.inj htail).1.symm
          · exact ih hj hin

theorem parseLine_oneLine (data : Bytes) : Yields OneLine (parseLine data) := by
  unfold parseLine
  split
  · next hi => exact .done (oneLine_of_findCrlf hi)
  · exact nofun

/-- No marker, and no line end in a line. -/
def Unbroken : RespFrame → Prop
  | simpleString bytes => OneLine bytes
  | error bytes => OneLine bytes
  | noResponse => False
  | _ => True

/-- Whatever the depth, every frame in a frame that is read is unbroken. -/
theorem parseDepth_unbroken (n : Nat) (data : Bytes) : Yields (Everywhere Unbroken) (parseDepth n data) := by
  induction n generalizing data with
  | zero => exact .more
  | succ n ih =>
      cases data with
      | nil => exact .more
      | cons b bs =>
          rw [parseDepth]
          unfold parseKind
          split
          · exact (parseLine_oneLine _).bind fun _ _ h => .done h
          · exact (parseLine_oneLine _).bind fun _ _ h => .done h
          · exact .after fun _ _ => .done trivial
          · refine .after fun len header => ?_
            split
            · exact .done trivial
            · split
              · exact .bad _
              · dsimp only
                split
                · exact .more
                · split
                  · exact .bad _
                  · exact .done trivial
          · refine .after fun len header => ?_
            split
            · exact .done trivial
            · split
              · exact .bad _
              · exact (Yields.parseVec ih _).bind fun fs _ hfs => .done (everywhere_list.mpr ⟨trivial, hfs⟩)
          · unfold parseNull
            split
            · exact .more
            · split
              · exact .done trivial
              · exact .bad _
          · unfold parseBoolean
            split
            · exact .more
            · split
              · exact .done trivial
              · split
                · exact .done trivial
                · exact .bad _
          · exact .after fun _ _ => .done trivial
          · exact .after fun len header => (Yields.parseVec (Yields.parsePair ih) _).bind fun ps _ hps =>
              .done ⟨trivial, everywherePairs_iff.mpr hps⟩
          · exact .after fun len header => (Yields.parseVec ih _).bind fun fs _ hfs =>
              .done ⟨trivial, everywhereAll_iff.mpr hfs⟩
          · exact .bad _

theorem Unbroken.ne_noResponse {f : RespFrame} (h : f.Unbroken) : f ≠ noResponse := by
  rintro rfl
  exact h

end RespFrame

/-- Every frame in a frame that the parser of a connection gives is unbroken. -/
theorem RespParser.parse_unbroken {p p' : RespParser} {f : RespFrame} (h : p.parse = (.ok (some f), p')) :
    f.Everywhere RespFrame.Unbroken := by
  unfold parse at h
  split at h
  · cases h
  · dsimp only at h
    split at h
    · cases h
    · split at h
      · cases h
        exact RespFrame.everywhere_list.mpr ⟨trivial, fun f hf => List.mem_singleton.mp hf ▸ trivial⟩
      · split at h
        · next hparse =>
            cases h
            exact RespFrame.parseDepth_unbroken _ _ _ _ hparse
        · cases h
        · cases h
        · cases h

/-- None of them is the marker. -/
theorem RespParser.parse_complete {p p' : RespParser} {f : RespFrame} (h : p.parse = (.ok (some f), p')) :
    f.Complete := (parse_unbroken h).imp fun _ hf => hf.ne_noResponse

end Ferrous
