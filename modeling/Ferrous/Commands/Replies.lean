/-
# `Commands.Replies` — what replies are made of

Handlers build their replies from bulk strings, integers, arrays and lines of
text.  A `Wording` is a property of frames that all of these have as soon as
the lines have theirs; each handler of the store then answers with frames of
that property, whatever the operations answer it.
-/
import Ferrous.Commands.Strings
import Ferrous.Commands.Collections
import Ferrous.Commands.SortedSets
import Ferrous.Commands.Groups
import Ferrous.Commands.Admin
import Ferrous.Protocol.Encoding

namespace Ferrous

open Lib Args

/-! ## Lines and frames -/

/-- No line end. -/
def plainChar (c : Char) : Bool := c != '\r' && c != '\n'

/-- A text without line ends. -/
def plainText (t : String) : Bool := t.toList.all plainChar

/-- A text is looked at character by character. -/
theorem plainText_of_chars {cs : List Char} (h : cs.all plainChar = true) :
    plainText (String.ofList cs) = true := by
  rw [plainText, String.toList_ofList, h]

theorem plainText_append {s t : String} :
    plainText (s ++ t) = true ↔ plainText s = true ∧ plainText t = true := by
  simp [plainText, String.toList_append, List.all_append]

/-- A property `L` of lines and a property `Q` of frames: plain text is such a
line, also around another, and what is no line is such a frame. -/
structure Wording (L : String → Prop) (Q : RespFrame → Prop) : Prop where
  plain : ∀ {t}, plainText t = true → L t
  wrap : ∀ {a t c}, plainText a = true → plainText c = true → L t → L (a ++ t ++ c)
  line : ∀ {t}, L t → Q (.err t)
  status : ∀ {t : String}, L t → Q (.simpleString t.toBytes)
  integer : ∀ n, Q (.integer n)
  bulk : ∀ b, Q (.bulkString b)
  array : ∀ fs, Q (.array fs)

/-- The arguments are refused with replies of the property. -/
def Refuses {α : Type} (Q : RespFrame → Prop) (args : Args α) : Prop :=
  ∀ f, args = .error f → f.Everywhere Q

namespace Refuses

variable {Q : RespFrame → Prop} {α β : Type}

theorem ok (a : α) : Refuses Q (.ok a) := nofun

theorem pure (a : α) : Refuses Q (Pure.pure a : Args α) := nofun

theorem bind {args : Args α} {f : α → Args β} (h : Refuses Q args) (hf : ∀ a, Refuses Q (f a)) :
    Refuses Q (args >>= f) := by
  cases args with
  | ok a => exact hf a
  | error e => exact fun f hf => h f (congrArg Except.error (Except.error.inj hf))

/-- What may be refused first. -/
theorem guarded {c : Prop} [Decidable c] {args : Args β} {rest : Args α} (h : Refuses Q args)
    (hrest : Refuses Q rest) : Refuses Q (if c then args >>= fun _ => rest else rest) := by
  split
  · exact h.bind fun _ => hrest
  · exact hrest

theorem map {args : Args α} (h : Refuses Q args) (f : α → β) : Refuses Q (args.map f) := by
  cases args with
  | ok a => nofun
  | error e => exact fun g hg => h g (congrArg Except.error (Except.error.inj hg))

end Refuses

/-- Arguments that are accepted meet `P`; the others are refused with replies of
the property. -/
def Fetches {α : Type} (P : α → Prop) (Q : RespFrame → Prop) : Args α → Prop
  | .ok a => P a
  | .error f => f.Everywhere Q

namespace Fetches

variable {Q : RespFrame → Prop} {α β : Type} {P : α → Prop} {P' : β → Prop}

theorem bind {args : Args α} {f : α → Args β} (h : Fetches P Q args) (hf : ∀ a, P a → Fetches P' Q (f a)) :
    Fetches P' Q (args >>= f) := by
  cases args with
  | ok a => exact hf a h
  | error e => exact h

/-- Arguments that are not looked at again. -/
theorem after {args : Args α} {f : α → Args β} (h : Refuses Q args) (hf : ∀ a, Fetches P' Q (f a)) :
    Fetches P' Q (args >>= f) := by
  cases args with
  | ok a => exact hf a
  | error e => exact h e rfl

/-- What may be refused first. -/
theorem guarded {c : Prop} [Decidable c] {args : Args α} {rest : Args β} (h : Refuses Q args)
    (hrest : Fetches P' Q rest) : Fetches P' Q (if c then args >>= fun _ => rest else rest) := by
  split
  · exact .after h fun _ => hrest
  · exact hrest

end Fetches

namespace Wording

variable {L : String → Prop} {Q : RespFrame → Prop} (W : Wording L Q) {α : Type}

include W

theorem append {a t : String} (ha : plainText a = true) (ht : L t) : L (a ++ t) := by
  have h := W.wrap (c := "") ha rfl ht
  rwa [String.append_empty] at h

theorem error {t : String} (h : L t) : (RespFrame.err t).Everywhere Q := W.line h

theorem err {cs : List Char} (h : cs.all plainChar = true) :
    (RespFrame.err (String.ofList cs)).Everywhere Q :=
  W.line (W.plain (plainText_of_chars h))

theorem statusText {cs : List Char} (h : cs.all plainChar = true) :
    (RespFrame.simpleString (String.ofList cs).toBytes).Everywhere Q :=
  W.status (W.plain (plainText_of_chars h))

theorem ok : RespFrame.ok.Everywhere Q := W.statusText rfl

theorem int (n : Int) : (RespFrame.integer n).Everywhere Q := W.integer n

theorem count (n : Nat) : (count n).Everywhere Q := W.integer n

theorem flag (b : Bool) : (RespFrame.flag b).Everywhere Q := W.integer _

theorem bytes (b : Bytes) : (RespFrame.fromBytes b).Everywhere Q := W.bulk _

theorem text (s : String) : (RespFrame.fromString s).Everywhere Q := W.bulk _

theorem nullBulk : RespFrame.nullBulk.Everywhere Q := W.bulk _

theorem nullArray : RespFrame.nullArray.Everywhere Q := W.array _

theorem optBytes (b : Option Bytes) : (RespFrame.optBytes b).Everywhere Q := by
  cases b with
  | none => exact W.nullBulk
  | some b => exact W.bytes b

theorem list {fs : List RespFrame} (h : ∀ f ∈ fs, f.Everywhere Q) : (RespFrame.list fs).Everywhere Q :=
  RespFrame.everywhere_list.mpr ⟨W.array _, h⟩

theorem listMap (g : α → RespFrame) (xs : List α) (h : ∀ x, (g x).Everywhere Q) :
    (RespFrame.list (xs.map g)).Everywhere Q := by
  refine W.list fun f hf => ?_
  obtain ⟨x, -, rfl⟩ := List.mem_map.mp hf
  exact h x

theorem items (xs : List Bytes) : (items xs).Everywhere Q := W.listMap _ _ W.bytes

/-! ### Arguments

Texts are given by their characters, so that literals are looked at one by one. -/

theorem rejectLine {msg : String} (h : L msg) : Refuses Q (Args.reject msg : Args α) :=
  fun _ hf => Except.error.inj hf ▸ W.error h

theorem reject {cs : List Char} (h : cs.all plainChar = true) :
    Refuses Q (Args.reject (String.ofList cs) : Args α) :=
  W.rejectLine (W.plain (plainText_of_chars h))

theorem arity {cs : List Char} {b : Bool} (h : cs.all plainChar = true) :
    Refuses Q (Args.arity (String.ofList cs) b) := by
  unfold Args.arity
  split
  · exact .ok ()
  · exact W.rejectLine (W.wrap (plainText_of_chars rfl) (plainText_of_chars rfl)
      (W.plain (plainText_of_chars h)))

theorem invalidFormat {cs : List Char} (h : cs.all plainChar = true) :
    L ("ERR invalid " ++ String.ofList cs ++ " format") :=
  W.wrap (plainText_of_chars rfl) (plainText_of_chars rfl) (W.plain (plainText_of_chars h))

theorem bulkArg {parts : Parts} {i : Nat} {cs : List Char} (h : cs.all plainChar = true) :
    Refuses Q (Args.bulk parts i (String.ofList cs)) := by
  unfold Args.bulk
  split
  · exact .ok _
  · exact W.rejectLine (W.invalidFormat h)

/-- A bulk string argument that is accepted is the part's. -/
theorem readsBulk {parts : Parts} {i : Nat} {cs : List Char} (h : cs.all plainChar = true) :
    Fetches (fun bytes => (parts[i]?).bind RespFrame.bulk? = some bytes) Q
      (Args.bulk parts i (String.ofList cs)) := by
  unfold Args.bulk
  split
  · next bytes hbytes => exact hbytes
  · exact W.error (W.invalidFormat h)

theorem nonEmptyKey {parts : Parts} {i : Nat} : Refuses Q (Args.nonEmptyKey parts i) := by
  refine (W.bulkArg rfl).bind fun key => ?_
  split
  · exact W.reject rfl
  · exact .ok _

theorem bulks {cs : List Char} (h : cs.all plainChar = true) (ps : Parts) :
    Refuses Q (Args.bulks (String.ofList cs) ps) := by
  induction ps with
  | nil => exact .ok _
  | cons p ps ih =>
      unfold Args.bulks
      split
      · exact ih.map _
      · exact W.rejectLine (W.invalidFormat h)

theorem numeral {read : String → Option α} {complaint cs : List Char} {parts : Parts} {i : Nat}
    (hc : complaint.all plainChar = true) (h : cs.all plainChar = true) :
    Refuses Q (Args.numeral read (String.ofList complaint) parts i (String.ofList cs)) := by
  refine (W.bulkArg h).bind fun bytes => ?_
  split
  · exact .ok _
  · exact W.reject hc

theorem intArg {parts : Parts} {i : Nat} {cs : List Char} (h : cs.all plainChar = true) :
    Refuses Q (Args.int parts i (String.ofList cs)) := W.numeral rfl h

theorem natArg {parts : Parts} {i : Nat} {cs : List Char} (h : cs.all plainChar = true) :
    Refuses Q (Args.nat parts i (String.ofList cs)) := W.numeral rfl h

theorem floatArg {complaint cs : List Char} {parts : Parts} {i : Nat}
    (hc : complaint.all plainChar = true) (h : cs.all plainChar = true) :
    Refuses Q (Args.float (String.ofList complaint) parts i (String.ofList cs)) := W.numeral hc h

end Wording

/-! ## Programs -/

/-- What the operations answer: errors and types whose texts are lines. -/
structure Answers (L : String → Prop) (A : ∀ β : Type, Op β → Except FerrousError β → Prop) :
    Prop where
  error : ∀ {β : Type} {o : Op β} {e : FerrousError}, A β o (.error e) → L e.display
  type : ∀ {db : Nat} {key : Key} {t : String}, A String (.key db key .keyType) (.ok t) → L t

/-- The program answers with frames of the property, and passes on errors whose
texts are lines. -/
def Worded (L : String → Prop) (Q : RespFrame → Prop)
    (A : ∀ β : Type, Op β → Except FerrousError β → Prop) (p : StoreProg RespFrame) : Prop :=
  p.Returns A (fun e => L e.display) (·.Everywhere Q)

namespace Worded

variable {L : String → Prop} {Q : RespFrame → Prop}
  {A : ∀ β : Type, Op β → Except FerrousError β → Prop} {α β : Type}

theorem ret {f : RespFrame} (h : f.Everywhere Q) : Worded L Q A (.ret f) := h

theorem reading {args : Args α} {body : α → StoreProg RespFrame} (h : Refuses Q args)
    (hbody : ∀ a, Worded L Q A (body a)) : Worded L Q A (Ferrous.reading args body) := by
  cases args with
  | ok a => exact hbody a
  | error f => exact h f rfl

/-- Arguments of which something is known. -/
theorem readingWith {P : α → Prop} {args : Args α} {body : α → StoreProg RespFrame}
    (h : Fetches P Q args) (hbody : ∀ a, P a → Worded L Q A (body a)) :
    Worded L Q A (Ferrous.reading args body) := by
  cases args with
  | ok a => exact hbody a h
  | error f => exact h

/-- An operation whose error is passed on, and then the rest. -/
theorem need (H : Answers L A) {o : Op β} {body : β → StoreProg RespFrame}
    (h : ∀ b, A β o (.ok b) → Worded L Q A (body b)) : Worded L Q A (Ferrous.need o >>= body) :=
  Prog.Returns.bind (Prog.Returns.perform fun _ he => H.error he) h

/-- A program whose value is looked at, whatever it is, and then the rest. -/
theorem after {p : StoreProg β} {body : β → StoreProg RespFrame}
    (hp : p.Returns A (fun e => L e.display) fun _ => True) (h : ∀ b, Worded L Q A (body b)) :
    Worded L Q A (p >>= body) :=
  Prog.Returns.bind hp fun b _ => h b

theorem answering (W : Wording L Q) (onError : OnError) {render : α → RespFrame}
    {r : Except FerrousError α} (h : ∀ e, r = .error e → L e.display)
    (hr : ∀ a, r = .ok a → (render a).Everywhere Q) :
    Worded L Q A (Ferrous.answering onError render r) := by
  cases r with
  | ok a => exact hr a rfl
  | error e =>
      have hline := h e rfl
      have hframe : ∀ reply, onError.frame e = some reply → reply.Everywhere Q := by
        intro reply hreply
        cases onError with
        | raise => cases hreply
        | replyText => exact Option.some.inj hreply ▸ W.error hline
        | replyErr => exact Option.some.inj hreply ▸ W.error (W.append (plainText_of_chars rfl) hline)
        | reply =>
            unfold OnError.frame at hreply
            split at hreply
            · exact Option.some.inj hreply ▸ W.err rfl
            · exact Option.some.inj hreply ▸ W.error (W.append (plainText_of_chars rfl) hline)
            · cases ‹OnError.reply = OnError.replyErr›
            · cases ‹OnError.reply = OnError.replyText›
            · cases ‹OnError.reply = OnError.raise›
      simp only [Ferrous.answering]
      split
      · next reply hreply => exact hframe reply hreply
      · exact hline

/-- The handlers of one operation. -/
theorem calling (W : Wording L Q) (H : Answers L A) {onError : OnError} {o : Op α}
    {render : α → RespFrame} (h : ∀ a, A α o (.ok a) → (render a).Everywhere Q) :
    Worded L Q A (Ferrous.calling onError o render) :=
  fun _ hr => answering W onError (fun _ he => H.error (he ▸ hr)) fun a ha => h a (ha ▸ hr)

theorem onKey (W : Wording L Q) (H : Answers L A) {onError : OnError} {db : Nat} {key : Key}
    {c : KeyCmd α} {render : α → RespFrame}
    (h : ∀ a, (render a).Everywhere Q) : Worded L Q A (Ferrous.onKey onError db key c render) :=
  calling W H fun a _ => h a

theorem keyed (W : Wording L Q) (H : Answers L A) {cmd : List Char} {onError : OnError} {c : KeyCmd α}
    {render : α → RespFrame} {db : Nat} {parts : Parts} (hcmd : cmd.all plainChar = true)
    (h : ∀ a, (render a).Everywhere Q) :
    Worded L Q A (Ferrous.keyed (String.ofList cmd) onError c render db parts) :=
  reading ((W.arity hcmd).bind fun _ => W.bulkArg rfl) fun _ => onKey W H h

end Worded

section Handlers

variable {L : String → Prop} {Q : RespFrame → Prop}
  {A : ∀ β : Type, Op β → Except FerrousError β → Prop} (W : Wording L Q) (H : Answers L A)
  {db : Nat} (parts : Parts)

include W H

/-! ## Strings and keys -/

omit H in
theorem refuses_setOptions (ps : Parts) (o : SetOptions) : Refuses Q (setOptions ps o) := by
  fun_induction setOptions ps o
  all_goals first
    | exact .ok _
    | exact W.reject rfl
    | assumption

theorem worded_handleSet : Worded L Q A (handleSet db parts) := by
  refine .reading ((W.arity rfl).bind fun _ => W.nonEmptyKey.bind fun _ => (W.bulkArg rfl).bind fun _ =>
    (refuses_setOptions W _ _).bind fun _ => .pure _) fun ⟨key, value, o⟩ => ?_
  have hstored (b : Bool) : (if b then RespFrame.ok else RespFrame.nullBulk).Everywhere Q := by
    cases b with
    | true => exact W.ok
    | false => exact W.nullBulk
  dsimp only
  split
  · split
    · exact .onKey W H hstored
    · exact .onKey W H hstored
  · split
    · refine .need H fun there _ => ?_
      split
      · exact .onKey W H fun _ => W.ok
      · exact .ret W.nullBulk
    · exact .onKey W H fun _ => W.ok

theorem worded_handleGet : Worded L Q A (handleGet db parts) :=
  .reading ((W.arity rfl).bind fun _ => W.nonEmptyKey) fun _ => .onKey W H W.optBytes

theorem worded_mgetLoop (ps : Parts) (values : List RespFrame) (h : ∀ f ∈ values, f.Everywhere Q) :
    Worded L Q A (mgetLoop db ps values) := by
  induction ps generalizing values with
  | nil => exact .ret (W.list h)
  | cons p ps ih =>
      refine .reading (W.bulkArg rfl) fun key => .need H fun value _ => ih _ fun f hf => ?_
      rcases List.mem_append.mp hf with hf | hf
      · exact h f hf
      · exact List.mem_singleton.mp hf ▸ W.optBytes value

theorem worded_handleMget : Worded L Q A (handleMget db parts) :=
  .reading (W.arity rfl) fun _ => worded_mgetLoop W H _ _ nofun

theorem worded_msetLoop (ps : Parts) : Worded L Q A (msetLoop db ps) := by
  induction ps using msetLoop.induct with
  | case1 k v ps ih =>
      rw [msetLoop]
      exact .reading ((W.bulkArg rfl).bind fun _ => (W.bulkArg rfl).bind fun _ => .pure _) fun _ =>
        .need H fun _ _ => ih
  | case2 ps h =>
      rw [msetLoop]
      · exact .ret W.ok
      · exact h

theorem worded_handleMset : Worded L Q A (handleMset db parts) :=
  .reading (W.arity rfl) fun _ => worded_msetLoop W H _

theorem worded_handleGetset : Worded L Q A (handleGetset db parts) :=
  .reading ((W.arity rfl).bind fun _ => (W.bulkArg rfl).bind fun _ => (W.bulkArg rfl).bind fun _ => .pure _) fun _ =>
    .need H fun old _ => .onKey W H fun _ => W.optBytes old

theorem worded_handleSetnx : Worded L Q A (handleSetnx db parts) := by
  refine .reading ((W.arity rfl).bind fun _ => (W.bulkArg rfl).bind fun _ => (W.bulkArg rfl).bind fun _ => .pure _)
    fun _ => .need H fun there _ => ?_
  split
  · exact .ret (W.int 0)
  · exact .onKey W H fun _ => W.int 1

theorem worded_setWithExpiry {cmd : List Char} (hcmd : cmd.all plainChar = true) (unit : Nat → Duration) :
    Worded L Q A (setWithExpiry (String.ofList cmd) unit db parts) :=
  .reading ((W.arity hcmd).bind fun _ => (W.bulkArg rfl).bind fun _ => (W.natArg rfl).bind fun _ =>
    (W.bulkArg rfl).bind fun _ => .pure _) fun _ => .onKey W H fun _ => W.ok

theorem worded_handleAppend : Worded L Q A (handleAppend db parts) :=
  .reading ((W.arity rfl).bind fun _ => (W.bulkArg rfl).bind fun _ => (W.bulkArg rfl).bind fun _ => .pure _) fun _ =>
    .onKey W H W.count

theorem worded_handleGetrange : Worded L Q A (handleGetrange db parts) :=
  .reading ((W.arity rfl).bind fun _ => (W.bulkArg rfl).bind fun _ => (W.intArg rfl).bind fun _ =>
    (W.intArg rfl).bind fun _ => .pure _) fun _ => .onKey W H W.bytes

theorem worded_handleSetrange : Worded L Q A (handleSetrange db parts) :=
  .reading ((W.arity rfl).bind fun _ => (W.bulkArg rfl).bind fun _ => (W.natArg rfl).bind fun _ =>
    (W.bulkArg rfl).bind fun _ => .pure _) fun _ => .onKey W H W.count

theorem worded_stepBy {cmd : List Char} (hcmd : cmd.all plainChar = true)
    {keyArg : Parts → Nat → Args Bytes} (hkey : ∀ i, Refuses Q (keyArg parts i)) (n : Int) :
    Worded L Q A (stepBy (String.ofList cmd) keyArg n db parts) :=
  .reading ((W.arity hcmd).bind fun _ => hkey 1) fun _ => .onKey W H W.int

theorem worded_handleIncrby : Worded L Q A (handleIncrby db parts) :=
  .reading ((W.arity rfl).bind fun _ => W.nonEmptyKey.bind fun _ => (W.intArg rfl).bind fun _ => .pure _)
    fun _ => .onKey W H W.int

theorem worded_handleDecrby (overflowChecks : Bool) :
    Worded L Q A (handleDecrby overflowChecks db parts) := by
  refine .reading ((W.arity rfl).bind fun _ => (W.bulkArg rfl).bind fun _ => (W.intArg rfl).bind fun _ => .pure _)
    fun ⟨key, n⟩ => ?_
  dsimp only
  split
  · trivial
  · exact .onKey W H W.int

theorem worded_countKeys (c : KeyCmd Bool) (ps : Parts) (n : Nat) :
    Worded L Q A (countKeys c db ps n) := by
  induction ps generalizing n with
  | nil => exact .ret (W.count n)
  | cons p ps ih =>
      rw [countKeys]
      split
      · exact ih n
      · exact .need H fun yes _ => ih _

theorem worded_handleExpire : Worded L Q A (handleExpire db parts) := by
  refine .reading ((W.arity rfl).bind fun _ => (W.bulkArg rfl).bind fun _ => (W.intArg rfl).bind fun _ => .pure _)
    fun ⟨key, seconds⟩ => ?_
  dsimp only
  split
  · exact .onKey W H W.flag
  · exact .onKey W H W.flag

theorem worded_handlePexpire : Worded L Q A (handlePexpire db parts) :=
  .reading ((W.arity rfl).bind fun _ => (W.bulkArg rfl).bind fun _ => (W.natArg rfl).bind fun _ => .pure _) fun _ =>
    .onKey W H W.flag

theorem worded_handleTtl : Worded L Q A (handleTtl db parts) := by
  refine .reading ((W.arity rfl).bind fun _ => (W.bulkArg rfl)) fun key => .need H fun left _ => ?_
  cases left with
  | some d => exact .ret (W.int _)
  | none => exact .onKey W H fun _ => W.int _

theorem worded_handleType : Worded L Q A (handleType db parts) :=
  .reading ((W.arity rfl).bind fun _ => (W.bulkArg rfl)) fun _ => .calling W H fun _ ha => W.status (H.type ha)

theorem worded_handleRename : Worded L Q A (handleRename db parts) :=
  .reading ((W.arity rfl).bind fun _ => (W.bulkArg rfl).bind fun _ => (W.bulkArg rfl).bind fun _ => .pure _) fun _ =>
    .calling W H fun _ _ => W.ok

theorem worded_handleRenamenx : Worded L Q A (handleRenamenx db parts) := by
  refine .reading ((W.arity rfl).bind fun _ => (W.bulkArg rfl).bind fun _ => (W.bulkArg rfl).bind fun _ => .pure _)
    fun ⟨old, new⟩ => .need H fun there _ => ?_
  split
  · exact .ret (W.err rfl)
  · refine .need H fun taken _ => ?_
    split
    · exact .ret (W.int 0)
    · exact .calling W H fun _ _ => W.int 1

/-! ## Databases -/

theorem worded_handleKeys : Worded L Q A (handleKeys db parts) :=
  .reading ((W.arity rfl).bind fun _ => (W.bulkArg rfl)) fun _ => .calling W H fun ks _ => W.items ks

theorem worded_handleDbsize : Worded L Q A (handleDbsize db parts) :=
  .reading (W.arity rfl) fun _ => .calling W H fun _ _ => W.count _

theorem worded_handleRandomkey : Worded L Q A (handleRandomkey db parts) := by
  refine .reading (W.arity rfl) fun _ => .need H fun ks _ => ?_
  split
  · exact .ret W.nullBulk
  · exact .need H fun i _ => .ret (W.optBytes _)

theorem worded_handleFlushdb : Worded L Q A (handleFlushdb db parts) :=
  .reading (W.arity rfl) fun _ => .calling W H fun _ _ => W.ok

theorem worded_flushFrom (db n : Nat) : Worded L Q A (flushFrom db n) := by
  induction n generalizing db with
  | zero => exact .ret W.ok
  | succ n ih =>
      intro r hr
      cases r with
      | ok _ => exact ih (db + 1)
      | error e => exact W.error (W.append (plainText_of_chars rfl) (H.error hr))

theorem worded_handleFlushall : Worded L Q A (handleFlushall parts) :=
  .reading (W.arity rfl) fun _ => .need H fun n _ => worded_flushFrom W H 0 n

omit H in
theorem everywhere_handlePing (h : ∀ p ∈ parts, p.Everywhere Q) : (handlePing parts).Everywhere Q := by
  unfold handlePing
  cases hp : parts[1]? with
  | none => exact W.statusText rfl
  | some p => exact h p (List.mem_of_getElem? hp)

omit H in
theorem everywhere_handleEcho (h : ∀ p ∈ parts, p.Everywhere Q) : (handleEcho parts).Everywhere Q := by
  unfold handleEcho
  split
  · next p => exact h p (by simp)
  · exact (W.err rfl)

/-! ## Lists, sets and hashes -/

omit H in
theorem refuses_keyAndAll {cmd what : List Char} (hcmd : cmd.all plainChar = true)
    (hwhat : what.all plainChar = true) :
    Refuses Q (keyAndAll (String.ofList cmd) (String.ofList what) parts) :=
  (W.arity hcmd).bind fun _ => (W.bulkArg rfl).bind fun _ => (W.bulks hwhat _).bind fun _ => .pure _

omit H in
theorem refuses_keyAndSome {cmd : List Char} (hcmd : cmd.all plainChar = true) :
    Refuses Q (keyAndSome (String.ofList cmd) parts) :=
  (W.arity hcmd).bind fun _ => (W.bulkArg rfl).bind fun _ => .pure _

omit H in
theorem refuses_keyAndOne {cmd what : List Char} (hcmd : cmd.all plainChar = true)
    (hwhat : what.all plainChar = true) :
    Refuses Q (keyAndOne (String.ofList cmd) (String.ofList what) parts) :=
  (W.arity hcmd).bind fun _ => (W.bulkArg rfl).bind fun _ => (W.bulkArg hwhat).bind fun _ => .pure _

omit H in
theorem refuses_keyAndRange {cmd : List Char} (hcmd : cmd.all plainChar = true) :
    Refuses Q (keyAndRange (String.ofList cmd) parts) :=
  (W.arity hcmd).bind fun _ => (W.bulkArg rfl).bind fun _ => (W.intArg rfl).bind fun _ =>
    (W.intArg rfl).bind fun _ => .pure _

theorem worded_pushing {cmd : List Char} (hcmd : cmd.all plainChar = true)
    (c : List Bytes → KeyCmd Nat) : Worded L Q A (pushing (String.ofList cmd) c db parts) :=
  .reading (refuses_keyAndAll W parts hcmd rfl) fun _ => .onKey W H W.count

theorem worded_handleLrange : Worded L Q A (handleLrange db parts) :=
  .reading (refuses_keyAndRange W parts rfl) fun _ => .onKey W H W.items

theorem worded_handleLindex : Worded L Q A (handleLindex db parts) :=
  .reading ((W.arity rfl).bind fun _ => (W.bulkArg rfl).bind fun _ => (W.intArg rfl).bind fun _ =>
    .pure _) fun _ => .onKey W H W.optBytes

theorem worded_handleLset : Worded L Q A (handleLset db parts) :=
  .reading ((W.arity rfl).bind fun _ => (W.bulkArg rfl).bind fun _ => (W.intArg rfl).bind fun _ =>
    (W.bulkArg rfl).bind fun _ => .pure _) fun _ => .onKey W H fun _ => W.ok

theorem worded_handleLtrim : Worded L Q A (handleLtrim db parts) :=
  .reading (refuses_keyAndRange W parts rfl) fun _ => .onKey W H fun _ => W.ok

theorem worded_handleLrem : Worded L Q A (handleLrem db parts) :=
  .reading ((W.arity rfl).bind fun _ => (W.bulkArg rfl).bind fun _ => (W.intArg rfl).bind fun _ =>
    (W.bulkArg rfl).bind fun _ => .pure _) fun _ => .onKey W H W.count

theorem worded_handleSadd : Worded L Q A (handleSadd db parts) :=
  .reading (refuses_keyAndAll W parts rfl rfl) fun _ => .onKey W H W.count

theorem worded_handleSrem : Worded L Q A (handleSrem db parts) :=
  .reading (refuses_keyAndSome W parts rfl) fun _ => .onKey W H W.count

theorem worded_handleSismember : Worded L Q A (handleSismember db parts) :=
  .reading (refuses_keyAndOne W parts rfl rfl) fun _ => .onKey W H W.flag

theorem worded_combining {cmd : List Char} (hcmd : cmd.all plainChar = true)
    (c : Nat → List Key → StoreCmd (List Bytes)) :
    Worded L Q A (combining (String.ofList cmd) c db parts) :=
  .reading ((W.arity hcmd).bind fun _ => W.bulks rfl _) fun _ => .calling W H fun ms _ => W.items ms

theorem worded_handleSrandmember : Worded L Q A (handleSrandmember db parts) := by
  refine .reading ((W.arity rfl).bind fun _ => (W.bulkArg rfl).bind fun _ => ?_) fun ⟨key, n⟩ => ?_
  · dsimp only
    split
    · exact ((W.intArg rfl).map _).bind fun _ => .pure _
    · exact .pure _
  · cases n with
    | none => exact .onKey W H fun ms => W.optBytes _
    | some n => exact .onKey W H W.items

theorem worded_handleSpop : Worded L Q A (handleSpop db parts) := by
  refine .reading ((W.arity rfl).bind fun _ => (W.bulkArg rfl).bind fun _ => ?_)
    fun ⟨key, n⟩ => .onKey W H fun ms => ?_
  · dsimp only
    split
    · exact (W.natArg rfl).bind fun _ => .pure _
    · exact .pure _
  · split
    · exact W.optBytes _
    · exact W.items ms

omit H in
theorem refuses_fieldValues (ps : Parts) : Refuses Q (fieldValues ps) := by
  induction ps using fieldValues.induct with
  | case1 f v ps ih =>
      rw [fieldValues]
      exact (W.bulkArg rfl).bind fun _ => (W.bulkArg rfl).bind fun _ => ih.bind fun _ => .pure _
  | case2 ps h =>
      rw [fieldValues]
      · exact .ok _
      · exact h

theorem worded_settingFields {cmd : List Char} (hcmd : cmd.all plainChar = true)
    {render : Nat → RespFrame} (hr : ∀ n, (render n).Everywhere Q) :
    Worded L Q A (settingFields (String.ofList cmd) render db parts) :=
  .reading ((W.arity hcmd).bind fun _ => (W.bulkArg rfl).bind fun _ =>
    (refuses_fieldValues W _).bind fun _ => .pure _) fun _ => .onKey W H hr

theorem worded_handleHget : Worded L Q A (handleHget db parts) :=
  .reading (refuses_keyAndOne W parts rfl rfl) fun _ => .onKey W H W.optBytes

theorem worded_handleHmget : Worded L Q A (handleHmget db parts) :=
  .reading (refuses_keyAndAll W parts rfl rfl) fun _ => .onKey W H fun _ => W.listMap _ _ W.optBytes

theorem worded_handleHdel : Worded L Q A (handleHdel db parts) :=
  .reading (refuses_keyAndSome W parts rfl) fun _ => .onKey W H W.count

theorem worded_handleHexists : Worded L Q A (handleHexists db parts) :=
  .reading (refuses_keyAndOne W parts rfl rfl) fun _ => .onKey W H W.flag

theorem worded_handleHincrby : Worded L Q A (handleHincrby db parts) :=
  .reading ((W.arity rfl).bind fun _ => (W.bulkArg rfl).bind fun _ => (W.bulkArg rfl).bind fun _ =>
    (W.intArg rfl).bind fun _ => .pure _) fun _ => .onKey W H W.int

/-! ## Sorted sets -/

omit H in
theorem everywhere_memberFrames (scores : Bool) (ms : List (Bytes × Float64)) :
    (memberFrames scores ms).Everywhere Q := by
  refine W.list fun f hf => ?_
  obtain ⟨m, -, hm⟩ := List.mem_flatMap.mp hf
  split at hm
  · rcases List.mem_cons.mp hm with rfl | hm
    · exact W.bytes m.1
    · exact List.mem_singleton.mp hm ▸ W.text _
  · exact List.mem_singleton.mp hm ▸ W.bytes m.1

theorem worded_zaddLoop (key : Key) (ps : Parts) (added : Nat) :
    Worded L Q A (zaddLoop db key ps added) := by
  induction ps, added using zaddLoop.induct with
  | case1 s m ps added ih =>
      rw [zaddLoop]
      exact .reading ((W.floatArg rfl rfl).bind fun _ => (W.bulkArg rfl).bind fun _ => .pure _)
        fun _ => .need H fun new _ => ih new
  | case2 ps added h =>
      rw [zaddLoop]
      · exact .ret (W.count added)
      · exact h

theorem worded_handleZadd : Worded L Q A (handleZadd db parts) :=
  .reading ((W.arity rfl).bind fun _ => W.bulkArg rfl) fun key => worded_zaddLoop W H key _ 0

theorem worded_zremLoop (key : Key) (ps : Parts) (removed : Nat) :
    Worded L Q A (zremLoop db key ps removed) := by
  induction ps generalizing removed with
  | nil => exact .ret (W.count removed)
  | cons p ps ih =>
      rw [zremLoop]
      split
      · exact ih removed
      · exact .need H fun gone _ => ih _

theorem worded_handleZrem : Worded L Q A (handleZrem db parts) :=
  .reading ((W.arity rfl).bind fun _ => W.bulkArg rfl) fun key => worded_zremLoop W H key _ 0

omit H in
theorem refuses_keyAndMember {cmd : List Char} (hcmd : cmd.all plainChar = true) :
    Refuses Q (keyAndMember (String.ofList cmd) parts) :=
  (W.arity hcmd).bind fun _ => (W.bulkArg rfl).bind fun _ => (W.bulkArg rfl).bind fun _ => .pure _

theorem worded_handleZscore : Worded L Q A (handleZscore db parts) := by
  refine .reading (refuses_keyAndMember W parts rfl) fun _ => .onKey W H fun score => ?_
  cases score with
  | none => exact W.nullBulk
  | some x => exact W.text _

theorem worded_ranking {cmd : List Char} (hcmd : cmd.all plainChar = true) (reverse : Bool) :
    Worded L Q A (ranking (String.ofList cmd) reverse db parts) := by
  refine .reading (refuses_keyAndMember W parts hcmd) fun _ => .onKey W H fun rank => ?_
  cases rank with
  | none => exact W.nullBulk
  | some n => exact W.count n

theorem worded_rangeByIndex {cmd : List Char} (hcmd : cmd.all plainChar = true) (reverse : Bool) :
    Worded L Q A (rangeByIndex (String.ofList cmd) reverse db parts) :=
  .reading ((W.arity hcmd).bind fun _ => (W.bulkArg rfl).bind fun _ => (W.intArg rfl).bind fun _ =>
    (W.intArg rfl).bind fun _ => .pure _) fun _ => .onKey W H (everywhere_memberFrames W _)

theorem worded_handleZrangebyscore : Worded L Q A (handleZrangebyscore db parts) :=
  .reading ((W.arity rfl).bind fun _ => (W.bulkArg rfl).bind fun _ => (W.floatArg rfl rfl).bind fun _ =>
    (W.floatArg rfl rfl).bind fun _ => .pure _) fun _ => .onKey W H (everywhere_memberFrames W _)

theorem worded_handleZrevrangebyscore : Worded L Q A (handleZrevrangebyscore db parts) :=
  .reading ((W.arity rfl).bind fun _ => (W.bulkArg rfl).bind fun _ => (W.floatArg rfl rfl).bind fun _ =>
    (W.floatArg rfl rfl).bind fun _ => .pure _) fun _ => .onKey W H (everywhere_memberFrames W _)

theorem worded_handleZcount : Worded L Q A (handleZcount db parts) :=
  .reading ((W.arity rfl).bind fun _ => (W.bulkArg rfl).bind fun _ => (W.floatArg rfl rfl).bind fun _ =>
    (W.floatArg rfl rfl).bind fun _ => .pure _) fun _ => .onKey W H W.count

theorem worded_handleZincrby : Worded L Q A (handleZincrby db parts) :=
  .reading ((W.arity rfl).bind fun _ => (W.bulkArg rfl).bind fun _ => (W.floatArg rfl rfl).bind fun _ =>
    (W.bulkArg rfl).bind fun _ => .pure _) fun _ => .onKey W H fun _ => W.text _

omit H in
theorem everywhere_popped {results : List RespFrame} (h : ∀ f ∈ results, f.Everywhere Q) :
    (popped results).Everywhere Q := by
  unfold popped
  split
  · exact W.nullArray
  · exact W.list h

theorem worded_popLoop (key : Key) (position : Int) (n : Nat) (results : List RespFrame)
    (h : ∀ f ∈ results, f.Everywhere Q) : Worded L Q A (popLoop db key position n results) := by
  induction n generalizing results with
  | zero => exact .ret (everywhere_popped W h)
  | succ n ih =>
      refine .need H fun members _ => ?_
      split
      · exact .ret (everywhere_popped W h)
      · next member score _ =>
          refine .need H fun gone _ => ih _ fun f hf => ?_
          split at hf
          · rcases List.mem_append.mp hf with hf | hf
            · exact h f hf
            · rcases List.mem_cons.mp hf with rfl | hf
              · exact W.bytes member
              · exact List.mem_singleton.mp hf ▸ W.text _
          · exact h f hf

theorem worded_popping {cmd : List Char} (hcmd : cmd.all plainChar = true) (position : Int) :
    Worded L Q A (popping (String.ofList cmd) position db parts) := by
  refine .reading ((W.arity hcmd).bind fun _ => (W.bulkArg rfl).bind fun _ => ?_)
    fun ⟨key, n⟩ => worded_popLoop W H key position n [] nofun
  dsimp only
  split
  · exact (W.natArg rfl).bind fun _ => .pure _
  · exact .pure _

/-! ## SCAN -/

omit H in
theorem refuses_scanOptions (knowsType knowsNoValues : Bool) (ps : Parts) (o : ScanOptions) :
    Refuses Q (scanOptions knowsType knowsNoValues ps o) := by
  fun_induction scanOptions knowsType knowsNoValues ps o
  all_goals first
    | exact .ok _
    | exact W.reject rfl
    | assumption

omit H in
theorem everywhere_pageFrame (next : Nat) {page : RespFrame} (h : page.Everywhere Q) :
    (pageFrame next page).Everywhere Q := by
  refine W.list fun f hf => ?_
  rcases List.mem_cons.mp hf with rfl | hf
  · exact W.text _
  · exact List.mem_singleton.mp hf ▸ h

theorem worded_handleScan : Worded L Q A (handleScan db parts) :=
  .reading ((W.arity rfl).bind fun _ => (W.numeral rfl rfl).bind fun _ =>
    (refuses_scanOptions W _ _ _ _).bind fun _ => .pure _) fun _ =>
      .calling W H fun r _ => everywhere_pageFrame W _ (W.items r.2)

theorem worded_scanningKey {α : Type} {cmd : List Char} (hcmd : cmd.all plainChar = true)
    (knowsNoValues : Bool) (c : Nat → ScanOptions → KeyCmd (Nat × α)) {render : α → RespFrame}
    (hr : ∀ a, (render a).Everywhere Q) :
    Worded L Q A (scanningKey (String.ofList cmd) knowsNoValues c render db parts) :=
  .reading ((W.arity hcmd).bind fun _ => (W.bulkArg rfl).bind fun _ => (W.numeral rfl rfl).bind fun _ =>
    (refuses_scanOptions W _ _ _ _).bind fun _ => .pure _) fun _ =>
      .onKey W H fun r => everywhere_pageFrame W _ (hr r.2)

/-! ## Streams -/

omit H in
theorem refuses_idArgs {complaint : List Char} (hc : complaint.all plainChar = true) (ps : Parts) :
    Refuses Q (idArgs (String.ofList complaint) ps) := by
  induction ps with
  | nil => exact .ok _
  | cons p ps ih => exact (W.numeral hc rfl).bind fun _ => ih.bind fun _ => .pure _

omit H in
theorem everywhere_entryFrame (e : StreamEntry) : (entryFrame e).Everywhere Q := by
  refine W.list fun f hf => ?_
  rcases List.mem_cons.mp hf with rfl | hf
  · exact W.text _
  · exact List.mem_singleton.mp hf ▸ W.items _

omit H in
theorem everywhere_entriesFrame (es : List StreamEntry) : (entriesFrame es).Everywhere Q :=
  W.listMap _ _ (everywhere_entryFrame W)

omit H in
theorem everywhere_streamFrame (key : Key) (es : List StreamEntry) :
    (streamFrame key es).Everywhere Q := by
  refine W.list fun f hf => ?_
  rcases List.mem_cons.mp hf with rfl | hf
  · exact W.bytes key
  · exact List.mem_singleton.mp hf ▸ everywhere_entriesFrame W es

omit H in
theorem refuses_fieldArgs (ps : Parts) (fields : Map Bytes Bytes) : Refuses Q (fieldArgs ps fields) := by
  induction ps, fields using fieldArgs.induct with
  | case1 f v ps fields ih =>
      rw [fieldArgs]
      exact (W.bulkArg rfl).bind fun _ => (W.bulkArg rfl).bind fun _ => ih _ _
  | case2 ps fields h =>
      rw [fieldArgs]
      · exact .ok _
      · exact h

theorem worded_handleXadd : Worded L Q A (handleXadd db parts) := by
  refine .reading ((W.arity rfl).bind fun _ => (W.bulkArg rfl).bind fun _ => (W.bulkArg rfl).bind fun _ =>
    (refuses_fieldArgs W _ _).bind fun _ => .pure _) fun ⟨key, id, fields⟩ => ?_
  dsimp only
  split
  · exact .onKey W H fun i => W.text _
  · split
    · exact .ret (W.err rfl)
    · split
      · exact .ret (W.err rfl)
      · intro r hr
        cases r with
        | ok i => exact W.text _
        | error e =>
            change (xaddError e).Everywhere Q
            unfold xaddError
            split
            · exact W.err rfl
            · exact W.error (W.append (plainText_of_chars rfl) (H.error hr))

omit H in
theorem refuses_idArg {special : List (String × StreamId)} {complaint what : List Char} {i : Nat}
    (hc : complaint.all plainChar = true) (h : what.all plainChar = true) :
    Refuses Q (idArg special (String.ofList complaint) parts i (String.ofList what)) := W.numeral hc h

omit H in
theorem refuses_startArg (i : Nat) : Refuses Q (startArg parts i) := by
  unfold startArg invalidStreamId
  exact refuses_idArg W parts rfl rfl

omit H in
theorem refuses_endArg (i : Nat) : Refuses Q (endArg parts i) := by
  unfold endArg invalidStreamId
  exact refuses_idArg W parts rfl rfl

omit H in
theorem refuses_rangeCount : Refuses Q (rangeCount parts) := by
  unfold rangeCount
  split
  · exact (W.natArg rfl).map _
  · exact .ok _

theorem worded_handleXrange : Worded L Q A (handleXrange db parts) :=
  .reading ((W.arity rfl).bind fun _ => (W.bulkArg rfl).bind fun _ =>
    (refuses_startArg W parts 2).bind fun _ => (refuses_endArg W parts 3).bind fun _ =>
    (refuses_rangeCount W parts).bind fun _ => .pure _) fun _ =>
      .onKey W H (everywhere_entriesFrame W)

theorem worded_handleXrevrange : Worded L Q A (handleXrevrange db parts) := by
  refine .reading ((W.arity rfl).bind fun _ => (W.bulkArg rfl).bind fun _ =>
    (refuses_endArg W parts 2).bind fun _ => (refuses_startArg W parts 3).bind fun _ => ?_)
    fun _ => .onKey W H (everywhere_entriesFrame W)
  dsimp only
  split
  · exact .bind (.ok _) fun _ => .pure _
  · exact (refuses_rangeCount W parts).bind fun _ => .pure _

omit H in
theorem refuses_xreadOptions (ps : Parts) (n : Option Nat) : Refuses Q (xreadOptions ps n) := by
  fun_induction xreadOptions ps n
  all_goals first
    | exact .ok _
    | exact W.reject rfl
    | assumption

omit H in
theorem refuses_keysAndIds {unbalanced : String} (h : L unbalanced) (rest : Parts) :
    Refuses Q (keysAndIds unbalanced rest) := by
  unfold keysAndIds
  split
  · exact W.reject rfl
  · split
    · exact W.rejectLine h
    · exact .ok _

theorem worded_xreadLoop (n : Option Nat) (pairs : List (RespFrame × RespFrame))
    (acc : List (Key × StreamId)) : Worded L Q A (xreadLoop db n pairs acc) := by
  induction pairs generalizing acc with
  | nil => exact .calling W H fun rs _ => W.listMap _ _ fun r => everywhere_streamFrame W r.1 r.2
  | cons p pairs ih =>
      rw [xreadLoop]
      refine .reading ((W.bulkArg rfl).bind fun _ => (W.bulkArg rfl).bind fun _ => .pure _)
        fun ⟨key, id⟩ => ?_
      dsimp only
      split
      · exact .need H fun all _ => ih _
      · split
        · exact ih _
        · split
          · exact ih _
          · exact .ret (W.err rfl)

theorem worded_handleXread : Worded L Q A (handleXread db parts) :=
  .reading ((W.arity rfl).bind fun _ => (refuses_xreadOptions W _ _).bind fun _ =>
    (refuses_keysAndIds W (W.append (plainText_of_chars rfl) (W.plain (plainText_of_chars rfl))) _).bind
      fun _ => .pure _) fun _ => worded_xreadLoop W H _ _ _

omit H in
/-- A number that may be missing. -/
theorem refuses_numberOr (o : Option Nat) : Refuses Q
    (match o with
      | some n => (.ok n : Args Nat)
      | none => Args.reject notInteger) := by
  cases o with
  | none => exact W.reject rfl
  | some n => exact .ok n

omit H in
theorem refuses_maxLenArg : Refuses Q (maxLenArg parts) := by
  unfold maxLenArg
  dsimp only
  split
  · split
    · exact refuses_numberOr W _
    · split
      · exact .ok _
      · exact W.reject rfl
  · split
    · split
      · exact W.reject rfl
      · exact refuses_numberOr W _
    · exact W.reject rfl

theorem worded_handleXtrim : Worded L Q A (handleXtrim db parts) := by
  refine .reading ((W.arity rfl).bind fun _ => (W.bulkArg rfl).bind fun _ => (W.bulkArg rfl).bind fun _ =>
    ?_) fun _ => .onKey W H W.count
  dsimp only
  split
  · exact (W.reject rfl).bind fun _ => (refuses_maxLenArg W parts).bind fun _ => .pure _
  · exact (refuses_maxLenArg W parts).bind fun _ => .pure _

theorem worded_handleXdel : Worded L Q A (handleXdel db parts) :=
  .reading ((W.arity rfl).bind fun _ => (W.bulkArg rfl).bind fun _ =>
    (refuses_idArgs W rfl _).bind fun _ => .pure _) fun _ => .onKey W H W.count

/-! ## The server

The interpreter and the process answer for themselves. -/

omit H in
theorem worded_handleSleep : Worded L Q A (handleSleep parts) :=
  .reading ((W.arity rfl).bind fun _ => W.natArg rfl) fun _ => .ret W.ok

omit H in
theorem everywhere_configGet (param : String) : (configGet param).Everywhere Q := by
  have hpairs (ps : List (String × String)) :
      (RespFrame.list (ps.flatMap fun p => [.fromString p.1, .fromString p.2])).Everywhere Q := by
    refine W.list fun f hf => ?_
    obtain ⟨p, -, hp⟩ := List.mem_flatMap.mp hf
    rcases List.mem_cons.mp hp with rfl | hp
    · exact W.text _
    · exact List.mem_singleton.mp hp ▸ W.text _
  unfold configGet
  dsimp only
  split
  · exact hpairs _
  · exact hpairs _

omit H in
theorem everywhere_plainConfig (sub : String) : (plainConfig parts sub).Everywhere Q := by
  unfold plainConfig
  split
  · split
    · exact W.err rfl
    · split
      · exact W.err rfl
      · exact everywhere_configGet W _
  · exact W.err rfl
  · exact W.err rfl
  · exact W.err rfl
  · exact W.err rfl

omit H in
theorem everywhere_slowlogConfig {param value : String} {f : RespFrame}
    (h : slowlogConfig param value = some f) : f.Everywhere Q := by
  have hanswer (b : Bool) : (if b then RespFrame.ok else .err notInteger).Everywhere Q := by
    cases b with
    | true => exact W.ok
    | false => exact W.err rfl
  unfold slowlogConfig at h
  dsimp only at h
  split at h
  · exact Option.some.inj h ▸ hanswer _
  · split at h
    · exact Option.some.inj h ▸ hanswer _
    · cases h

omit H in
theorem worded_handleConfig : Worded L Q A (handleConfig parts) := by
  refine .readingWith (P := (·.Everywhere Q)) (.after (W.arity rfl) fun _ =>
    .after (W.bulkArg rfl) fun sub => ?_) fun f hf => .ret hf
  dsimp only
  split
  · refine .after (W.bulkArg rfl) fun param => .after (W.bulkArg rfl) fun value => ?_
    change ((slowlogConfig _ _).getD _).Everywhere Q
    cases hc : slowlogConfig (fromUtf8Lossy param) (fromUtf8Lossy value) with
    | none =>
        rw [Option.getD_none]
        exact everywhere_plainConfig W _ _
    | some f => exact everywhere_slowlogConfig W hc
  · exact everywhere_plainConfig W _ _

omit H in
theorem everywhere_cmdInfo (name : String) (arity : Int) {flags : List String}
    (hf : ∀ f ∈ flags, plainText f = true) (first last step : Int) :
    (cmdInfo name arity flags first last step).Everywhere Q := by
  have hflags : (RespFrame.list (flags.map fun f => .simpleString f.toBytes)).Everywhere Q := by
    refine W.list fun f hm => ?_
    obtain ⟨t, ht, rfl⟩ := List.mem_map.mp hm
    exact W.status (W.plain (hf t ht))
  refine W.list fun f hm => ?_
  simp only [List.mem_cons, List.not_mem_nil, or_false] at hm
  rcases hm with rfl | rfl | rfl | rfl | rfl | rfl
  · exact W.text name
  · exact W.int arity
  · exact hflags
  · exact W.int first
  · exact W.int last
  · exact W.int step

omit W H in
/-- A list of texts is looked at one by one. -/
theorem plainTexts_cons {cs : List Char} {ts : List String} (h : cs.all plainChar = true)
    (hs : ∀ t ∈ ts, plainText t = true) : ∀ t ∈ String.ofList cs :: ts, plainText t = true :=
  List.forall_mem_cons.mpr ⟨plainText_of_chars h, hs⟩

omit H in
theorem everywhere_essentialCommands : (RespFrame.list essentialCommands).Everywhere Q := by
  have hall : ∀ f ∈ essentialCommands, f.Everywhere Q := by
    unfold essentialCommands
    repeat' first
      | exact List.forall_mem_nil _
      | refine plainTexts_cons rfl ?_
      | refine List.forall_mem_cons.mpr ⟨everywhere_cmdInfo W _ _ ?_ _ _ _, ?_⟩
  exact W.list hall

omit H in
theorem everywhere_getCommandInfo (name : String) : (getCommandInfo name).Everywhere Q := by
  unfold getCommandInfo
  split
  all_goals first
    | exact W.nullBulk
    | refine everywhere_cmdInfo W _ _ ?_ _ _ _
  all_goals repeat' first
    | exact List.forall_mem_nil _
    | refine plainTexts_cons rfl ?_

omit H in
/-- COMMAND answers with a subcommand it does not know. -/
theorem worded_handleCommand
    (hsub : ∀ bytes sub, (parts[1]?).bind RespFrame.bulk? = some bytes → fromUtf8 bytes = some sub →
      toLowercase sub ≠ "count" → toLowercase sub ≠ "info" → L sub) :
    Worded L Q A (handleCommand parts) := by
  refine .ret ?_
  split
  · exact everywhere_essentialCommands W
  · split
    · exact W.err rfl
    · next bytes hbytes =>
        split
        · exact W.err rfl
        · next sub htext =>
            split
            · exact W.int _
            · split
              · exact W.err rfl
              · refine W.listMap _ _ fun p => ?_
                cases (p.bulk?.bind fromUtf8) with
                | none => exact W.nullBulk
                | some name => exact everywhere_getCommandInfo W name
            · next hcount hinfo =>
                exact W.error (W.wrap (plainText_of_chars rfl) (plainText_of_chars rfl)
                  (hsub bytes sub hbytes htext hcount hinfo))

omit H in
theorem worded_handleSlowlog (proc : Process) (hlog : ∀ f ∈ proc.slowlog, f.Everywhere Q) :
    Worded L Q A (handleSlowlog proc parts) := by
  refine .readingWith (P := (·.Everywhere Q)) (.after (W.arity rfl) fun _ =>
    .after (W.bulkArg rfl) fun sub => ?_) fun f hf => .ret hf
  split
  · split
    · exact .after (W.natArg rfl) fun n => W.list fun f hf => hlog f (List.mem_of_mem_take hf)
    · exact W.list hlog
  · exact W.count _
  · exact W.ok
  · exact W.err rfl

/-- A program that calls operations and ends with a value. -/
def Discreet (L : String → Prop) (A : ∀ β : Type, Op β → Except FerrousError β → Prop) {α : Type}
    (p : StoreProg α) : Prop :=
  p.Returns A (fun e => L e.display) fun _ => True

omit W H in
theorem Discreet.ret {α : Type} (a : α) : Discreet L A (.ret a) := trivial

omit W H in
theorem Discreet.bind {α β : Type} {p : StoreProg α} {f : α → StoreProg β} (hp : Discreet L A p)
    (hf : ∀ a, Discreet L A (f a)) : Discreet L A (p >>= f) :=
  Prog.Returns.bind hp fun a _ => hf a

omit W H in
theorem Discreet.attempt {α : Type} (o : Op α) : Discreet L A (Prog.attempt o) :=
  Prog.Returns.attempt.mono fun _ _ => trivial

omit W in
theorem Discreet.need {α : Type} (o : Op α) : Discreet L A (Ferrous.need o) :=
  (Prog.Returns.perform fun _ he => H.error he).mono fun _ _ => trivial

omit W H in
theorem discreet_countExpiring (ks : List Key) (n : Nat) : Discreet L A (countExpiring db ks n) := by
  induction ks generalizing n with
  | nil => exact .ret n
  | cons key ks ih => exact .bind (.attempt _) fun _ => ih _

omit W H in
theorem discreet_keyspaceLoop (db n : Nat) (acc : List (Nat × Nat × Nat)) :
    Discreet L A (keyspaceLoop db n acc) := by
  induction n generalizing db acc with
  | zero => exact .ret acc
  | succ n ih =>
      refine .bind (.attempt _) fun keys => ?_
      split
      · exact ih _ _
      · exact .bind (discreet_countExpiring _ _) fun _ => ih _ _
      · exact ih _ _

theorem worded_handleInfo (proc : Process) : Worded L Q A (handleInfo proc parts) := by
  unfold handleInfo
  dsimp only
  split
  · refine .need H fun used _ => ?_
    split
    · exact .need H fun n _ => .after (discreet_keyspaceLoop 0 n []) fun _ => .ret (W.text _)
    · exact .ret (W.text _)
  · change Worded L Q A (ite _ _ _)
    split
    · exact .need H fun n _ => .after (discreet_keyspaceLoop 0 n []) fun _ => .ret (W.text _)
    · exact .ret (W.text _)

section Memory

variable (lay : Layout)

omit W H in
theorem discreet_sampleList (key : Key) (ps : List Nat) (acc : Nat × Nat) :
    Discreet L A (sampleList lay db key ps acc) := by
  induction ps generalizing acc with
  | nil => exact .ret acc
  | cons p ps ih => exact .bind (.attempt _) fun _ => ih _

omit W H in
theorem discreet_memoryByType (key : Key) (type : String) : Discreet L A (memoryByType lay db key type) := by
  unfold memoryByType
  split
  · exact .bind (.attempt _) fun _ => .ret _
  · refine .bind (.attempt _) fun n => ?_
    split
    · exact .bind (discreet_sampleList lay key _ _) fun _ => .ret _
    · exact .ret _
  · refine .bind (.attempt _) fun n => ?_
    split
    · exact .bind (.attempt _) fun _ => .ret _
    · exact .ret _
  · refine .bind (.attempt _) fun n => ?_
    split
    · exact .bind (.attempt _) fun _ => .ret _
    · exact .ret _
  · exact .bind (.attempt _) fun _ => .ret _
  · exact .ret _

omit W in
/-- The error of a key whose type cannot be read is an operation's. -/
theorem returns_keyMemoryUsage (key : Key) :
    (keyMemoryUsage lay db key).Returns A (fun e => L e.display)
      fun r => ∀ e, r = .error e → L e.display := by
  refine Prog.Returns.bind Prog.Returns.attempt fun type htype => ?_
  cases type with
  | error e => exact fun e' he => Except.error.inj he ▸ H.error htype
  | ok type => exact Prog.Returns.bind (discreet_memoryByType lay key type) fun _ _ => nofun

omit W in
theorem discreet_sizesLoop (ks : List Key) (acc : List (Key × Nat)) :
    Discreet L A (sizesLoop lay db ks acc) := by
  induction ks generalizing acc with
  | nil => exact .ret acc
  | cons key ks ih =>
      exact .bind ((returns_keyMemoryUsage H lay key).mono fun _ _ => trivial) fun _ => ih _

omit W in
theorem discreet_statsLoop (db n : Nat) (acc : List (String × String)) :
    Discreet L A (statsLoop lay db n acc) := by
  induction n generalizing db acc with
  | zero => exact .ret acc
  | succ n ih =>
      refine .bind (.attempt _) fun keys => ?_
      split
      · exact ih _ _
      · exact .bind (discreet_sizesLoop H lay _ _) fun _ => ih _ _

omit W in
theorem discreet_doctorLoop (db n : Nat) (acc : List (Nat × Key × Nat)) :
    Discreet L A (doctorLoop lay db n acc) := by
  induction n generalizing db acc with
  | zero => exact .ret acc
  | succ n ih =>
      refine .bind (.attempt _) fun keys => ?_
      split
      · exact ih _ _
      · exact .bind (discreet_sizesLoop H lay _ _) fun _ => ih _ _

omit W H in
theorem discreet_doctorLines (ks : List (Nat × Key × Nat)) (out : String) :
    Discreet L A (doctorLines ks out) := by
  induction ks generalizing out with
  | nil => exact .ret out
  | cons p ks ih => exact .bind (.attempt _) fun _ => ih _

theorem worded_memoryUsage : Worded L Q A (memoryUsage lay db parts) := by
  refine .reading ((W.arity rfl).bind fun _ => W.bulkArg rfl) fun key => .need H fun there _ => ?_
  split
  · exact .ret W.nullBulk
  · refine Prog.Returns.bind (returns_keyMemoryUsage H lay key) fun size hsize => ?_
    cases size with
    | ok n => exact W.count n
    | error e => exact hsize e rfl

/-- MEMORY answers with a subcommand it does not know. -/
theorem worded_handleMemory
    (hsub : ∀ bytes, (parts[1]?).bind RespFrame.bulk? = some bytes →
      toUppercase (fromUtf8Lossy bytes) ∉ ["USAGE", "STATS", "DOCTOR", "HELP"] →
      L (toUppercase (fromUtf8Lossy bytes))) :
    Worded L Q A (handleMemory lay db parts) := by
  refine .readingWith (P := fun bytes => (parts[1]?).bind RespFrame.bulk? = some bytes)
    (.after (W.arity rfl) fun _ => ?_) fun bytes hbytes => ?_
  · exact W.readsBulk rfl
  · split
    · exact worded_memoryUsage W H parts lay
    · refine .need H fun used _ => .need H fun n _ => .after (discreet_statsLoop H lay _ _ _) fun stats =>
        .ret (W.list fun f hf => ?_)
      obtain ⟨p, -, hp⟩ := List.mem_flatMap.mp hf
      rcases List.mem_cons.mp hp with rfl | hp
      · exact W.text _
      · exact List.mem_singleton.mp hp ▸ W.text _
    · refine .need H fun used _ => .need H fun n _ => .after (discreet_doctorLoop H lay _ _ _) fun keys => ?_
      dsimp only
      split
      · exact .ret (W.text _)
      · exact .after (discreet_doctorLines _ _) fun _ => .ret (W.text _)
    · exact .ret (W.text _)
    · next hne₁ hne₂ hne₃ hne₄ =>
        refine .ret (W.error (W.wrap (plainText_of_chars rfl) (plainText_of_chars rfl)
          (hsub bytes hbytes ?_)))
        simp only [List.mem_cons, List.not_mem_nil, or_false, not_or]
        exact ⟨hne₁, hne₂, hne₃, hne₄⟩

end Memory

/-! ## EVAL -/

omit H in
theorem refuses_numKeysArg (p : Option RespFrame) : Refuses Q (numKeysArg p) := by
  unfold numKeysArg
  split
  · split
    · exact W.reject rfl
    · exact .ok _
  · split
    · exact .ok _
    · exact W.reject rfl

omit H in
theorem refuses_stringArgs {complaint : List Char} (hc : complaint.all plainChar = true) (ps : Parts) :
    Refuses Q (stringArgs (String.ofList complaint) ps) := by
  unfold stringArgs
  split
  · exact .ok _
  · exact W.rejectLine (W.append (plainText_of_chars rfl) (W.plain (plainText_of_chars hc)))

omit H in
/-- A script that answers well is answered with. -/
theorem worded_handleEval {lua : LuaEngine}
    (hlua : ∀ script keys args, Worded L Q A (lua.eval script keys args db)) :
    Worded L Q A (handleEval lua db parts) := by
  have hnumber (script : String) : Refuses Q (do
      let n ← numKeysArg parts[2]?
      return (script, n)) := (refuses_numKeysArg W _).bind fun _ => .pure _
  refine .reading ((W.arity rfl).bind fun _ => ?_) fun ⟨script, n⟩ => ?_
  · dsimp only
    split
    · exact (W.reject rfl).bind hnumber
    · split
      · exact .bind (.ok _) hnumber
      · exact (W.reject rfl).bind hnumber
  · dsimp only
    split
    · trivial
    · refine .reading ?_ fun ⟨keys, args⟩ => hlua script keys args
      split
      · exact (W.reject rfl).bind fun _ => (refuses_stringArgs W rfl _).bind fun _ =>
          (refuses_stringArgs W rfl _).bind fun _ => .pure _
      · exact (refuses_stringArgs W rfl _).bind fun _ =>
          (refuses_stringArgs W rfl _).bind fun _ => .pure _

end Handlers

end Ferrous
